import Mathlib.Data.List.Basic

/-!
# Sessions of a transactional store

A session has the committed store and the one that its transaction sees. A request is sent at once
(`execute`) or kept until the next one that is sent, or the commit (`defer`). A request that fails
aborts the transaction, and then each one fails until the session is rolled back. A commit may take
effect and its acknowledgement be lost.

`block` is a scope that rolls back when its body raises. A block of requests and a commit takes
effect as a whole or not at all, it has taken effect if it returns, and it leaves no transaction
behind (`block_cases`), also when the session has been left aborted before.
-/

namespace Transaction

variable {σ ε : Type}

/-- The store after a request; `none` where it violates a constraint. -/
abbrev Statement (σ : Type) : Type := σ → Option σ

/-- The statements, one after the other. -/
def all (fs : List (Statement σ)) : Statement σ := fun w => fs.foldlM (fun w f => f w) w

structure Session (σ : Type) where
  committed : σ
  working : σ
  pending : List (Statement σ)
  aborted : Bool

inductive Op (σ : Type) where
  | defer (f : Statement σ)
  | execute (f : Statement σ)

def Op.statement : Op σ → Statement σ
  | defer f => f
  | execute f => f

/-- How the server ends a commit: with its effect, without it, or with it and without an answer. -/
inductive Fate (ε : Type) where
  | done
  | refused (e : ε)
  | lost (e : ε)

/-- What the library raises by itself: in an aborted transaction, and for a constraint. -/
structure Errors (ε : Type) where
  aborted : ε
  violated : ε

namespace Session

/-- No transaction is open. -/
def start (w : σ) : Session σ := ⟨w, w, [], false⟩

/-- Nothing is left of a transaction, except that it may be aborted. -/
structure Idle (s : Session σ) : Prop where
  working : s.working = s.committed
  pending : s.pending = []

/-- The session is ready for a transaction. -/
structure Clean (s : Session σ) : Prop extends s.Idle where
  aborted : s.aborted = false

section Methods

variable (E : Errors ε)

/-- Send what is pending and `f`, which may fail with `fault`. -/
def emit (fs : List (Statement σ)) (fault : Option ε) (s : Session σ) : Option ε × Session σ :=
  if s.aborted then (some E.aborted, s)
  else
    match fault, all (s.pending ++ fs) s.working with
    | some e, _ => (some e, { s with aborted := true })
    | none, none => (some E.violated, { s with aborted := true })
    | none, some w => (none, { s with working := w, pending := [] })

def request (op : Op σ) (fault : Option ε) (s : Session σ) : Option ε × Session σ :=
  match op with
  | .defer f => (none, { s with pending := s.pending ++ [f] })
  | .execute f => s.emit E [f] fault

/-- The requests of a body, up to the first one that raises. -/
def body : List (Op σ) → List (Option ε) → Session σ → Option ε × Session σ
  | [], _, s => (none, s)
  | op :: ops, faults, s =>
    match s.request E op (faults.head?.join) with
    | (none, s) => body ops faults.tail s
    | (some e, s) => (some e, s)

def commit (fault : Option ε) (fate : Fate ε) (s : Session σ) : Option ε × Session σ :=
  match s.emit E [] fault with
  | (some e, s) => (some e, s)
  | (none, s) =>
    match fate with
    | .done => (none, { s with committed := s.working })
    | .refused e => (some e, { s with aborted := true })
    | .lost e => (some e, { s with committed := s.working })

def rollback (s : Session σ) : Session σ := start s.committed

/-- A scope that rolls back on an exception; its body may end with a commit. -/
def block (ops : List (Op σ)) (commits : Bool) (faults : List (Option ε)) (fault : Option ε)
    (fate : Fate ε) (s : Session σ) : Option ε × Session σ :=
  match s.body E ops faults with
  | (some e, s) => (some e, s.rollback)
  | (none, s) =>
    if commits then
      match s.commit E fault fate with
      | (some e, s) => (some e, s.rollback)
      | (none, s) => (none, s)
    else (none, s)

end Methods

variable {E : Errors ε} {s s' : Session σ} {ops : List (Op σ)} {faults : List (Option ε)}
  {fault : Option ε} {fate : Fate ε} {raised : Option ε}

theorem all_append (fs gs : List (Statement σ)) (w : σ) :
    all (fs ++ gs) w = (all fs w).bind (all gs) := List.foldlM_append

theorem clean_start (w : σ) : (start w).Clean := ⟨⟨rfl, rfl⟩, rfl⟩

theorem clean_rollback (s : Session σ) : s.rollback.Clean := clean_start s.committed

/-- What is sent has succeeded, and nothing is pending. -/
theorem emit_returned {fs : List (Statement σ)} (h : s.emit E fs fault = (none, s')) :
    s.aborted = false ∧ ∃ w, all (s.pending ++ fs) s.working = some w ∧
      s' = { s with working := w, pending := [] } := by
  unfold emit at h
  split at h
  · cases h
  · next ha =>
    split at h
    · cases h
    · cases h
    · next w hw => cases h; exact ⟨by simpa using ha, w, hw, rfl⟩

theorem emit_raised {fs : List (Statement σ)} {e : ε} (h : s.emit E fs fault = (some e, s')) :
    s'.committed = s.committed := by
  unfold emit at h
  split at h
  · cases h; rfl
  · split at h <;> cases h <;> rfl

/-- **The body of a block** changes nothing that is committed. What it has sent and what it has left
pending are its statements, in their order. -/
theorem body_cases (h : s.body E ops faults = (raised, s')) : s'.committed = s.committed ∧
    (raised = none →
      all s'.pending s'.working = all (s.pending ++ ops.map Op.statement) s.working) := by
  induction ops generalizing s faults with
  | nil => cases h; exact ⟨rfl, fun _ => by simp⟩
  | cons op ops ih =>
    unfold body at h
    cases op with
    | defer f =>
      obtain ⟨hc, hr⟩ := ih h
      refine ⟨hc, fun hn => (hr hn).trans ?_⟩
      simp [Op.statement]
    | execute f =>
      cases he : s.emit E [f] faults.head?.join with
      | mk r s₁ =>
        rw [show s.request E (.execute f) faults.head?.join = (r, s₁) from he] at h
        cases r with
        | some e => cases h; exact ⟨emit_raised he, fun hn => by cases hn⟩
        | none =>
          obtain ⟨-, w, hw, rfl⟩ := emit_returned he
          obtain ⟨hc, hr⟩ := ih h
          have hsplit : s.pending ++ (Op.execute f :: ops).map Op.statement =
              (s.pending ++ [f]) ++ ops.map Op.statement := by simp [Op.statement]
          refine ⟨hc, fun hn => (hr hn).trans ?_⟩
          rw [hsplit, all_append (s.pending ++ [f]), hw]
          rfl

/-- **A block with a commit**: it takes effect as a whole or not at all, it has if it returns, and
no transaction is left. -/
theorem block_cases (hs : s.Idle) (h : s.block E ops true faults fault fate = (raised, s')) :
    s'.Clean ∧ ((raised.isSome ∧ s'.committed = s.committed) ∨
      all (ops.map Op.statement) s.committed = some s'.committed) := by
  unfold block at h
  cases hb : s.body E ops faults with
  | mk r s₁ =>
    obtain ⟨hc, hr⟩ := body_cases hb
    rw [hb] at h
    cases r with
    | some e => cases h; exact ⟨clean_rollback _, .inl ⟨rfl, hc⟩⟩
    | none =>
      have hall := hr rfl
      rw [hs.pending, hs.working, List.nil_append] at hall
      simp only [if_true] at h
      cases hcm : s₁.commit E fault fate with
      | mk r₂ s₂ =>
        rw [hcm] at h
        unfold commit at hcm
        cases he : s₁.emit E [] fault with
        | mk r₃ s₃ =>
          rw [he] at hcm
          cases r₃ with
          | some e =>
            cases hcm; cases h
            exact ⟨clean_rollback _, .inl ⟨rfl, (emit_raised he).trans hc⟩⟩
          | none =>
            obtain ⟨ha, w, hw, rfl⟩ := emit_returned he
            rw [List.append_nil, hall] at hw
            cases fate with
            | done => cases hcm; cases h; exact ⟨⟨⟨rfl, rfl⟩, ha⟩, .inr hw⟩
            | refused e => cases hcm; cases h; exact ⟨clean_rollback _, .inl ⟨rfl, hc⟩⟩
            | lost e => cases hcm; cases h; exact ⟨clean_rollback _, .inr hw⟩

/-- A request that reads, outside of a block: a failure leaves the session aborted. -/
theorem read_cases (hs : s.Idle) (h : s.request E (.execute some) fault = (raised, s')) :
    s'.Idle ∧ s'.committed = s.committed := by
  replace h : s.emit E [some] fault = (raised, s') := h
  obtain ⟨hw, hp⟩ := hs
  cases raised with
  | none =>
    obtain ⟨-, w, hall, rfl⟩ := emit_returned h
    rw [hp] at hall
    cases hall
    exact ⟨⟨hw, rfl⟩, rfl⟩
  | some e =>
    unfold emit at h
    split at h
    · cases h; exact ⟨⟨hw, hp⟩, rfl⟩
    · split at h <;> cases h <;> exact ⟨⟨hw, hp⟩, rfl⟩

/-- A block that reads and does not commit. -/
theorem block_read_cases (hs : s.Idle)
    (h : s.block E [.execute some] false faults fault fate = (raised, s')) :
    s'.Idle ∧ s'.committed = s.committed := by
  unfold block body at h
  cases hr : s.request E (.execute some) faults.head?.join with
  | mk r s₁ =>
    obtain ⟨hidle, hc⟩ := read_cases hs hr
    rw [hr] at h
    cases r with
    | some e => cases h; exact ⟨(clean_rollback _).toIdle, hc⟩
    | none => cases h; exact ⟨hidle, hc⟩

end Session

end Transaction
