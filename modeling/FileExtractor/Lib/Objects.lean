import Mathlib.Data.List.Infix

/-!
# Objects whose methods may raise

A call of a method leaves the object in a state whether it returns or raises, and the next call
finds the object in it. Two disciplines of a sequence of calls: a call that raises changes nothing
(`FailureAtomic`), and once the object is final nothing changes it (`Frozen`). Both can be checked
call by call (`disciplined_iff`). Where the first holds, the calls that returned (`returned`) give
the object by themselves (`run_returned`).
-/

namespace Objects

structure Methods (σ μ : Type) where
  /-- The object after the call. -/
  after : σ → μ → σ
  raises : σ → μ → Bool

namespace Methods

variable {σ μ : Type} (M : Methods σ μ)

/-- The object after the calls. -/
def run (s : σ) (ms : List μ) : σ := ms.foldl M.after s

/-- A call that raises leaves the object as it was. -/
def FailureAtomic (s : σ) (ms : List μ) : Prop :=
  ∀ pre m, pre ++ [m] <+: ms → M.raises (M.run s pre) m = true →
    M.run s (pre ++ [m]) = M.run s pre

/-- An object that is final stays as it is. -/
def Frozen (final : σ → Prop) (s : σ) (ms : List μ) : Prop :=
  ∀ pre post, pre ++ post <+: ms → final (M.run s pre) → M.run s (pre ++ post) = M.run s pre

/-- Every call of the sequence has the property, in the state that it finds. -/
def Each (P : σ → μ → Prop) (s : σ) (ms : List μ) : Prop :=
  ∀ pre m, pre ++ [m] <+: ms → P (M.run s pre) m

/-- The calls of the sequence that return. -/
def returned (s : σ) : List μ → List μ
  | [] => []
  | m :: ms => (if M.raises s m then [] else [m]) ++ returned (M.after s m) ms

variable {M} {final : σ → Prop} {s : σ} {ms : List μ}

theorem run_cons (m : μ) : M.run s (m :: ms) = M.run (M.after s m) ms := rfl

theorem run_concat (m : μ) : M.run s (ms ++ [m]) = M.after (M.run s ms) m := by
  simp [run]

theorem each_cons {P : σ → μ → Prop} {m : μ} (h : M.Each P s (m :: ms)) :
    P s m ∧ M.Each P (M.after s m) ms := by
  refine ⟨h [] m ⟨ms, rfl⟩, fun pre m' hpre => h (m :: pre) m' ?_⟩
  obtain ⟨rest, rfl⟩ := hpre
  exact ⟨rest, rfl⟩

theorem failureAtomic_iff : M.FailureAtomic s ms ↔
    M.Each (fun s m => M.raises s m = true → M.after s m = s) s ms := by
  simp only [FailureAtomic, Each, run_concat]

/-- What no single call changes, no sequence of calls changes. -/
theorem frozen_iff : M.Frozen final s ms ↔
    M.Each (fun s m => final s → M.after s m = s) s ms := by
  constructor
  · intro h pre m hpre hfinal
    rw [← run_concat]
    exact h pre [m] hpre hfinal
  · intro h pre post hpre hfinal
    induction post using List.reverseRecOn with
    | nil => rw [List.append_nil]
    | append_singleton post m ih =>
      rw [← List.append_assoc] at hpre ⊢
      have hrun := ih ((List.prefix_append _ _).trans hpre)
      rw [run_concat]
      rw [← hrun] at hfinal
      exact (h _ m hpre hfinal).trans hrun

/-- **Call by call.** A condition `P` that says of one call that it keeps both disciplines says it
of a sequence. -/
theorem disciplined_iff {P : σ → μ → Prop}
    (hP : ∀ s m, P s m ↔
      (M.raises s m = true → M.after s m = s) ∧ (final s → M.after s m = s)) :
    M.FailureAtomic s ms ∧ M.Frozen final s ms ↔ M.Each P s ms := by
  rw [failureAtomic_iff, frozen_iff]
  constructor
  · rintro ⟨hatomic, hfrozen⟩ pre m hpre
    exact (hP _ m).mpr ⟨hatomic pre m hpre, hfrozen pre m hpre⟩
  · intro h
    exact ⟨fun pre m hpre => ((hP _ m).mp (h pre m hpre)).1,
      fun pre m hpre => ((hP _ m).mp (h pre m hpre)).2⟩

theorem returned_concat (m : μ) : M.returned s (ms ++ [m]) =
    M.returned s ms ++ if M.raises (M.run s ms) m then [] else [m] := by
  induction ms generalizing s with
  | nil => exact List.append_nil _
  | cons m' ms ih =>
    rw [List.cons_append, returned, returned, ih, run_cons, List.append_assoc]

/-- Without the calls that raised, the object comes out the same. -/
theorem run_returned (h : M.FailureAtomic s ms) : M.run s (M.returned s ms) = M.run s ms := by
  rw [failureAtomic_iff] at h
  induction ms generalizing s with
  | nil => rfl
  | cons m ms ih =>
    obtain ⟨hm, hms⟩ := each_cons h
    rw [returned, run_cons, ← ih hms]
    by_cases hr : M.raises s m = true
    · rw [if_pos hr, List.nil_append, hm hr]
    · rw [if_neg hr, List.singleton_append, run_cons]

/-- What every call keeps, a sequence of calls keeps. -/
theorem run_keeps {I : σ → Prop} (hI : ∀ s m, I s → I (M.after s m)) (h : I s) :
    I (M.run s ms) := by
  induction ms generalizing s with
  | nil => exact h
  | cons m ms ih =>
    rw [run_cons]
    exact ih (hI s m h)

end Methods

end Objects
