import Mathlib.Order.Basic

/-!
# Labelled systems and their guarded runs

A `System` is a set of initial states and an executable step: `step s l` is the state after the
step `l`, or `none` if `s` cannot take it. The label holds every choice of the environment, so a
run is a list of labels (`run`) and a concrete run can be evaluated.

A property of every run is a property of the reachable states. Many of these hold only while the
environment keeps some rule, so reachability has a **guard** `ok s l`: `Reach ok s` are the states
of the runs whose every step `l` meets the guard in the state `s` it is taken from. `Reach.induct`
is the induction rule (it hands the step the reachability of the state before it, so a property
that is already proved of the reachable states can be used); `Invariant` and `Keeps` are the two
kinds of result: about the states reached, and about the steps between them.

`Simulates` maps the states of one system to those of another, and `Refines` its runs, with their
labels.
-/

namespace Lts

/-- States, initial states and the executable step. -/
structure System (σ ℓ : Type) where
  init : σ → Prop
  step : σ → ℓ → Option σ

namespace System

variable {σ ℓ : Type} (S : System σ ℓ)

/-- The run of the labels from `s`. -/
def run : σ → List ℓ → Option σ
  | s, [] => some s
  | s, l :: ls => (S.step s l).bind fun s' => run s' ls

/-- Every step of the run of the labels from `s` meets the guard. -/
def Guarded (ok : σ → ℓ → Prop) : σ → List ℓ → Prop
  | _, [] => True
  | s, l :: ls => ok s l ∧ ∀ s', S.step s l = some s' → Guarded ok s' ls

/-- No guard: every step is allowed. -/
abbrev free : σ → ℓ → Prop := fun _ _ => True

/-- The states reached by the runs whose steps meet the guard. -/
inductive Reach (ok : σ → ℓ → Prop) : σ → Prop
  | init {s : σ} : S.init s → Reach ok s
  | step {s s' : σ} {l : ℓ} : Reach ok s → ok s l → S.step s l = some s' → Reach ok s'

/-- How many steps of the run of the labels satisfy `p`, each in the state it is taken from. -/
def tally (p : σ → ℓ → Bool) : σ → List ℓ → Nat
  | _, [] => 0
  | s, l :: ls => (if p s l then 1 else 0) + (S.step s l).elim 0 fun s' => tally p s' ls

/-- A property of every state of every guarded run. -/
def Invariant (ok : σ → ℓ → Prop) (P : σ → Prop) : Prop := ∀ s, S.Reach ok s → P s

/-- A property of every step of every guarded run. -/
def Keeps (ok : σ → ℓ → Prop) (T : σ → ℓ → σ → Prop) : Prop :=
  ∀ s l s', S.Reach ok s → ok s l → S.step s l = some s' → T s l s'

variable {S} {ok ok' : σ → ℓ → Prop} {s s' : σ}

@[simp] theorem run_nil : S.run s [] = some s := rfl

theorem run_cons {l : ℓ} {ls : List ℓ} :
    S.run s (l :: ls) = (S.step s l).bind fun s' => S.run s' ls := rfl

/-- A run of a step and more. -/
theorem run_cons_eq_some {l : ℓ} {ls : List ℓ} :
    S.run s (l :: ls) = some s' ↔ ∃ t, S.step s l = some t ∧ S.run t ls = some s' :=
  Option.bind_eq_some_iff

/-- One run after the other. -/
theorem run_append {ls ms : List ℓ} : S.run s (ls ++ ms) = (S.run s ls).bind (S.run · ms) := by
  induction ls generalizing s with
  | nil => rfl
  | cons l ls ih =>
    rw [List.cons_append, run_cons, run_cons, Option.bind_assoc]
    congr 1
    funext t
    exact ih

theorem run_append_eq_some {ls ms : List ℓ} :
    S.run s (ls ++ ms) = some s' ↔ ∃ t, S.run s ls = some t ∧ S.run t ms = some s' := by
  rw [run_append, Option.bind_eq_some_iff]

/-- **The induction rule.** The step may use that the state before it is reachable. -/
theorem Reach.induct {I : σ → Prop} (h0 : ∀ s, S.init s → I s)
    (hs : ∀ s l s', S.Reach ok s → I s → ok s l → S.step s l = some s' → I s') :
    S.Invariant ok I := by
  intro s h
  induction h with
  | init hi => exact h0 _ hi
  | step hr hok hst ih => exact hs _ _ _ hr ih hok hst

/-- A weaker guard reaches more. -/
theorem Reach.mono (h : ∀ s l, ok s l → ok' s l) (hr : S.Reach ok s) : S.Reach ok' s := by
  induction hr with
  | init hi => exact .init hi
  | step _ hok hst ih => exact .step ih (h _ _ hok) hst

theorem Reach.toFree (hr : S.Reach ok s) : S.Reach free s := hr.mono fun _ _ _ => trivial

/-- A run of labels that meet the guard reaches its last state. -/
theorem Reach.run {ls : List ℓ} (hr : S.Reach ok s) (hg : S.Guarded ok s ls)
    (h : S.run s ls = some s') : S.Reach ok s' := by
  induction ls generalizing s with
  | nil => simp only [run_nil, Option.some.injEq] at h; exact h ▸ hr
  | cons l ls ih =>
    obtain ⟨t, ht, h⟩ := run_cons_eq_some.mp h
    exact ih (.step hr hg.1 ht) (hg.2 t ht) h

theorem guarded_free {ls : List ℓ} : S.Guarded free s ls := by
  induction ls generalizing s with
  | nil => trivial
  | cons l ls ih => exact ⟨trivial, fun _ _ => ih⟩

theorem guarded_and {ls : List ℓ} (h : S.Guarded ok s ls) (h' : S.Guarded ok' s ls) :
    S.Guarded (fun s l => ok s l ∧ ok' s l) s ls := by
  induction ls generalizing s with
  | nil => trivial
  | cons l ls ih => exact ⟨⟨h.1, h'.1⟩, fun t ht => ih (h.2 t ht) (h'.2 t ht)⟩

/-- A run that meets a guard meets a weaker one. -/
theorem Guarded.mono {ls : List ℓ} (h : S.Guarded ok s ls) (hle : ∀ s l, ok s l → ok' s l) :
    S.Guarded ok' s ls := by
  induction ls generalizing s with
  | nil => trivial
  | cons l ls ih => exact ⟨hle s l h.1, fun t ht => ih (h.2 t ht)⟩

/-- Labels that meet the guard in every state. -/
theorem guarded_of_forall {ls : List ℓ} (h : ∀ l ∈ ls, ∀ s, ok s l) : S.Guarded ok s ls := by
  induction ls generalizing s with
  | nil => trivial
  | cons l ls ih =>
    exact ⟨h l List.mem_cons_self s, fun _ _ => ih fun l' hl' => h l' (List.mem_cons_of_mem l hl')⟩

/-- The states reached without a guard are the states of the runs. -/
theorem reach_of_run {s₀ : σ} {ls : List ℓ} (h0 : S.init s₀) (h : S.run s₀ ls = some s) :
    S.Reach free s := Reach.run (.init h0) guarded_free h

/-- A run whose last state passes a check. -/
theorem reach_of_check {s₀ : σ} (ls : List ℓ) (p : σ → Bool) (h0 : S.init s₀)
    (h : (S.run s₀ ls).any p = true) : ∃ s, S.Reach free s ∧ p s = true := by
  obtain ⟨s, hs, hp⟩ := (Option.any_eq_true ..).mp h
  exact ⟨s, reach_of_run h0 hs, hp⟩

/-- The run of the labels from `s`, with a check before each step. -/
def runIf (S : System σ ℓ) (check : σ → ℓ → Bool) : σ → List ℓ → Option σ
  | s, [] => some s
  | s, l :: ls => if check s l then (S.step s l).bind fun s' => runIf S check s' ls else none

/-- A checked run reaches its last state under the guard, if the check decides the guard in the
states that satisfy `I`, and keeps `I`. -/
theorem Reach.runIf {check : σ → ℓ → Bool} {I : σ → Prop}
    (hI : ∀ s l s', I s → check s l = true → S.step s l = some s' → I s')
    (hok : ∀ s l, I s → check s l = true → ok s l) {ls : List ℓ} {p : σ → Bool} (hr : S.Reach ok s)
    (h0 : I s) (h : (S.runIf check s ls).any p = true) : ∃ t, S.Reach ok t ∧ p t = true := by
  induction ls generalizing s with
  | nil => exact ⟨s, hr, h⟩
  | cons l ls ih =>
    unfold System.runIf at h
    split at h
    · next hc =>
      cases hst : S.step s l with
      | none => rw [hst] at h; cases h
      | some t =>
        rw [hst] at h
        exact ih (.step hr (hok s l h0 hc) hst) (hI s l t h0 hc hst) h
    · cases h

/-- A checked run is a guarded run, if the check decides the guard. -/
theorem guarded_of_runIf {check : σ → ℓ → Bool} (hok : ∀ s l, check s l = true → ok s l)
    (ls : List ℓ) (p : σ → Bool) (h : (S.runIf check s ls).any p = true) :
    S.Guarded ok s ls ∧ ∃ t, S.run s ls = some t ∧ p t = true := by
  induction ls generalizing s with
  | nil => exact ⟨trivial, s, rfl, h⟩
  | cons l ls ih =>
    unfold System.runIf at h
    split at h
    · next hc =>
      cases hst : S.step s l with
      | none => rw [hst] at h; cases h
      | some u =>
        rw [hst] at h
        obtain ⟨hg, t, ht, hp⟩ := ih h
        refine ⟨⟨hok s l hc, fun u' hu => ?_⟩, t, ?_, hp⟩
        · rw [hst] at hu; cases hu; exact hg
        · rw [run_cons, hst]; exact ht
    · cases h

/-- What relates the state to a monitor `g` of the labels, and every step keeps, holds at the end of
a run. -/
theorem run_foldl {τ : Type} {g : τ → ℓ → τ} {R : σ → τ → Prop}
    (hstep : ∀ s t l s', R s t → S.step s l = some s' → R s' (g t l)) {ls : List ℓ} {t : τ}
    (hR : R s t) (h : S.run s ls = some s') : R s' (ls.foldl g t) := by
  induction ls generalizing s t with
  | nil => simp only [run_nil, Option.some.injEq] at h; exact h ▸ hR
  | cons l ls ih =>
    obtain ⟨u, hu, h⟩ := run_cons_eq_some.mp h
    exact ih (hstep s t l u hR hu) h

/-- What relates the state to the number of the steps with `p` so far, and every step keeps, holds
at the end of a guarded run. -/
theorem Reach.run_tally {p : σ → ℓ → Bool} {R : σ → Nat → Prop}
    (hstep : ∀ s n l s', S.Reach ok s → R s n → ok s l → S.step s l = some s' →
      R s' (n + if p s l then 1 else 0)) {ls : List ℓ} {n : Nat} (hr : S.Reach ok s) (hR : R s n)
    (hg : S.Guarded ok s ls) (h : S.run s ls = some s') : R s' (n + S.tally p s ls) := by
  induction ls generalizing s n with
  | nil => simp only [run_nil, Option.some.injEq] at h; exact h ▸ hR
  | cons l ls ih =>
    obtain ⟨t, ht, h⟩ := run_cons_eq_some.mp h
    have := ih (.step hr hg.1 ht) (hstep s n l t hr hR hg.1 ht) (hg.2 t ht) h
    rwa [tally, ht, Option.elim_some, ← Nat.add_assoc]

/-- In a run every label is a step. -/
theorem tally_of_run {p : ℓ → Bool} {ls : List ℓ} (h : S.run s ls = some s') :
    S.tally (fun _ => p) s ls = ls.countP p := by
  induction ls generalizing s with
  | nil => rfl
  | cons l ls ih =>
    obtain ⟨t, ht, h⟩ := run_cons_eq_some.mp h
    rw [tally, ht, Option.elim_some, ih h, List.countP_cons, Nat.add_comm]

/-- The same for the number of the labels with `p`. -/
theorem Reach.run_countP {p : ℓ → Bool} {R : σ → Nat → Prop}
    (hstep : ∀ s n l s', S.Reach ok s → R s n → ok s l → S.step s l = some s' →
      R s' (n + if p l then 1 else 0)) {ls : List ℓ} {n : Nat} (hr : S.Reach ok s) (hR : R s n)
    (hg : S.Guarded ok s ls) (h : S.run s ls = some s') : R s' (n + ls.countP p) := by
  rw [← tally_of_run h]
  exact hr.run_tally (p := fun _ => p) hstep hR hg h

/-- A monitor `g` reads the labels of a run. If it stays related to the state, and if `P` after a
step is the same as `Q` of the monitor while both have held so far, then `P` holds of all states of
the run if and only if `Q` holds of all states of the monitor. -/
theorem monitor_iff {τ : Type} {g : τ → ℓ → τ} {R : σ → τ → Prop} {P : σ → Prop} {Q : τ → Prop}
    (hstep : ∀ s t l s', S.Reach ok s → R s t → ok s l → S.step s l = some s' →
      R s' (g t l) ∧ (P s → Q t → (P s' ↔ Q (g t l))))
    {ls : List ℓ} {t : τ} (hr : S.Reach ok s) (hR : R s t) (hP : P s) (hQ : Q t)
    (hg : S.Guarded ok s ls) (hrun : S.run s ls = some s') :
    (∀ ls₁ s₁, ls₁ <+: ls → S.run s ls₁ = some s₁ → P s₁) ↔
      ∀ ls₁, ls₁ <+: ls → Q (ls₁.foldl g t) := by
  induction ls generalizing s t with
  | nil =>
    refine ⟨fun _ ls₁ h => ?_, fun _ ls₁ s₁ h h₁ => ?_⟩ <;> obtain rfl := List.prefix_nil.mp h
    · exact hQ
    · cases h₁; exact hP
  | cons l ls ih =>
    obtain ⟨u, hu, hrun⟩ := run_cons_eq_some.mp hrun
    obtain ⟨hR', hiff⟩ := hstep s t l u hr hR hg.1 hu
    have hrec := fun h h' => ih (.step hr hg.1 hu) hR' h h' (hg.2 u hu) hrun
    have hcons : ∀ {ls₁ s₁}, S.run u ls₁ = some s₁ → S.run s (l :: ls₁) = some s₁ :=
      fun h => by rw [run_cons, hu]; exact h
    constructor
    · intro h ls₁ hpre
      rcases List.prefix_cons_iff.mp hpre with rfl | ⟨ls₂, rfl, hpre₂⟩
      · exact hQ
      have hP' : P u := h [l] u (by simp) (hcons rfl)
      refine (hrec hP' ((hiff hP hQ).mp hP')).mp (fun ls₃ s₃ h₃ hs₃ => ?_) ls₂ hpre₂
      exact h (l :: ls₃) s₃ (List.cons_prefix_cons.mpr ⟨rfl, h₃⟩) (hcons hs₃)
    · intro h ls₁ s₁ hpre hs₁
      rcases List.prefix_cons_iff.mp hpre with rfl | ⟨ls₂, rfl, hpre₂⟩
      · cases hs₁; exact hP
      have hQ' : Q (g t l) := h [l] (by simp)
      rw [run_cons, hu] at hs₁
      refine (hrec ((hiff hP hQ).mpr hQ') hQ').mpr (fun ls₃ h₃ => ?_) ls₂ s₁ hpre₂ hs₁
      exact h (l :: ls₃) (List.cons_prefix_cons.mpr ⟨rfl, h₃⟩)

end System

/-- `f` maps the initial states of `S` to states that `T` reaches, and each guarded step of `S` to
no step or to one step of `T`. -/
structure Simulates {σ ℓ τ m : Type} (S : System σ ℓ) (ok : σ → ℓ → Prop) (T : System τ m)
    (f : σ → τ) : Prop where
  init : ∀ s, S.init s → T.Reach System.free (f s)
  step : ∀ s l s', S.Reach ok s → ok s l → S.step s l = some s' →
    f s' = f s ∨ ∃ k, T.step (f s) k = some (f s')

/-- What holds of every state of the larger system holds of the states that the runs of `S` are
mapped to. -/
theorem Simulates.invariant {σ ℓ τ m : Type} {S : System σ ℓ} {ok : σ → ℓ → Prop}
    {T : System τ m} {f : σ → τ} {P : τ → Prop} (h : Simulates S ok T f)
    (hP : T.Invariant System.free P) : S.Invariant ok fun s => P (f s) := by
  have hr : S.Invariant ok fun s => T.Reach System.free (f s) := by
    refine System.Reach.induct h.init fun s l s' hs ih hok hst => ?_
    rcases h.step s l s' hs hok hst with e | ⟨k, hk⟩
    · rw [e]; exact ih
    · exact .step ih trivial hk
  exact fun s hs => hP _ (hr s hs)

/-- `f` maps the runs of `S` to guarded runs of `T`: a step whose label `g` leaves out does not
change the state of `T`, and every other one is the step of `T` that `g` gives. -/
structure Refines {σ ℓ τ m : Type} (S : System σ ℓ) (ok : σ → ℓ → Prop) (T : System τ m)
    (ok' : τ → m → Prop) (f : σ → τ) (g : ℓ → Option m) : Prop where
  init : ∀ s, S.init s → T.init (f s)
  stutter : ∀ s l s', S.Reach ok s → ok s l → S.step s l = some s' → g l = none → f s' = f s
  step : ∀ s l s' k, S.Reach ok s → ok s l → S.step s l = some s' → g l = some k →
    ok' (f s) k ∧ T.step (f s) k = some (f s')

/-- A run of `S` is a run of `T` with the labels that `g` gives. -/
theorem Refines.run {σ ℓ τ m : Type} {S : System σ ℓ} {ok : σ → ℓ → Prop} {T : System τ m}
    {ok' : τ → m → Prop} {f : σ → τ} {g : ℓ → Option m} (h : Refines S ok T ok' f g) {s s' : σ}
    {ls : List ℓ} (hr : S.Reach ok s) (hg : S.Guarded ok s ls) (hrun : S.run s ls = some s') :
    T.Guarded ok' (f s) (ls.filterMap g) ∧ T.run (f s) (ls.filterMap g) = some (f s') := by
  induction ls generalizing s with
  | nil => cases hrun; exact ⟨trivial, rfl⟩
  | cons l ls ih =>
    obtain ⟨u, hu, hrun⟩ := System.run_cons_eq_some.mp hrun
    have hrest := ih (.step hr hg.1 hu) (hg.2 u hu) hrun
    cases hk : g l with
    | none =>
      rw [List.filterMap_cons_none hk, ← h.stutter s l u hr hg.1 hu hk]
      exact hrest
    | some k =>
      obtain ⟨hok, hst⟩ := h.step s l u k hr hg.1 hu hk
      rw [List.filterMap_cons_some hk]
      refine ⟨⟨hok, fun t ht => ?_⟩, ?_⟩
      · rw [hst] at ht; cases ht; exact hrest.1
      · rw [System.run_cons, hst]; exact hrest.2

end Lts
