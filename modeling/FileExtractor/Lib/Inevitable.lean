import FileExtractor.Lib.System

/-!
# What every run comes to

`Leads ok P s`: whatever steps that meet the guard are taken from `s`, a state with `P` is reached,
and until then there is always such a step. It is proved by a measure that every step decreases
(`Leads.of_measure`).

`guarded_or_trapped` reads the last state of a run: as long as every step meets a second guard the
run stays in the good states, and the first step that does not meet it traps the run in the bad
ones. So what the last state is says exactly whether all steps met the guard. `Reach.last_cause`
reads it the other way: what can be followed back over every step but its causes comes from the
last of them.
-/

namespace Lts.System

variable {σ ℓ : Type} (S : System σ ℓ)

/-- Every guarded run from `s` comes to a state with `P`. -/
inductive Leads (ok : σ → ℓ → Prop) (P : σ → Prop) : σ → Prop
  | now {s : σ} : P s → Leads ok P s
  | later {s : σ} : (∃ l s', ok s l ∧ S.step s l = some s') →
      (∀ l s', ok s l → S.step s l = some s' → Leads ok P s') → Leads ok P s

variable {S} {ok ok' : σ → ℓ → Prop} {P Q : σ → Prop} {s s' : σ}

theorem Leads.mono (h : S.Leads ok P s) (hpq : ∀ s, P s → Q s) : S.Leads ok Q s := by
  induction h with
  | now hp => exact .now (hpq _ hp)
  | later he _ ih => exact .later he ih

/-- **The measure rule.** Until `P` holds some guarded step can be taken, and each keeps `I` and
decreases the measure. -/
theorem Leads.of_measure {α : Type} {r : α → α → Prop} (hwf : WellFounded r) (m : σ → α)
    {I : σ → Prop} (hgo : ∀ s, I s → ¬ P s → ∃ l s', ok s l ∧ S.step s l = some s')
    (hstep : ∀ s l s', I s → ¬ P s → ok s l → S.step s l = some s' → I s' ∧ r (m s') (m s))
    (h : I s) : S.Leads ok P s := by
  induction hx : m s using hwf.induction generalizing s with
  | _ x ih =>
    by_cases hp : P s
    · exact .now hp
    · refine .later (hgo s h hp) fun l s' hok hst => ?_
      obtain ⟨hi, hr⟩ := hstep s l s' h hp hok hst
      exact ih _ (hx ▸ hr) hi rfl

/-- Some guarded run gets there. -/
theorem Leads.exists_run (h : S.Leads ok P s) :
    ∃ ls s', S.Guarded ok s ls ∧ S.run s ls = some s' ∧ P s' := by
  induction h with
  | now hp => exact ⟨[], _, trivial, rfl, hp⟩
  | later he _ ih =>
    obtain ⟨l, t, hok, hst⟩ := he
    obtain ⟨ls, s', hg, hrun, hp⟩ := ih l t hok hst
    refine ⟨l :: ls, s', ⟨hok, fun u hu => ?_⟩, ?_, hp⟩
    · rw [hst] at hu; cases hu; exact hg
    · rw [run_cons, hst]; exact hrun

/-- A property that every guarded step keeps holds at the end of a guarded run. -/
theorem run_keeps {I : σ → Prop} (hI : ∀ s l s', I s → ok s l → S.step s l = some s' → I s')
    {ls : List ℓ} (h : I s) (hg : S.Guarded ok s ls) (hrun : S.run s ls = some s') : I s' := by
  induction ls generalizing s with
  | nil => cases hrun; exact h
  | cons l ls ih =>
    obtain ⟨t, ht, hrun⟩ := run_cons_eq_some.mp hrun
    exact ih (hI s l t h hg.1 ht) (hg.2 t ht) hrun

/-- **The potential rule.** Every guarded step keeps `I` and does not raise the potential, and each
with `p` lowers it by `k`. -/
theorem run_potential {I : σ → Prop} {f : σ → Nat} {p : ℓ → Bool} {k : Nat}
    (hI : ∀ s l s', I s → ok s l → S.step s l = some s' →
      I s' ∧ f s' + (if p l then k else 0) ≤ f s)
    {ls : List ℓ} (h : I s) (hg : S.Guarded ok s ls) (hrun : S.run s ls = some s') :
    I s' ∧ f s' + k * ls.countP p ≤ f s := by
  induction ls generalizing s with
  | nil => cases hrun; exact ⟨h, Nat.le_refl _⟩
  | cons l ls ih =>
    obtain ⟨t, ht, hrun⟩ := run_cons_eq_some.mp hrun
    obtain ⟨hit, hle⟩ := hI s l t h hg.1 ht
    obtain ⟨his', hle'⟩ := ih hit (hg.2 t ht) hrun
    refine ⟨his', ?_⟩
    rw [List.countP_cons, Nat.mul_add]
    split at hle
    · next hp => rw [if_pos hp]; omega
    · next hp => rw [if_neg hp]; omega

/-- **The last cause.** `P` goes back over every step that is no cause, and `g` is the same on both
sides of it. So a run that ends with `P` has had it all along, or since a cause, and `g` as well. -/
theorem Reach.last_cause {β : Type} {P : σ → Prop} {cause : σ → ℓ → Prop} {g : σ → β}
    (hback : ∀ s l s', S.Reach ok s → ok s l → S.step s l = some s' → P s' → ¬ cause s l →
      P s ∧ g s' = g s)
    {ls : List ℓ} (hr : S.Reach ok s) (hg : S.Guarded ok s ls) (hrun : S.run s ls = some s')
    (h : P s') : (P s ∧ g s' = g s) ∨
      ∃ ls₁ l ls₂ u v, ls = ls₁ ++ l :: ls₂ ∧ S.run s ls₁ = some u ∧ S.step u l = some v ∧
        S.run v ls₂ = some s' ∧ cause u l ∧ P v ∧ g s' = g v := by
  induction ls generalizing s with
  | nil => cases hrun; exact .inl ⟨h, rfl⟩
  | cons l ls ih =>
    obtain ⟨t, ht, hrun⟩ := run_cons_eq_some.mp hrun
    rcases ih (.step hr hg.1 ht) (hg.2 t ht) hrun with
      ⟨hP, he⟩ | ⟨ls₁, l', ls₂, u, v, rfl, h₁, hst, h₂, hc, hP, he⟩
    · by_cases hc : cause s l
      · exact .inr ⟨[], l, ls, s, t, rfl, rfl, ht, hrun, hc, hP, he⟩
      · obtain ⟨hPs, hgs⟩ := hback s l t hr hg.1 ht hP hc
        exact .inl ⟨hPs, he.trans hgs⟩
    · have h₁' : S.run s (l :: ls₁) = some u := by rw [run_cons, ht]; exact h₁
      exact .inr ⟨l :: ls₁, l', ls₂, u, v, rfl, h₁', hst, h₂, hc, hP, he⟩

/-- **The last state tells** whether every step met the second guard. -/
theorem guarded_or_trapped (ok' : σ → ℓ → Prop) (Good Bad : σ → Prop)
    (hgood : ∀ s l s', Good s → ok s l → S.step s l = some s' → ok' s l → Good s')
    (htrap : ∀ s l s', Good s → ok s l → S.step s l = some s' → ¬ ok' s l → Bad s')
    (hbad : ∀ s l s', Bad s → ok s l → S.step s l = some s' → Bad s')
    {ls : List ℓ} (h : Good s) (hg : S.Guarded ok s ls) (hrun : S.run s ls = some s') :
    (S.Guarded ok' s ls ∧ Good s') ∨ (¬ S.Guarded ok' s ls ∧ Bad s') := by
  induction ls generalizing s with
  | nil => cases hrun; exact .inl ⟨trivial, h⟩
  | cons l ls ih =>
    obtain ⟨t, ht, hrun⟩ := run_cons_eq_some.mp hrun
    by_cases hok : ok' s l
    · rcases ih (hgood s l t h hg.1 ht hok) (hg.2 t ht) hrun with ⟨hg', hs⟩ | ⟨hg', hs⟩
      · exact .inl ⟨⟨hok, fun u hu => by rw [ht] at hu; cases hu; exact hg'⟩, hs⟩
      · exact .inr ⟨fun h => hg' (h.2 t ht), hs⟩
    · refine .inr ⟨fun h => hok h.1, ?_⟩
      exact run_keeps hbad (htrap s l t h hg.1 ht hok) (hg.2 t ht) hrun

end Lts.System
