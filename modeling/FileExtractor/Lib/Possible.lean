import FileExtractor.Lib.System

/-!
# What some run comes to

`Can ok P s`: some steps that meet the guard lead from `s` to a state with `P`. Such runs are put
together (`Can.trans`), and the states on the way are reachable if `s` is (`Can.reach`), so an
invariant can be used between two parts of a run.
-/

namespace Lts.System

variable {σ ℓ : Type} (S : System σ ℓ)

/-- Some guarded run from `s` comes to a state with `P`. -/
inductive Can (ok : σ → ℓ → Prop) (P : σ → Prop) : σ → Prop
  | now {s : σ} : P s → Can ok P s
  | step {s : σ} (l : ℓ) (s' : σ) : ok s l → S.step s l = some s' → Can ok P s' → Can ok P s

variable {S} {ok ok' : σ → ℓ → Prop} {P Q : σ → Prop} {s s' : σ} {l : ℓ}

/-- One run after the other. -/
theorem Can.trans (h : S.Can ok P s) (hq : ∀ s, P s → S.Can ok Q s) : S.Can ok Q s := by
  induction h with
  | now hp => exact hq _ hp
  | step l s' hok hst _ ih => exact .step l s' hok hst ih

theorem Can.mono (h : S.Can ok P s) (hq : ∀ s, P s → Q s) : S.Can ok Q s :=
  h.trans fun s hp => .now (hq s hp)

/-- The state at the end is reachable, under any guard that the steps meet. -/
theorem Can.reach (h : S.Can ok P s) (hle : ∀ s l, ok s l → ok' s l) (hr : S.Reach ok' s) :
    S.Can ok (fun s => P s ∧ S.Reach ok' s) s := by
  induction h with
  | now hp => exact .now ⟨hp, hr⟩
  | step l s' hok hst _ ih => exact .step l s' hok hst (ih (.step hr (hle _ _ hok) hst))

theorem Can.exists_run (h : S.Can ok P s) :
    ∃ ls s', S.Guarded ok s ls ∧ S.run s ls = some s' ∧ P s' := by
  induction h with
  | now hp => exact ⟨[], _, trivial, rfl, hp⟩
  | step l t hok hst _ ih =>
    obtain ⟨ls, s', hg, hrun, hp⟩ := ih
    refine ⟨l :: ls, s', ⟨hok, fun u hu => ?_⟩, ?_, hp⟩
    · rw [hst] at hu; cases hu; exact hg
    · rw [run_cons, hst]; exact hrun

end Lts.System
