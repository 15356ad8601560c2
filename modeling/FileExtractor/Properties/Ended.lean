import FileExtractor.Worker.Execution

/-!
# A run that has ended does not leave its task `RUNNING`

One call of `_run` raises, at any point, and all other calls succeed. Then the run ends in one of
its four last writes, except in two cases. The copy has been completed and the write that should
store it has no effect: `fail` raises on the `SUCCESS` copy, so nothing more is written. Or a 403
ends beyond the last time of `datetime`: `block` raises after it has set the status, and `fail`
raises on the `BLOCKED` copy (`Concludes`). Up to its end a run keeps `Execution.Going`.
-/

namespace FileExtractor

open Lts

namespace Execution

/-- At most one call of `_run` raises, and none of the cleanup and of `_fail_task` after it. -/
def OneFailure (e : Execution) (ev : Event) : Prop :=
  ev.reply.failed = true → e.handler ≠ .getTask ∧ ∀ p ∈ e.calls, p.2.failed = false

/-- The write of the completed copy takes effect, and each block has an end. -/
def Concludes (e : Execution) (ev : Event) : Prop :=
  (∀ f x, e.handler = .storeSuccess f → ev.reply ≠ .refused x) ∧ BlockFits e ev

/-- A run with at most one exception, up to its end. -/
structure Going (c : String) (e : Execution) : Prop where
  sound : Sound c e
  failed : e.handler.isEnded = false → e.handler.recovering = true →
    ∃ p ∈ e.calls, p.2.failed = true
  ended : e.handler.isEnded = true → ∃ s, e.stored = some s ∧ s.status ≠ .running

/-- The run has ended and left its task `RUNNING`. -/
def LeftRunning (e : Execution) : Prop :=
  e.handler.isEnded = true ∧ ∃ s, e.stored = some s ∧ s.status = .running

variable {sha256 : Bytes → Digest} {e e' : Execution} {ev : Event} {c : String}

/-- A run that handles an exception has no further one. -/
theorem Going.not_failed (h : Going c e) (hok : OneFailure e ev)
    (hst : (executions sha256).step e ev = some e') (hr : e.handler.recovering = true) :
    ev.reply.failed = false := by
  cases hf : ev.reply.failed with
  | false => rfl
  | true =>
    obtain ⟨p, hp, hpf⟩ := h.failed (not_ended hst) hr
    rw [(hok hf).2 p hp] at hpf
    cases hpf

/-- The run does not end with its first call. -/
theorem Going.begun (h : Going c e) (hok : OneFailure e ev)
    (hst : (executions sha256).step e ev = some e') (hk : e.handler = .getTask) :
    e'.handler.isEnded ≠ true := by
  cases hf : ev.reply.failed with
  | true => exact absurd hk (hok hf).1
  | false =>
    obtain ⟨a, ha⟩ := Reply.of_not_failed hf
    have hans := h.sound.answered hst ha
    obtain ⟨s, hs, -⟩ := h.sound.row (not_ended hst)
    generalize hh' : e'.handler = h' at hans ⊢
    rw [hk] at hans
    cases hans with
    | started t => nofun
    | absent =>
      obtain ⟨-, hts, -⟩ := h.sound.reads hst ha
      rw [hs] at hts; cases hts
    | closed f h hh => simp at hh

theorem Going.step (h : Going c e) (hok : OneFailure e ev) (hc : Concludes e ev)
    (hst : (executions sha256).step e ev = some e') : Going c e' := by
  have hne := not_ended hst
  refine ⟨h.sound.step hst, fun _ hr => ?_, fun he => ?_⟩
  · obtain ⟨c', -, hcalls⟩ := calls_step hst
    rw [hcalls]
    cases hf : ev.reply.failed with
    | true => exact ⟨(c', ev.reply), by simp, hf⟩
    | false =>
      obtain ⟨a, ha⟩ := Reply.of_not_failed hf
      obtain ⟨p, hp, hpf⟩ := h.failed hne ((h.sound.answered hst ha).recovering hr)
      exact ⟨p, List.mem_append_left _ hp, hpf⟩
  · rcases h.sound.ended hst he with hk | ⟨f, hh⟩ | ⟨r, hb, hlt, hu⟩
    · exact absurd he (h.begun hok hst hk)
    · obtain ⟨-, hcall, hstatus⟩ := h.sound.ends hst hh
      refine ⟨f.task, h.sound.written hst hcall fun x hx => ?_, hstatus⟩
      rcases hh with hk | hk | hk
      · have := h.not_failed hok hst (by rw [hk]; rfl)
        rw [hx] at this; cases this
      · exact hc.1 f x hk hx
      · have := h.not_failed hok hst (by rw [hk]; rfl)
        rw [hx] at this; cases this
    · have := hc.2 r hb hlt
      rw [hu] at this
      cases this

/-- The two cases that are left. -/
theorem Going.trapped (h : Going c e) (hst : (executions sha256).step e ev = some e')
    (hc : ¬ Concludes e ev) : LeftRunning e' := by
  have hrunning := h.sound.row (not_ended hst)
  by_cases hs : ∃ f x, e.handler = .storeSuccess f ∧ ev.reply = .refused x
  · obtain ⟨f, x, hk, hx⟩ := hs
    exact ⟨(h.sound.ends hst (.inr (.inl hk))).1, by rw [stored_refused hst hx]; exact hrunning⟩
  · have hfits : ¬ BlockFits e ev := fun hfits => hc ⟨fun f x hk hx => hs ⟨f, x, hk, hx⟩, hfits⟩
    obtain ⟨r, hb, hlt, hu⟩ : ∃ r, e.handler.blockOf ev.reply.seen = some r ∧ 60 < r ∧
        addSeconds (e.now + ev.elapsed) r = none := by
      simpa [BlockFits] using hfits
    obtain ⟨f, hf⟩ := Handler.blockOf_frame hb
    refine ⟨?_, h.sound.stays_running hst hf⟩
    obtain ⟨f', hE⟩ := h.sound.blocked hst hb
    generalize e'.handler = h' at hE ⊢
    cases hE with
    | failed e he => exact absurd (he r rfl) (by omega)
    | blocked r u hr hu' => rw [hu] at hu'; cases hu'
    | overflow r e' hr hu' => rfl

/-- **A run with one exception** ends with a task that is not `RUNNING` exactly when the exception
was not the write of the completed copy and no block overflows. -/
theorem ended_not_running_iff (sha256 : Bytes → Digest) (command : ProcessFilesCommand) (now : Time)
    (store : Store) (s : DownloadTask) (hs : store.tasks.getById command.taskId = some s)
    (hr : s.status = .running) (evs : List Event) (e : Execution)
    (hg : (executions sha256).Guarded OneFailure (start command now store) evs)
    (hrun : (executions sha256).run (start command now store) evs = some e)
    (he : e.handler.isEnded = true) :
    (∀ s, e.stored = some s → s.status ≠ .running) ↔
      (executions sha256).Guarded Concludes (start command now store) evs := by
  have hstart : Going s.candidateId (start command now store) := by
    refine ⟨sound_start hs hr, fun _ hrec => ?_, fun he => ?_⟩
    · cases hrec
    · cases he
  rcases System.guarded_or_trapped Concludes (Going s.candidateId) LeftRunning
      (fun e ev e' h hok hst hc => h.step hok hc hst)
      (fun e ev e' h hok hst hc => h.trapped hst hc)
      (fun e ev e' hb hok hst => absurd (not_ended hst) (by rw [hb.1]; decide)) hstart hg hrun with
    ⟨hc, hgood⟩ | ⟨hc, hbad⟩
  · refine ⟨fun _ => hc, fun _ t ht => ?_⟩
    obtain ⟨t', ht', hne⟩ := hgood.ended he
    rw [ht] at ht'; cases ht'
    exact hne
  · obtain ⟨-, t, ht, hrunning⟩ := hbad
    exact ⟨fun h => absurd hrunning (h t ht), fun h => absurd h hc⟩

/-- `OneFailure`, checked. -/
def oneFailureCheck (e : Execution) (ev : Event) : Bool :=
  !ev.reply.failed || match e.handler with
    | .getTask => false
    | _ => e.calls.all fun p => !p.2.failed

theorem oneFailure_of_check (e : Execution) (ev : Event) (h : oneFailureCheck e ev = true) :
    OneFailure e ev := by
  intro hf
  rw [oneFailureCheck, hf, Bool.not_true, Bool.false_or] at h
  split at h
  · cases h
  · next hk =>
    simp only [List.all_eq_true, Bool.not_eq_true'] at h
    exact ⟨hk, h⟩

/-- A task without names succeeds; the write of that gets the reply. -/
def nameless (reply : Reply) : List Event := [taskRead, ⟨1, .done (.names [])⟩, ⟨1, reply⟩]

/-- The run of `nameless` for a write that takes effect. -/
theorem nameless_ended : ∃ e,
    (executions fun _ => 0).run (start ⟨"t", none⟩ 0 claimedStore) (nameless (.done .done)) =
      some e ∧
    ((∀ s, e.stored = some s → s.status ≠ .running) ↔
      (executions fun _ => 0).Guarded Concludes (start ⟨"t", none⟩ 0 claimedStore)
        (nameless (.done .done))) := by
  obtain ⟨hg, e, hrun, he⟩ := System.guarded_of_runIf (S := executions fun _ => 0)
    (s := start ⟨"t", none⟩ 0 claimedStore) oneFailure_of_check (nameless (.done .done))
    (fun e => e.handler.isEnded) (by decide +kernel)
  exact ⟨e, hrun, ended_not_running_iff _ _ _ _ _ rfl rfl _ e hg hrun he⟩

/-- Where the write of the completed copy is rolled back, the task stays `RUNNING`. -/
theorem nameless_left_running : ¬ ∀ (command : ProcessFilesCommand) (now : Time) (store : Store)
    (s : DownloadTask), store.tasks.getById command.taskId = some s → s.status = .running →
    ∀ (evs : List Event) (e : Execution),
      (executions fun _ => 0).Guarded OneFailure (start command now store) evs →
      (executions fun _ => 0).run (start command now store) evs = some e →
      e.handler.isEnded = true → ∀ s, e.stored = some s → s.status ≠ .running := by
  intro hclaim
  obtain ⟨hg, e, hrun, he⟩ := System.guarded_of_runIf (S := executions fun _ => 0)
    (s := start ⟨"t", none⟩ 0 claimedStore) oneFailure_of_check (nameless (.refused (.other "")))
    (fun e => e.handler.isEnded && e.stored.any fun s => s.status = .running) (by decide +kernel)
  rw [Bool.and_eq_true, Option.any_eq_true] at he
  obtain ⟨he, s, hs, hr⟩ := he
  exact hclaim _ _ _ _ rfl rfl _ e hg hrun he s hs (of_decide_eq_true hr)

end Execution

end FileExtractor
