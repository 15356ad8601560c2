import FileExtractor.Properties.Exclusion
import Mathlib.Algebra.Order.Ring.Rat

/-!
# A blocked task rests until its time

A 403 with a long `Retry-After` suspends the task: its row is `BLOCKED` with `blocked_until`, and
its handler ends. The clock only goes forward (`Step.now_mono`), and a `BLOCKED` row is left by
`reclaim_blocked` alone (`blocked_step`). So while the watchdog takes only tasks of ended handlers,
nothing happens to the row before `blocked_until`, and no handler makes a call for the task.
-/

namespace FileExtractor

open Rel Lts World

/-- Time does not go back. -/
theorem Step.now_mono {sha256 : Bytes → Digest} {w w' : World} {l : Label}
    (h : Step sha256 w l w') : w.now ≤ w'.now := by
  cases h with
  | tick d hd => exact le_add_of_nonneg_right hd
  | _ => exact le_rfl

theorem now_mono_run {sha256 : Bytes → Digest} {w w' : World} {ls : List Label}
    (hrun : (system sha256).run w ls = some w') : w.now ≤ w'.now := by
  induction ls generalizing w with
  | nil => cases hrun; exact le_rfl
  | cons l ls ih =>
    obtain ⟨v, hst, hrun⟩ := System.run_cons_eq_some.mp hrun
    exact (Step.of_step hst).now_mono.trans (ih hrun)

namespace World

variable {sha256 : Bytes → Digest} {w w' : World} {l : Label} {id : TaskId}
  {m : DownloadTaskModel}

/-- The step is no call for the task. -/
def LeavesAlone (id : TaskId) (w : World) (l : Label) : Prop :=
  ∀ pid reply k, l = .call pid reply → w.procs pid = .handling k → k.message.taskId ≠ id

/-- **One step**: the row stays `BLOCKED` as it is, or its time has come. -/
theorem Exclusive.blocked_step (hw : w.Exclusive) (hid : w.CopiesOfMessage) (h : Step sha256 w l w')
    (hm : w.store.tasks.get? id = some m) (hs : m.status = .blocked) :
    LeavesAlone id w l ∧ (w'.store.tasks.get? id = some m ∨
      m.isReleasable w.now = true ∧ w'.store.tasks.get? id = some m.releasedBlocked) := by
  constructor
  · rintro pid reply k rfl hp rfl
    obtain ⟨c, -, hc, -⟩ := h.called hp
    exact hw.not_live hm (by rw [hs]; decide) (live_of_call hp hc)
  · obtain ⟨m', hm'⟩ := h.row_persists hm
    have hr := h.rowStep hm'
    rw [hm] at hr
    cases hr with
    | kept _ hn => exact .inl hm'
    | claimed _ pid msg workerId fate hl hf hp hmsg hs' hn => rw [hs] at hs'; cases hs'
    | written _ pid reply k t hl hp hc ht hn =>
      obtain ⟨-, ho, -⟩ := hw.written (hid pid k hp) (ht ▸ hm) hp hc
      have hrun := ho.running
      rw [hs] at hrun; cases hrun
    | releasedStuck _ pid ids fate hl hf hmem hs' hn =>
      rw [DownloadTaskModel.running_of_isStuck hs'] at hs; cases hs
    | releasedBlocked _ pid ids fate hl hf hmem hs' hn => exact .inr ⟨hs', hm'⟩

end World

/-- **A block is respected.** While `reclaim_stuck` takes only tasks of ended handlers, and each
statement of a reclaim is one step: from a reachable state in which a task is `BLOCKED` until `u`,
the row of the task stays as it is in every run up to the time `u`, and no step of the run is a call
of a handler of the task. -/
theorem block_respected (sha256 : Bytes → Digest) (id : TaskId) (m : DownloadTaskModel) (u : Time)
    (w w' : World) (ls : List Label) (hr : (system sha256).Reach ReclaimsEnded w)
    (hg : (system sha256).Guarded ReclaimsEnded w ls) (hrun : (system sha256).run w ls = some w')
    (hm : w.store.tasks.get? id = some m) (hs : m.status = .blocked) (hu : m.blockedUntil = some u)
    (hnow : w'.now ≤ u) :
    w'.store.tasks.get? id = some m ∧ (system sha256).Guarded (LeavesAlone id) w ls := by
  induction ls generalizing w with
  | nil => cases hrun; exact ⟨hm, trivial⟩
  | cons l ls ih =>
    obtain ⟨v, hst, hrun⟩ := System.run_cons_eq_some.mp hrun
    have h := Step.of_step hst
    obtain ⟨halone, hrow⟩ := (exclusive_invariant sha256 w hr).blocked_step
      (copies_of_message sha256 w hr.toFree) h hm hs
    -- before `u` the row is not releasable
    have hle : w.now ≤ u := (h.now_mono.trans (now_mono_run hrun)).trans hnow
    have hkept : v.store.tasks.get? id = some m := by
      refine hrow.resolve_right fun ⟨hrel, _⟩ => ?_
      simp only [DownloadTaskModel.isReleasable, hu, Bool.and_eq_true, Option.any_some,
        decide_eq_true_eq] at hrel
      exact absurd hrel.2 (not_lt.mpr hle)
    obtain ⟨hm', hrest⟩ := ih v (.step hr hg.1 hst) (hg.2 v hst) hrun hkept
    exact ⟨hm', halone, fun v' hv' => by rw [hst] at hv'; cases hv'; exact hrest⟩

/-- A run that ends with the task blocked for an hour. -/
def suspended : List Label :=
  let task := ((DownloadTask.new "t" "").toModel.claimed "a" 0).toDomain
  [.start 0 "t" none .done, .send 0, .deliver 1 ⟨"t", none⟩ "a", .claim 1 .done,
    .call 1 (.done (.task (some task))), .call 1 (.refused (.blocked 3600)), .call 1 (.done .done)]

/-- Ten minutes of the hour. -/
theorem suspended_block_respected : ∃ w w' m,
    (system fun _ => 0).run (fresh 0 fun _ => none) suspended = some w ∧
    (system fun _ => 0).run w [.ack 1, .tick 600] = some w' ∧
    w.store.tasks.get? "t" = some m ∧ m.status = .blocked ∧ w'.store.tasks.get? "t" = some m := by
  obtain ⟨w, h₁, hp⟩ := (Option.any_eq_true ..).mp
    (by decide +kernel : ((system fun _ => 0).run (fresh 0 fun _ => none) suspended).any (fun w =>
      (w.store.tasks.get? "t").any (fun m => m.status = .blocked && m.blockedUntil = some 3600) &&
        ((system fun _ => 0).run w [.ack 1, .tick 600]).any fun w' => w'.now ≤ 3600) = true)
  simp only [Bool.and_eq_true, Option.any_eq_true, decide_eq_true_eq] at hp
  obtain ⟨⟨m, hm, hs, hu⟩, w', h₂, hnow⟩ := hp
  have hr := System.Reach.run (S := system fun _ => 0) (.init ⟨0, _, rfl⟩)
    (guarded_of_no_reclaim (by decide)) h₁
  exact ⟨w, w', m, h₁, h₂, hm, hs, (block_respected _ "t" m 3600 w w' _ hr
    (guarded_of_no_reclaim (by decide)) h₂ hm hs hu hnow).1⟩

end FileExtractor
