import FileExtractor.Worker.SplitReclaim
import FileExtractor.Properties.Atomicity

/-!
# Invariants over the single statements

Where every write is in its statements, a commit of `update` and the `UPDATE` of a reclaim are the
two steps that the system does not have. `StatementInvariant` lists what has to be checked for them.

Both are steps of the system if nothing has come in between (`Undisturbed`): then a commit is the
call of `update` (`commit_of_read`), and a reclaim releases rows of the status that it has selected.
Every state of the system is reached here as well (`reach_of_system`).
-/

namespace FileExtractor

open Rel Lts World

namespace StatementWorld

variable {sha256 : Bytes → Digest} {s s' : StatementWorld}

/-! ## The rule -/

/-- `P` is kept by the steps of the system, and by the two that are not among them, in a state and
with a label that meet the guard. -/
structure StatementInvariant (sha256 : Bytes → Digest) (ok : StatementWorld → StatementLabel → Prop)
    (P : World → Prop) : Prop where
  fresh : ∀ now bucket, P (World.fresh now bucket)
  step : ∀ {w l w'}, P w → Step sha256 w l w' → P w'
  commit : ∀ {s : StatementWorld} {pid reply k t tasks handler}, P s.split.world →
    ok s (.other (.step (.call pid reply))) → s.split.world.procs pid = .handling k →
    k.handler.call k.message = some (.updateTask t) → s.split.written pid t reply = some tasks →
    k.handler.resume sha256 s.split.world.now reply.seen = some handler →
    P ((s.split.world.setTasks tasks).setProc pid (.handling { k with handler := handler }))
  update : ∀ {s : StatementWorld} {pid r ids fate}, P s.split.world → ok s (.update pid fate) →
    s.selected pid = some (r, ids) → fate ≠ .refused →
    ∀ todo, P ((s.split.world.reclaimed ids r).afterCommit pid todo fate)

/-- **The induction rule.** -/
theorem StatementInvariant.invariant {ok : StatementWorld → StatementLabel → Prop}
    {P : World → Prop} (hP : StatementInvariant sha256 ok P) :
    (statements sha256).Invariant ok fun s => P s.split.world := by
  refine System.Reach.induct ?_ fun s l s' _ hs hok hst => ?_
  · rintro s ⟨⟨⟨now, bucket, hw⟩, -⟩, -⟩
    exact hw ▸ hP.fresh now bucket
  · cases StatementStep.of_step hst with
    | other l split hl hsplit =>
      cases SplitWorld.SplitStep.of_step hsplit with
      | select pid t ht => exact hs
      | commit pid reply k t tasks handler hp hc ht hr => exact hP.commit hs hok hp hc ht hr
      | other l w hn hstep => exact hP.step hs (Step.of_step hstep)
    | subselect pid pass ids hp hsel => exact hs
    | update pid r ids fate hsel =>
      cases fate with
      | refused => exact hs
      | done => exact hP.update hs hok hsel (by simp) _
      | lost => exact hP.update hs hok hsel (by simp) _

/-! ## Nothing in between -/

/-- When the `UPDATE` of an `update` is run, the row is as its `SELECT` has read it. -/
def UpdatesUndisturbed (s : StatementWorld) : StatementLabel → Prop
  | .other (.step (.call pid reply)) => ∀ t r, s.split.world.updating pid = some t →
    s.split.read pid = some r → (∀ e, reply ≠ .refused e) →
    r = s.split.world.store.tasks.get? t.id
  | _ => True

/-- When the `UPDATE` of a reclaim is run, the selected rows still have the status that they were
selected for. -/
def ReclaimsUndisturbed (s : StatementWorld) : StatementLabel → Prop
  | .update pid fate => ∀ r ids, s.selected pid = some (r, ids) → fate ≠ .refused →
    ∀ id ∈ ids, ∀ m, s.split.world.store.tasks.get? id = some m → m.status = r.status
  | _ => True

/-- No other transaction comes between the two statements of a write. -/
def Undisturbed (s : StatementWorld) (l : StatementLabel) : Prop :=
  s.UpdatesUndisturbed l ∧ s.ReclaimsUndisturbed l

/-- **An undisturbed commit** is the call of the system. -/
theorem Undisturbed.call {pid : Pid} {reply : Reply} {k : Worker} {t : DownloadTask}
    {tasks : TaskTable} {handler : Handler}
    (hok : s.Undisturbed (.other (.step (.call pid reply))))
    (hp : s.split.world.procs pid = .handling k)
    (hc : k.handler.call k.message = some (.updateTask t))
    (ht : s.split.written pid t reply = some tasks)
    (hr : k.handler.resume sha256 s.split.world.now reply.seen = some handler) :
    Step sha256 s.split.world (.call pid reply)
      ((s.split.world.setTasks tasks).setProc pid (.handling { k with handler := handler })) :=
  Step.of_step (SplitWorld.commit_of_read (fun r hr hreply =>
    hok.1 t r (updating_eq_some.mpr ⟨k, hp, hc⟩) hr hreply) hp hc ht hr)

/-! ## Rows and copies -/

variable {J : Nat → DownloadTask → Prop}

theorem get?_run (r : Reclaim) (tasks : TaskTable) (ids : List TaskId) (id : TaskId) :
    (r.run tasks ids).get? id =
      (tasks.get? id).map fun m => if m.id ∈ ids then r.release m else m := by
  cases r with
  | stuck cutoff => exact TaskTable.get?_reclaimStuck
  | blocked now => exact TaskTable.get?_reclaimBlocked

@[simp] theorem reclaimed_tasks (w : World) (ids : List TaskId) (r : Reclaim) :
    (w.reclaimed ids r).store.tasks = r.run w.store.tasks ids := by
  cases r <;> rfl

@[simp] theorem reclaimed_now (w : World) (ids : List TaskId) (r : Reclaim) :
    (w.reclaimed ids r).now = w.now := by
  cases r <;> rfl

/-- A reclaim leaves the copies of the handlers. -/
theorem reclaimed_handling {w : World} {ids : List TaskId} {r : Reclaim} {pid pid' : Pid}
    {todo : List Message} {fate : Fate} {k' : Worker}
    (h : ((w.reclaimed ids r).afterCommit pid todo fate).procs pid' = .handling k') :
    ∃ k, w.procs pid' = .handling k ∧ k'.handler = k.handler := by
  rw [afterCommit_procs] at h
  split at h
  · exact absurd h Proc.sendAll_ne_handling
  · cases r with
    | stuck cutoff =>
      obtain ⟨k, hp, rfl⟩ := Proc.release_handling h
      exact ⟨k, hp, rfl⟩
    | blocked now => exact ⟨k', h, rfl⟩

/-- **The `UPDATE` of a reclaim** keeps what the release of each selected row keeps. -/
theorem tasksHold_reclaimed {w : World} {ids : List TaskId} {r : Reclaim} {pid : Pid}
    {todo : List Message} {fate : Fate} (hw : w.TasksHold J)
    (hrelease : ∀ id ∈ ids, ∀ m, w.store.tasks.get? id = some m → J 0 m.toDomain →
      J 0 (r.release m).toDomain) :
    ((w.reclaimed ids r).afterCommit pid todo fate).TasksHold J := by
  refine ⟨fun {id m'} hm => ?_, fun {pid' k'} hk => ?_⟩
  · change (w.reclaimed ids r).store.tasks.get? id = some m' at hm
    rw [reclaimed_tasks, get?_run] at hm
    obtain ⟨m, hrow, rfl⟩ := Option.map_eq_some_iff.mp hm
    split
    · next hid => exact hrelease id ((Table.get?_eq_some.mp hrow).2 ▸ hid) m hrow (hw.rows hrow)
    · exact hw.rows hrow
  · obtain ⟨k, hp, hk⟩ := reclaimed_handling hk
    exact hk ▸ hw.copies hp

/-- The rows after a commit: nothing was written, or the row of the task is flushed. -/
theorem written_row {pid : Pid} {t : DownloadTask} {reply : Reply} {tasks : TaskTable}
    (ht : s.split.written pid t reply = some tasks) {id : TaskId} {m' : DownloadTaskModel}
    (hm : tasks.get? id = some m') : s.split.world.store.tasks.get? id = some m' ∨
      ∃ r m, (∀ e, reply ≠ .refused e) ∧ s.split.read pid = some (some r) ∧
        s.split.world.store.tasks.get? t.id = some m ∧ m' = r.flush t m := by
  have hflush : (∀ e, reply ≠ .refused e) →
      (s.split.read pid).map (fun r => s.split.world.store.tasks.flush r t) = some tasks →
      s.split.world.store.tasks.get? id = some m' ∨
        ∃ r m, (∀ e, reply ≠ .refused e) ∧ s.split.read pid = some (some r) ∧
          s.split.world.store.tasks.get? t.id = some m ∧ m' = r.flush t m := by
    intro hreply ht
    obtain ⟨r, hread, rfl⟩ := Option.map_eq_some_iff.mp ht
    cases r with
    | none => exact .inl hm
    | some r =>
      simp only [TaskTable.flush, Table.get?_modify, decide_eq_true_eq] at hm
      obtain ⟨m, hrow, rfl⟩ := Option.map_eq_some_iff.mp hm
      split
      · next hid =>
        have hkey := (Table.get?_eq_some.mp hrow).2
        exact .inr ⟨r, m, hreply, hread, by rw [← hid, hkey]; exact hrow, rfl⟩
      · exact .inl hrow
  cases reply with
  | refused e => cases ht; exact .inl hm
  | done a => exact hflush (by simp) ht
  | lost e => exact hflush (by simp) ht

/-- **The commit of `update`** keeps what the flush of its row keeps. -/
theorem tasksHold_commit (hJ : CopyInvariant J) (hw : s.split.world.TasksHold J) {pid : Pid}
    {reply : Reply} {k : Worker} {t : DownloadTask} {tasks : TaskTable} {handler : Handler}
    (hp : s.split.world.procs pid = .handling k)
    (hc : k.handler.call k.message = some (.updateTask t))
    (ht : s.split.written pid t reply = some tasks)
    (hr : k.handler.resume sha256 s.split.world.now reply.seen = some handler)
    (hflush : ∀ r m, (∀ e, reply ≠ .refused e) → s.split.read pid = some (some r) →
      s.split.world.store.tasks.get? t.id = some m → J 0 t → J 0 (r.flush t m).toDomain) :
    ((s.split.world.setTasks tasks).setProc pid
      (.handling { k with handler := handler })).TasksHold J := by
  refine ⟨fun {id m'} hm => ?_, fun {pid' k'} hk => ?_⟩
  · rcases written_row ht hm with hrow | ⟨r, m, hreply, hread, hrow, rfl⟩
    · exact hw.rows hrow
    · exact hflush r m hreply hread hrow ((hw.copies hp).stored hJ hc).1
  · rw [setProc_procs] at hk
    split at hk
    · cases hk
      refine (hw.copies hp).resume hJ (fun t' ht' => ?_) _ hr
      -- the answer to a write is no task
      have hget := Handler.resume_task (ht' ▸ hr)
      rw [hget] at hc; cases hc
    · exact hw.copies hk

/-! ## The runs of the system -/

/-- A step that is a statement by itself. -/
theorem step_settled {w w' : World} {l : Label} (hl : (settled w).admits (.step l) = true)
    (hn : ∀ pid reply, l = .call pid reply → w.updating pid = none)
    (h : w.step sha256 l = some w') :
    (statements sha256).step (settled w) (.other (.step l)) = some (settled w') := by
  have hsplit : (SplitWorld.split sha256).step (settled w).split (.step l) =
      some (settled w').split := by
    have hother : (settled w).split.other sha256 l = some (settled w').split := by
      refine Option.map_eq_some_iff.mpr ⟨w', h, ?_⟩
      cases l with
      | crash pid => simp [settled, SplitWorld.readAfter]
      | _ => rfl
    cases l with
    | call pid reply =>
      simp only [SplitWorld.split, SplitWorld.step]
      rw [show (settled w).split.world.updating pid = none from hn pid reply rfl]
      exact hother
    | _ => exact hother
  have hselected : (settled w).selectedAfter (.step l) = fun _ => none := by
    cases l with
    | crash pid => exact Function.update_eq_self_iff.mpr rfl
    | _ => rfl
  simp only [statements, step, hl, if_true, hsplit, hselected, Option.map_some]
  rfl

/-- The two statements of an `update`, one right behind the other. -/
theorem run_settled_update {w w' : World} {pid : Pid} {reply : Reply} {t : DownloadTask}
    (ht : w.updating pid = some t) (h : w.step sha256 (.call pid reply) = some w') :
    (statements sha256).run (settled w) [.other (.select pid), .other (.step (.call pid reply))] =
      some (settled w') := by
  obtain ⟨k, hp, hc⟩ := updating_eq_some.mp ht
  obtain ⟨c, handler, hc', hs, hr, hw'⟩ := (Step.of_step h).called hp
  rw [hc] at hc'; cases hc'
  generalize w'.store = store at hs hw'
  subst hw'
  let read : Pid → Option (Option DownloadTaskModel) :=
    Function.update (fun _ => none) pid (some (w.store.tasks.get? t.id))
  have hread : read pid = some (w.store.tasks.get? t.id) := Function.update_self ..
  have hback : Function.update read pid none = fun _ => none := by
    rw [Function.update_idem, Function.update_eq_self_iff]
  have hwritten : (SplitWorld.mk w read).written pid t reply = some store.tasks ∧
      store = { w.store with tasks := store.tasks } := by
    cases reply with
    | refused e => cases hs; exact ⟨rfl, rfl⟩
    | done a => cases hs; exact ⟨by simp [SplitWorld.written, hread], rfl⟩
    | lost e => cases hs; exact ⟨by simp [SplitWorld.written, hread], rfl⟩
  have hselect : (SplitWorld.split sha256).step (settled w).split (.select pid) =
      some ⟨w, read⟩ := by
    simp [SplitWorld.split, SplitWorld.step, SplitWorld.select, settled, ht, read]
  have hcommit : (SplitWorld.split sha256).step ⟨w, read⟩ (.step (.call pid reply)) =
      some ⟨{ w with store := store }.setProc pid (.handling { k with handler := handler }),
        fun _ => none⟩ := by
    rw [hwritten.2]
    simp [SplitWorld.split, SplitWorld.step, SplitWorld.commit, ht, hp, hwritten.1, hr, hback,
      World.setTasks]
  simp only [System.run_cons, statements, step, admits, settled, selectedAfter, if_true]
  rw [show (SplitWorld.split sha256).step ⟨w, fun _ => none⟩ (.select pid) = _ from hselect]
  simp only [Option.map_some, Option.bind_some, hcommit, System.run_nil]

/-- **Every state of the system is reached**: each statement of a transaction right behind the one
before. -/
theorem reach_of_system {w : World} (hw : (system sha256).Reach System.free w) :
    (statements sha256).Reach System.free (settled w) := by
  induction hw with
  | init h => exact .init ⟨⟨h, rfl⟩, rfl⟩
  | @step w w' l hw _ hst ih =>
    have alone : ∀ l', l = l' → (settled w).admits (.step l') = true →
        (∀ pid reply, l' = .call pid reply → w.updating pid = none) →
        (statements sha256).Reach System.free (settled w') := by
      rintro _ rfl hl hn
      exact .step ih trivial (step_settled hl hn hst)
    cases l with
    | reclaimStuck pid ids fate =>
      exact ih.run System.guarded_free (reclaim_at_once rfl .stuck hst)
    | reclaimBlocked pid ids fate =>
      exact ih.run System.guarded_free (reclaim_at_once rfl .blocked hst)
    | call pid reply =>
      cases ht : w.updating pid with
      | some t => exact ih.run System.guarded_free (run_settled_update ht hst)
      | none => exact alone _ rfl rfl fun pid' reply' e => by cases e; exact ht
    | _ => exact alone _ rfl rfl fun pid' reply' e => by cases e

end StatementWorld

namespace RowInvariant

variable {J : Nat → DownloadTask → Prop}

/-- The release of a row that still has the status that it was selected for. -/
theorem release (hJ : RowInvariant J) (r : Reclaim) {m : DownloadTaskModel}
    (hs : m.status = r.status) (hj : J 0 m.toDomain) : J 0 (r.release m).toDomain := by
  cases r with
  | stuck cutoff => exact hJ.releasedStuck hs hj
  | blocked now => exact hJ.releasedBlocked hs hj

/-- **What the system keeps of its rows and copies**, undisturbed statements keep. -/
theorem statements (hJ : RowInvariant J) (sha256 : Bytes → Digest) :
    StatementWorld.StatementInvariant sha256 StatementWorld.Undisturbed (World.TasksHold J) where
  fresh := tasksHold_fresh
  step hw h := hJ.step hw h
  commit hw hok hp hc ht hr := hJ.step hw (StatementWorld.Undisturbed.call hok hp hc ht hr)
  update {_ _ r ids _} hw hok hsel hf _ :=
    StatementWorld.tasksHold_reclaimed hw fun id hid m hm hj =>
      hJ.release r (hok.2 r ids hsel hf id hid m hm) hj

end RowInvariant

end FileExtractor
