import FileExtractor.Worker.SplitUpdate
import FileExtractor.Properties.Exclusion

/-!
# The two statements of `update` are as one

Between the two statements of an `update` the row of a live handler is written by nobody else, as
long as `reclaim_stuck` takes only tasks of ended handlers (`Exclusive.row_kept`). So the row that
the `UPDATE` finds is the one that was read (`Current`), the columns that it leaves have the values
of the copy, and the two statements together are the step of the system. What is proved of the
guarded runs of the system is so proved of the system with the two statements.

Without the guard a reclaim may come in between, and the `UPDATE` leaves its `PENDING` alone, where
the one step would have written `RUNNING` over it.
-/

namespace FileExtractor

open Rel Lts World DownloadTaskModel

variable {sha256 : Bytes → Digest}

/-! ## The columns -/

@[simp] theorem setChanged_self {α : Type} [DecidableEq α] (read new : α) :
    setChanged read new read = new := by
  unfold setChanged
  split
  · next h => exact h.symm
  · rfl

/-- On the row that was read, the columns that differ are as good as all of them. -/
@[simp] theorem DownloadTaskModel.flush_self (r : DownloadTaskModel) (t : DownloadTask) :
    r.flush t r = r.assign t := by
  simp [flush, assign]

/-- **On the row that was read, the commit is the whole `update`.** -/
@[simp] theorem TaskTable.flush_current (tasks : TaskTable) (t : DownloadTask) :
    tasks.flush (tasks.get? t.id) t = tasks.update t := by
  cases hr : tasks.get? t.id with
  | none =>
    -- no row has the id, so that `update` writes none either
    have hid := Table.get?_eq_none.mp hr
    have hself : tasks = tasks.modify (fun m => m.id = t.id) id fun _ => rfl := by
      ext1
      simp [Table.modify]
    refine hself.trans (Table.modify_congr (fun _ => rfl) (assign_id t) fun m hm hp => ?_)
    exact absurd (of_decide_eq_true hp) (hid m hm)
  | some r =>
    obtain ⟨hmem, hid⟩ := Table.get?_eq_some.mp hr
    have hrow : ∀ m ∈ tasks, decide (m.id = t.id) = true → r.flush t m = m.assign t := by
      intro m hm hp
      obtain rfl : m = r := Table.eq_of_key hm hmem ((of_decide_eq_true hp).trans hid.symm)
      exact DownloadTaskModel.flush_self m t
    exact Table.modify_congr (r.flush_id t) (assign_id t) hrow

namespace World

variable {w w' : World} {l : Label} {pid : Pid} {k : Worker} {t : DownloadTask}

theorem updating_eq_some : w.updating pid = some t ↔
    ∃ k, w.procs pid = .handling k ∧ k.handler.call k.message = some (.updateTask t) := by
  unfold updating
  cases hp : w.procs pid with
  | handling k =>
    simp only [Proc.handling.injEq, exists_eq_left']
    split
    · next t' hc => simp [hc]
    · next hc => simpa using hc t
  | _ => simp

/-- **The row of a live handler** is written by this handler alone. -/
theorem Exclusive.row_kept (hw : w.Exclusive) (hid : w.CopiesOfMessage) (hok : ReclaimsEnded w l)
    (h : Step sha256 w l w') (hk : w.Live pid k) (hl : ∀ reply, l ≠ .call pid reply) :
    w'.store.tasks.get? k.message.taskId = w.store.tasks.get? k.message.taskId := by
  obtain ⟨m, hm, ho⟩ := hw.owns hk
  obtain ⟨m', hm'⟩ := h.row_persists hm
  have hr := h.rowStep hm'
  rw [hm] at hr
  rw [hm, hm']
  cases hr with
  | kept _ hn => rfl
  | claimed _ pid' msg workerId fate hl' hf hp hmsg hs hn => rw [ho.running] at hs; cases hs
  | written _ pid' reply k' t hl' hp hc ht hn =>
    obtain ⟨ht', -⟩ := hw.written (hid pid' k' hp) (ht ▸ hm) hp hc
    have : pid' = pid := hw.unique (live_of_call hp hc) hk (ht'.trans ht)
    exact absurd hl' (this ▸ hl reply)
  | releasedStuck _ pid' ids fate hl' hf hmem hs hn =>
    subst hl'
    have := hok pid k hk.handling hmem
    rw [hk.2] at this; cases this
  | releasedBlocked _ pid' ids fate hl' hf hmem hs hn =>
    simp [DownloadTaskModel.isReleasable, ho.running] at hs

end World

/-! ## The refinement -/

namespace SplitWorld

variable {s s' : SplitWorld} {l : SplitLabel}

/-- The guard of the steps of the system. -/
def TakesEnded (s : SplitWorld) : SplitLabel → Prop
  | .select _ => True
  | .step l => ReclaimsEnded s.world l

/-- What a step does. -/
inductive SplitStep (sha256 : Bytes → Digest) (s : SplitWorld) :
    SplitLabel → SplitWorld → Prop where
  | select (pid : Pid) (t : DownloadTask) (ht : s.world.updating pid = some t) :
      SplitStep sha256 s (.select pid) { s with
        read := Function.update s.read pid (some (s.world.store.tasks.get? t.id)) }
  | commit (pid : Pid) (reply : Reply) (k : Worker) (t : DownloadTask) (tasks : TaskTable)
      (handler : Handler) (hp : s.world.procs pid = .handling k)
      (hc : k.handler.call k.message = some (.updateTask t))
      (ht : s.written pid t reply = some tasks)
      (hr : k.handler.resume sha256 s.world.now reply.seen = some handler) :
      SplitStep sha256 s (.step (.call pid reply)) {
        world := (s.world.setTasks tasks).setProc pid (.handling { k with handler := handler })
        read := Function.update s.read pid none }
  | other (l : Label) (w : World) (hn : ∀ pid reply, l = .call pid reply →
        s.world.updating pid = none) (hst : s.world.step sha256 l = some w) :
      SplitStep sha256 s (.step l) { world := w, read := s.readAfter l }

theorem SplitStep.of_other {l : Label}
    (hn : ∀ pid reply, l = .call pid reply → s.world.updating pid = none)
    (h : s.other sha256 l = some s') : SplitStep sha256 s (.step l) s' := by
  obtain ⟨w, hw, rfl⟩ := Option.map_eq_some_iff.mp h
  exact .other l w hn hw

theorem SplitStep.of_step (h : (split sha256).step s l = some s') : SplitStep sha256 s l s' := by
  cases l with
  | select pid =>
    obtain ⟨t, ht, h⟩ := Option.bind_eq_some_iff.mp h
    split at h
    · cases h; exact .select pid t ht
    · cases h
  | step l =>
    cases l with
    | call pid reply =>
      simp only [split, step] at h
      split at h
      · next t ht =>
        obtain ⟨k, hp, hc⟩ := updating_eq_some.mp ht
        simp only [SplitWorld.commit, hp] at h
        obtain ⟨tasks, htasks, h⟩ := Option.bind_eq_some_iff.mp h
        obtain ⟨handler, hr, h⟩ := Option.bind_eq_some_iff.mp h
        cases h
        exact .commit pid reply k t tasks handler hp hc htasks hr
      · next ht => exact .of_other (fun pid' reply' e => by cases e; exact ht) h
    | _ => exact .of_other (fun pid' reply' e => by cases e) h

/-- What a process has read for its `update` is still the row. -/
def Current (s : SplitWorld) : Prop := ∀ pid r, s.read pid = some r →
  ∃ t, s.world.updating pid = some t ∧ r = s.world.store.tasks.get? t.id

/-- A call of `update` is one of the task of the message. -/
theorem taskId_of_updating {w : World} (hid : w.CopiesOfMessage) {pid : Pid} {k : Worker}
    {t : DownloadTask} (hp : w.procs pid = .handling k)
    (hc : k.handler.call k.message = some (.updateTask t)) : t.id = k.message.taskId :=
  ((hid pid k hp).stored (.identity fun id _ _ => id = k.message.taskId) hc).1

/-- **A step of another process** leaves what has been read current. -/
theorem Current.kept {w' : World} {l : Label} {pid : Pid} {t : DownloadTask}
    (hw : s.world.Exclusive) (hid : s.world.CopiesOfMessage)
    (hok : ReclaimsEnded s.world l) (h : Step sha256 s.world l w')
    (ht : s.world.updating pid = some t) (hl : ∀ reply, l ≠ .call pid reply)
    (hcrash : l ≠ .crash pid) :
    w'.updating pid = some t ∧ w'.store.tasks.get? t.id = s.world.store.tasks.get? t.id := by
  obtain ⟨k, hp, hc⟩ := updating_eq_some.mp ht
  obtain ⟨lost, hp'⟩ := h.goes_on hp (Handler.isEnded_of_call hc) hl hcrash
  refine ⟨updating_eq_some.mpr ⟨_, hp', hc⟩, ?_⟩
  rw [taskId_of_updating hid hp hc]
  exact hw.row_kept hid hok h (live_of_call hp hc) hl

/-- The commit on the row that was read is the call of the system. -/
theorem commit_of_read {pid : Pid} {reply : Reply} {k : Worker} {t : DownloadTask}
    {tasks : TaskTable} {handler : Handler}
    (h : ∀ r, s.read pid = some r → (∀ e, reply ≠ .refused e) →
      r = s.world.store.tasks.get? t.id) (hp : s.world.procs pid = .handling k)
    (hc : k.handler.call k.message = some (.updateTask t))
    (ht : s.written pid t reply = some tasks)
    (hr : k.handler.resume sha256 s.world.now reply.seen = some handler) :
    s.world.step sha256 (.call pid reply) =
      some ((s.world.setTasks tasks).setProc pid (.handling { k with handler := handler })) := by
  have hflush : ∀ r, s.read pid = some r → (∀ e, reply ≠ .refused e) →
      s.world.store.tasks.flush r t = s.world.store.tasks.update t := by
    intro r hread hreply
    rw [h r hread hreply]
    exact TaskTable.flush_current _ _
  have hserve : s.world.store.serve k.message.taskId (.updateTask t) reply =
      some { s.world.store with tasks := tasks } := by
    cases reply with
    | refused e => cases ht; rfl
    | done a =>
      obtain ⟨r, hread, rfl⟩ := Option.map_eq_some_iff.mp ht
      rw [hflush r hread (by simp)]; rfl
    | lost e =>
      obtain ⟨r, hread, rfl⟩ := Option.map_eq_some_iff.mp ht
      rw [hflush r hread (by simp)]; rfl
  simp [World.step, World.call, hp, hc, hserve, hr, World.setTasks]

/-- The commit of what is current is the call of the system. -/
theorem Current.commit {pid : Pid} {reply : Reply} {k : Worker} {t : DownloadTask}
    {tasks : TaskTable} {handler : Handler} (h : s.Current) (hp : s.world.procs pid = .handling k)
    (hc : k.handler.call k.message = some (.updateTask t))
    (ht : s.written pid t reply = some tasks)
    (hr : k.handler.resume sha256 s.world.now reply.seen = some handler) :
    s.world.step sha256 (.call pid reply) =
      some ((s.world.setTasks tasks).setProc pid (.handling { k with handler := handler })) := by
  refine commit_of_read (fun r hread _ => ?_) hp hc ht hr
  obtain ⟨t', ht', rfl⟩ := h pid r hread
  rw [updating_eq_some.mpr ⟨k, hp, hc⟩] at ht'
  cases ht'; rfl

/-- The invariant of the guarded runs, and what each of their steps is for the system. -/
theorem step_current (hr : (system sha256).Reach ReclaimsEnded s.world)
    (h : s.Current) (hok : s.TakesEnded l) (hst : (split sha256).step s l = some s') :
    s'.Current ∧ match l.label with
      | none => s'.world = s.world
      | some l => ReclaimsEnded s.world l ∧
          s.world.step sha256 l = some s'.world := by
  have hw := exclusive_invariant sha256 s.world hr
  have hid := copies_of_message sha256 s.world hr.toFree
  cases SplitStep.of_step hst with
  | select pid t ht =>
    refine ⟨fun pid' r hread => ?_, rfl⟩
    by_cases hpid : pid' = pid
    · subst hpid
      replace hread : Function.update s.read pid' (some (s.world.store.tasks.get? t.id)) pid' =
        some r := hread
      rw [Function.update_self, Option.some.injEq] at hread
      exact ⟨t, ht, hread.symm⟩
    · exact h pid' r ((Function.update_of_ne hpid ..).symm.trans hread)
  | commit pid reply k t tasks handler hp hc ht hres =>
    have hcall := h.commit hp hc ht hres
    replace hok : ReclaimsEnded s.world (.call pid reply) := hok
    refine ⟨fun pid' r hread => ?_, hok, hcall⟩
    have hpid : pid' ≠ pid := by
      rintro rfl
      cases (Function.update_self ..).symm.trans hread
    obtain ⟨t', ht', rfl⟩ := h pid' r ((Function.update_of_ne hpid ..).symm.trans hread)
    obtain ⟨hu, hrow⟩ := Current.kept hw hid hok (Step.of_step hcall) ht'
      (fun reply' e => hpid (by cases e; rfl)) (fun e => by cases e)
    exact ⟨t', hu, hrow.symm⟩
  | other l w hn hstep =>
    refine ⟨fun pid' r hread => ?_, hok, hstep⟩
    have hcrash : l ≠ .crash pid' := by
      rintro rfl
      cases (Function.update_self ..).symm.trans hread
    have hread' : s.read pid' = some r := by
      cases l with
      | crash pid =>
        have hne : pid' ≠ pid := fun e => hcrash (by rw [e])
        exact (Function.update_of_ne hne ..).symm.trans hread
      | _ => exact hread
    obtain ⟨t', ht', rfl⟩ := h pid' r hread'
    have hl : ∀ reply, l ≠ .call pid' reply := by
      rintro reply rfl
      rw [hn pid' reply rfl] at ht'; cases ht'
    obtain ⟨hu, hrow⟩ := Current.kept hw hid hok (Step.of_step hstep) ht' hl hcrash
    exact ⟨t', hu, hrow.symm⟩

/-- Every guarded run is one of the system, with what has been read current. -/
theorem current_invariant (sha256 : Bytes → Digest) :
    (split sha256).Invariant TakesEnded fun s =>
      (system sha256).Reach ReclaimsEnded s.world ∧ s.Current := by
  refine System.Reach.induct ?_ fun s l s' _ ⟨hr, h⟩ hok hst => ?_
  · rintro s ⟨hinit, hread⟩
    exact ⟨.init hinit, fun pid r hr => by rw [hread] at hr; cases hr⟩
  · obtain ⟨h', hl⟩ := step_current hr h hok hst
    refine ⟨?_, h'⟩
    cases l with
    | select pid => exact (show s'.world = s.world from hl) ▸ hr
    | step l => exact .step hr hl.1 hl.2

theorem split_refines (sha256 : Bytes → Digest) :
    Refines (split sha256) TakesEnded (system sha256) ReclaimsEnded
      SplitWorld.world SplitLabel.label where
  init s hs := hs.1
  stutter s l s' hr hok hst hl := by
    obtain ⟨hreach, h⟩ := current_invariant sha256 s hr
    have := (step_current hreach h hok hst).2
    rwa [hl] at this
  step s l s' k hr hok hst hl := by
    obtain ⟨hreach, h⟩ := current_invariant sha256 s hr
    have := (step_current hreach h hok hst).2
    rwa [hl] at this

end SplitWorld

/-- **The two statements of `update` are as one.** While `reclaim_stuck` takes only tasks of ended
handlers, and every other call of a repository is one step: every run of the system in which each
`update` is a `SELECT` and later an `UPDATE` of the columns that differ from what was read, with any
steps of the other processes in between, is a run of the system in which `update` is one step, with
the same labels and to the same state. -/
theorem updates_atomic (sha256 : Bytes → Digest) (s₀ s : SplitWorld) (ls : List SplitLabel)
    (h0 : (SplitWorld.split sha256).init s₀)
    (hg : (SplitWorld.split sha256).Guarded SplitWorld.TakesEnded s₀ ls)
    (hrun : (SplitWorld.split sha256).run s₀ ls = some s) :
    (system sha256).Guarded ReclaimsEnded s₀.world (ls.filterMap SplitLabel.label) ∧
      (system sha256).run s₀.world (ls.filterMap SplitLabel.label) = some s.world :=
  (SplitWorld.split_refines sha256).run (.init h0) hg hrun

/-- The start of a system with the two statements. -/
def SplitWorld.fresh : SplitWorld := ⟨World.fresh 0 fun _ => none, fun _ => none⟩

/-- Worker `a` has got a name, and its `update` has read the row. -/
def readForUpdate : List SplitLabel :=
  let row := (DownloadTask.new "t" "").toModel.claimed "a" 0
  [.step (.start 0 "t" none .done), .step (.send 0), .step (.deliver 1 ⟨"t", none⟩ "a"),
    .step (.claim 1 .done), .step (.call 1 (.done (.task (some row.toDomain)))),
    .step (.call 1 (.done (.names ["x"]))), .select 1]

/-- Another task is created before it commits. -/
def createdInBetween : List SplitLabel :=
  readForUpdate ++ [.step (.start 0 "u" none .done), .step (.call 1 (.done .done))]

theorem created_in_between_atomic : ∃ s,
    (SplitWorld.split fun _ => 0).run SplitWorld.fresh createdInBetween = some s ∧
    (system fun _ => 0).run (World.fresh 0 fun _ => none)
      (createdInBetween.filterMap SplitLabel.label) = some s.world := by
  obtain ⟨s, hrun, -⟩ := (Option.any_eq_true ..).mp
    (by decide +kernel : ((SplitWorld.split fun _ => 0).run SplitWorld.fresh
      createdInBetween).any (fun _ => true) = true)
  have hg : (SplitWorld.split fun _ => 0).Guarded SplitWorld.TakesEnded SplitWorld.fresh
      createdInBetween := by
    refine System.guarded_of_forall fun l hl s => ?_
    simp only [createdInBetween, readForUpdate, List.cons_append, List.nil_append, List.mem_cons,
      List.not_mem_nil, or_false] at hl
    rcases hl with rfl | rfl | rfl | rfl | rfl | rfl | rfl | rfl | rfl <;> trivial
  exact ⟨s, hrun, (updates_atomic (fun _ => 0) SplitWorld.fresh s createdInBetween
    ⟨⟨0, fun _ => none, rfl⟩, rfl⟩ hg hrun).2⟩

/-- The watchdog takes the task before it commits. -/
def reclaimedInBetween : List SplitLabel :=
  readForUpdate ++ [.step (.tick 301), .step (.reclaimStuck 2 ["t"] .done),
    .step (.call 1 (.done .done))]

/-- **Without the guard the statements may be told apart**: the `UPDATE` leaves the row `PENDING`,
and the one step makes it `RUNNING`. -/
theorem late_update_differs : ∃ s,
    (SplitWorld.split fun _ => 0).run SplitWorld.fresh reclaimedInBetween = some s ∧
    (system fun _ => 0).run (World.fresh 0 fun _ => none)
      (reclaimedInBetween.filterMap SplitLabel.label) ≠ some s.world := by
  obtain ⟨s, hrun, hs⟩ := (Option.any_eq_true ..).mp
    (by decide +kernel : ((SplitWorld.split fun _ => 0).run SplitWorld.fresh
      reclaimedInBetween).any (fun s =>
        (s.world.store.tasks.get? "t").any fun m => m.status = .pending) = true)
  refine ⟨s, hrun, fun h => ?_⟩
  have hatomic : ((system fun _ => 0).run (World.fresh 0 fun _ => none)
      (reclaimedInBetween.filterMap SplitLabel.label)).any (fun w =>
        (w.store.tasks.get? "t").any fun m => m.status = .running) = true := by decide +kernel
  rw [h] at hatomic
  cases hrow : s.world.store.tasks.get? "t" with
  | none => rw [hrow] at hs; cases hs
  | some m =>
    rw [hrow] at hs
    rw [Option.any_some, hrow] at hatomic
    simp only [Option.any_some, decide_eq_true_eq] at hs hatomic
    rw [hs] at hatomic; cases hatomic

end FileExtractor
