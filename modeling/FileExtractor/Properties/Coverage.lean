import FileExtractor.Properties.TaskInvariant

/-!
# Pending tasks and their messages

A row that becomes `PENDING` is committed first and its message is sent after that, and nothing
looks at `PENDING` rows later: a process that stops in between leaves the row without a message
for ever (`orphaned`).

`NoMessageDropped` excludes the steps at which a message of a `PENDING` row gets lost. Under it each
`PENDING` row has a message that is still going to be claimed (`Awaited`): in the queue, in a worker
before its `claim`, or in a process that has it left to send.
-/

namespace FileExtractor

open Rel Lts World

/-- The messages of a process that are not claimed yet. -/
def Proc.awaiting : Proc → List Message
  | .sending todo => todo
  | .received m _ => [m]
  | _ => []

@[simp] theorem Proc.awaiting_sendAll (todo : List Message) :
    (Proc.sendAll todo).awaiting = todo := by
  unfold sendAll
  split
  · next h => rw [h]; rfl
  · rfl

@[simp] theorem Proc.awaiting_release (ids : List TaskId) (p : Proc) :
    (p.release ids).awaiting = p.awaiting := by
  cases p <;> rfl

namespace World

/-- A message of the task is queued or delivered and not acknowledged, or a live process is between
its commit of the row and its `send_task`. -/
def Covered (w : World) (id : TaskId) : Prop :=
  (∃ m ∈ w.queue, m.taskId = id) ∨
  (∃ pid m, (w.procs pid).message = some m ∧ m.taskId = id) ∨
  ∃ pid todo, w.procs pid = .sending todo ∧ ∃ m ∈ todo, m.taskId = id

/-- A message of the task that is still going to be claimed. -/
def Awaited (w : World) (id : TaskId) : Prop :=
  (∃ m ∈ w.queue, m.taskId = id) ∨ ∃ pid, ∃ m ∈ (w.procs pid).awaiting, m.taskId = id

theorem Awaited.covered {w : World} {id : TaskId} (h : w.Awaited id) : w.Covered id := by
  rcases h with h | ⟨pid, m, hm, rfl⟩
  · exact .inl h
  · cases hp : w.procs pid with
    | sending todo => rw [hp] at hm; exact .inr (.inr ⟨pid, todo, hp, m, hm, rfl⟩)
    | received m' workerId =>
      rw [hp] at hm
      exact .inr (.inl ⟨pid, m', by rw [hp]; rfl, by rw [List.mem_singleton.mp hm]⟩)
    | _ => rw [hp] at hm; cases hm

end World

/-- No process stops between the commit that leaves a row `PENDING` and its last `send_task` (it
does not crash there, `send_task` does not raise, and it sees the end of its own commit), and the
`claim` of a `PENDING` row does not raise. -/
def NoMessageDropped (w : World) : Label → Prop
  | .start _ _ _ fate => fate ≠ .lost
  | .reclaimStuck _ _ fate => fate ≠ .lost
  | .reclaimBlocked _ _ fate => fate ≠ .lost
  | .sendFails _ => False
  | .crash pid => ∀ todo, w.procs pid ≠ .sending todo
  | .claim pid fate => fate = .refused → ∀ m workerId row, w.procs pid = .received m workerId →
      w.store.tasks.get? m.taskId = some row → row.status ≠ .pending
  | _ => True

namespace World

variable {sha256 : Bytes → Digest} {w w' : World} {l : Label} {id : TaskId}

/-- A step that keeps the unclaimed messages. -/
theorem Awaited.mono (h : w.Awaited id) (hq : ∀ m ∈ w.queue, m.taskId = id → w'.Awaited id)
    (hp : ∀ pid, ∀ m ∈ (w.procs pid).awaiting, m.taskId = id → w'.Awaited id) : w'.Awaited id := by
  rcases h with ⟨m, hm, he⟩ | ⟨pid, m, hm, he⟩
  · exact hq m hm he
  · exact hp pid m hm he

/-- A step that changes one process, whose unclaimed messages are not lost. -/
theorem Awaited.setProc (pid : Pid) (p : Proc) {queue : List Message} (h : w.Awaited id)
    (hprocs : w'.procs = Function.update w.procs pid p) (hqueue : w'.queue = queue)
    (hq : ∀ m ∈ w.queue, m ∈ queue ∨ m ∈ p.awaiting)
    (hm : ∀ m ∈ (w.procs pid).awaiting, m.taskId = id → m ∈ queue ∨ m ∈ p.awaiting) :
    w'.Awaited id := by
  have inProc : ∀ m ∈ p.awaiting, m.taskId = id → w'.Awaited id := fun m hm he =>
    .inr ⟨pid, m, by rw [hprocs, Function.update_self]; exact hm, he⟩
  have inQueue : ∀ m ∈ queue, m.taskId = id → w'.Awaited id := fun m hm he =>
    .inl ⟨m, by rw [hqueue]; exact hm, he⟩
  refine h.mono (fun m hmem he => ?_) fun q m hmem he => ?_
  · rcases hq m hmem with h | h
    · exact inQueue m h he
    · exact inProc m h he
  · by_cases hqp : q = pid
    · subst hqp
      rcases hm m hmem he with h | h
      · exact inQueue m h he
      · exact inProc m h he
    · exact .inr ⟨q, m, by rw [hprocs, Function.update_of_ne hqp]; exact hmem, he⟩

/-- A commit of an idle process that is acknowledged. -/
theorem Awaited.afterCommit {pid : Pid} {todo : List Message} (h : w.Awaited id)
    (hi : w.procs pid = .idle) : (w.afterCommit pid todo .done).Awaited id := by
  refine h.setProc pid (.sendAll todo) rfl rfl (fun m hm => .inl hm) ?_
  rw [hi]; intro m hm; cases hm

/-- **The message of a row that stays `PENDING`.** -/
theorem Awaited.step (ha : w.Awaited id) (hok : NoMessageDropped w l) (h : Step sha256 w l w')
    {m m' : DownloadTaskModel} (hm : w.store.tasks.get? id = some m) (hs : m.status = .pending)
    (hm' : w'.store.tasks.get? id = some m') (hs' : m'.status = .pending) : w'.Awaited id := by
  cases h with
  | tick d hd => exact ha
  | refused l hl => exact ha
  | start pid taskId candidateId fate tasks hp hf ht =>
    obtain rfl : fate = .done := by cases fate <;> simp_all [NoMessageDropped]
    exact Awaited.afterCommit (w := w.setTasks tasks) ha hp
  | send pid msg todo hp =>
    refine ha.setProc pid (.sendAll todo) rfl rfl
      (fun x hx => .inl (List.mem_append_left _ hx)) fun x hx _ => ?_
    rw [hp] at hx
    rcases List.mem_cons.mp hx with rfl | hx
    · exact .inl (List.mem_append_right _ (List.mem_singleton_self _))
    · exact .inr (by rwa [Proc.awaiting_sendAll])
  | sendFails pid todo hp => exact hok.elim
  | redeliver msg hmem =>
    exact ha.mono (fun x hx he => .inl ⟨x, List.mem_append_left _ hx, he⟩)
      fun pid x hx he => .inr ⟨pid, x, hx, he⟩
  | deliver pid msg workerId hp hmem =>
    refine ha.setProc pid (.received msg workerId) rfl rfl (fun x hx => ?_) ?_
    · by_cases hxm : x = msg
      · exact .inr (hxm ▸ List.mem_singleton_self _)
      · exact .inl ((List.mem_erase_of_ne hxm).mpr hx)
    · rw [hp]; intro x hx; cases hx
  | claimFails pid msg workerId fate hp hno =>
    refine ha.setProc pid (.returned msg) rfl rfl (fun x hx => .inl hx) fun x hx he => ?_
    -- the message that is given up is not one of a pending row
    rw [hp] at hx
    obtain rfl := List.mem_singleton.mp hx
    subst he
    rcases hno with hf | hno
    · exact absurd hs (hok hf _ _ _ hp hm)
    · exact absurd hs (hno m hm)
  | claimed pid msg workerId fate row hp hf hrow hst =>
    refine ha.setProc pid _ rfl rfl (fun x hx => .inl hx) fun x hx he => ?_
    rw [hp] at hx
    obtain rfl := List.mem_singleton.mp hx
    subst he
    -- the claimed row is not pending any more
    replace hm' : (w.store.tasks.claim x.taskId workerId w.now).1.get? x.taskId = some m' := hm'
    rw [TaskTable.get?_claim, hrow] at hm'
    have hid : row.id = x.taskId := (Table.get?_eq_some.mp hrow).2
    simp only [Option.map_some, TaskTable.claimable, hid, hst, decide_true, Bool.and_self,
      if_true, Option.some.injEq] at hm'
    subst hm'
    cases hs'
  | call pid reply k c store handler hp hc hsv hr =>
    refine ha.setProc pid _ rfl rfl (fun x hx => .inl hx) ?_
    rw [hp]; intro x hx; cases hx
  | ackReturned pid msg hp =>
    refine ha.setProc pid _ rfl rfl (fun x hx => .inl hx) ?_
    rw [hp]; intro x hx; cases hx
  | ackEnded pid k hp he =>
    refine ha.setProc pid _ rfl rfl (fun x hx => .inl hx) ?_
    rw [hp]; intro x hx; cases hx
  | reclaimStuck pid ids fate hp hf hsel =>
    obtain rfl : fate = .done := by cases fate <;> simp_all [NoMessageDropped]
    refine Awaited.afterCommit (w := (w.setTasks _).release ids) ?_ ?_
    · refine ha.mono (fun x hx he => .inl ⟨x, hx, he⟩) fun q x hx he => .inr ⟨q, x, ?_, he⟩
      show x ∈ ((w.procs q).release ids).awaiting
      rwa [Proc.awaiting_release]
    · show (w.procs pid).release ids = .idle
      rw [hp]; rfl
  | reclaimBlocked pid ids fate hp hf hsel =>
    obtain rfl : fate = .done := by cases fate <;> simp_all [NoMessageDropped]
    exact Awaited.afterCommit (w := w.setTasks _) ha hp
  | crash pid =>
    refine ha.setProc pid .idle rfl rfl
      (fun x hx => .inl (List.mem_append_left _ hx)) fun x hx _ => .inl ?_
    cases hp : w.procs pid with
    | sending todo => exact absurd hp (hok todo)
    | received msg workerId =>
      rw [hp] at hx
      rw [List.mem_singleton.mp hx]
      exact List.mem_append_right _ (by simp [Proc.message])
    | _ => rw [hp] at hx; cases hx

/-- A task that a reclaim returns is among the messages to send. -/
theorem mem_requeued {tasks : TaskTable} {ids : List TaskId} {m : DownloadTaskModel}
    (hid : id ∈ ids) (hm : tasks.get? id = some m) :
    ∃ msg ∈ (tasks.returning ids).map requeueMessage, msg.taskId = id := by
  refine ⟨requeueMessage m.toDomain, List.mem_map_of_mem (List.mem_filterMap.mpr ⟨id, hid, ?_⟩),
    (Table.get?_eq_some.mp hm).2⟩
  simp [TaskTable.getById, hm]

/-- A row that becomes `PENDING` gets its message to send. -/
theorem awaited_of_commit {pid : Pid} {todo : List Message} (h : ∃ m ∈ todo, m.taskId = id) :
    (w.afterCommit pid todo .done).Awaited id := by
  obtain ⟨m, hm, he⟩ := h
  refine .inr ⟨pid, m, ?_, he⟩
  rw [afterCommit_procs, if_pos ⟨rfl, rfl⟩, Proc.awaiting_sendAll]
  exact hm

theorem fate_done {fate : Fate} (hf : fate ≠ .refused) (hl : fate ≠ .lost) : fate = .done := by
  cases fate with
  | done => rfl
  | refused => exact absurd rfl hf
  | lost => exact absurd rfl hl

section Commits

variable {m' : DownloadTaskModel} (hm' : w'.store.tasks.get? id = some m')
  (hs' : m'.status = .pending) (hn : ∀ m, w.store.tasks.get? id = some m → m.status ≠ .pending)
include hm' hs' hn

theorem awaited_start {pid : Pid} {candidateId : Option String} {fate : Fate}
    (hok : NoMessageDropped w (.start pid id candidateId fate))
    (h : Step sha256 w (.start pid id candidateId fate) w') : w'.Awaited id := by
  cases h with
  | refused l hl => exact absurd hs' (hn m' hm')
  | start pid taskId candidateId fate tasks hp hf ht =>
    obtain rfl := fate_done hf hok
    exact awaited_of_commit ⟨_, List.mem_singleton_self _, rfl⟩

theorem awaited_reclaimStuck {pid : Pid} {ids : List TaskId} {fate : Fate} (hid : id ∈ ids)
    (hok : NoMessageDropped w (.reclaimStuck pid ids fate))
    (h : Step sha256 w (.reclaimStuck pid ids fate) w') : w'.Awaited id := by
  cases h with
  | refused l hl => exact absurd hs' (hn m' hm')
  | reclaimStuck pid ids fate hp hf hsel =>
    obtain rfl := fate_done hf hok
    exact awaited_of_commit (mem_requeued hid hm')

theorem awaited_reclaimBlocked {pid : Pid} {ids : List TaskId} {fate : Fate} (hid : id ∈ ids)
    (hok : NoMessageDropped w (.reclaimBlocked pid ids fate))
    (h : Step sha256 w (.reclaimBlocked pid ids fate) w') : w'.Awaited id := by
  cases h with
  | refused l hl => exact absurd hs' (hn m' hm')
  | reclaimBlocked pid ids fate hp hf hsel =>
    obtain rfl := fate_done hf hok
    exact awaited_of_commit (mem_requeued hid hm')

end Commits

end World

/-- A `PENDING` row has a message that is still going to be claimed. -/
theorem pending_awaited (sha256 : Bytes → Digest) :
    (system sha256).Invariant NoMessageDropped fun w => ∀ id m,
      w.store.tasks.get? id = some m → m.status = .pending → w.Awaited id := by
  refine System.Reach.induct ?_ fun w l w' hr hw hok hst id m' hm' hs' => ?_
  · rintro w ⟨now, bucket, rfl⟩ id m hm
    cases hm
  have h := Step.of_step hst
  have hrow := h.rowStep hm'
  generalize hg : w.store.tasks.get? id = g at hrow
  have hn : ∀ {m}, g = some m → m.status ≠ .pending →
      ∀ x, w.store.tasks.get? id = some x → x.status ≠ .pending := by
    intro m hgm hs x hx
    rw [hg, hgm] at hx; cases hx
    exact hs
  cases hrow with
  | kept m hc => exact (hw id m' hg hs').step hok h hg hs' hm' hs'
  | added pid candidateId fate hl hc =>
    subst hl
    exact awaited_start hm' hs' (fun x hx => by rw [hg] at hx; cases hx) hok h
  | claimed m pid msg workerId fate hl hf hp hmsg hs hc => cases hs'
  | written m pid reply k t hl hp hc ht hcl =>
    have hheld := copies_of_message sha256 w hr.toFree pid k hp
    exact absurd hs' (hheld.stored (.identity fun i _ _ => i = k.message.taskId) hc).2
  | releasedStuck m pid ids fate hl hf hmem hs hc =>
    subst hl
    have hrun := DownloadTaskModel.running_of_isStuck hs
    exact awaited_reclaimStuck hm' hs' (hn rfl (by rw [hrun]; decide)) hmem hok h
  | releasedBlocked m pid ids fate hl hf hmem hs hc =>
    subst hl
    have hblocked := DownloadTaskModel.blocked_of_isReleasable hs
    exact awaited_reclaimBlocked hm' hs' (hn rfl (by rw [hblocked]; decide)) hmem hok h

/-- **Every `PENDING` row is covered**, in every run in which no message is dropped. -/
theorem pending_covered (sha256 : Bytes → Digest) :
    (system sha256).Invariant NoMessageDropped fun w =>
      ∀ m ∈ w.store.tasks, m.status = .pending → w.Covered m.id :=
  fun w hw m hm hs => (pending_awaited sha256 w hw m.id m (Table.get?_mem hm) hs).covered

/-! ## A row without a message -/

/-- The process dies between the commit of a new task and its `send_task`. -/
def orphan : List Label := [.start 0 "t" none .done, .crash 0]

theorem orphaned : ¬ (system fun _ => 0).Invariant System.free fun w =>
    ∀ m ∈ w.store.tasks, m.status = .pending → w.Covered m.id := by
  intro hinv
  have hrun : (system fun _ => 0).run (fresh 0 fun _ => none) orphan = some _ := rfl
  have hcov := hinv _ (System.reach_of_run ⟨0, fun _ => none, rfl⟩ hrun)
    (DownloadTask.new "t" "").toModel (List.mem_singleton_self _) rfl
  have hidle : ∀ pid : Pid, Function.update (Function.update (fun _ => Proc.idle) 0
      (Proc.sendAll [⟨"t", none⟩])) 0 .idle pid = .idle := by
    intro pid
    by_cases h : pid = 0 <;> simp [h]
  rcases hcov with ⟨m, hm, -⟩ | ⟨pid, m, hm, -⟩ | ⟨pid, todo, hp, -⟩
  · cases hm
  · have : (Proc.idle).message = some m := hidle pid ▸ hm
    cases this
  · cases (hidle pid).symm.trans hp

end FileExtractor
