import FileExtractor.Worker.World

/-!
# What a step does

`Step sha256 w l w'` lists the steps of the system, one constructor for each thing that can happen,
with the world after it written out. `Step.of_step` reads a successful `World.step` as one of them,
so no later proof unfolds `World.step`. The projections of the world after an update are `simp`
lemmas.
-/

namespace FileExtractor

open Rel

namespace World

variable {w w' : World} {pid : Pid} {p : Proc}

/-! ## Updates of the world -/

@[simp] theorem setProc_now : (w.setProc pid p).now = w.now := rfl
@[simp] theorem setProc_store : (w.setProc pid p).store = w.store := rfl
@[simp] theorem setProc_queue : (w.setProc pid p).queue = w.queue := rfl
@[simp] theorem setProc_sent : (w.setProc pid p).sent = w.sent := rfl
@[simp] theorem setProc_claims : (w.setProc pid p).claims = w.claims := rfl

theorem setProc_procs (q : Pid) : (w.setProc pid p).procs q = if q = pid then p else w.procs q :=
  Function.update_apply ..

@[simp] theorem setProc_self : (w.setProc pid p).procs pid = p := by simp [setProc_procs]

theorem setProc_ne {q : Pid} (h : q ≠ pid) : (w.setProc pid p).procs q = w.procs q := by
  simp [setProc_procs, h]

theorem afterCommit_procs {todo : List Message} {fate : Fate} (q : Pid) :
    (w.afterCommit pid todo fate).procs q =
      if fate = .done ∧ q = pid then .sendAll todo else w.procs q := by
  unfold afterCommit
  by_cases h : fate = .done
  · by_cases hq : q = pid <;> simp [h, hq]
  · simp [h]

@[simp] theorem isIdle_eq : w.isIdle pid = true ↔ w.procs pid = .idle := by
  unfold isIdle
  split <;> simp_all

end World

/-! ## The steps -/

open World

/-- The steps of the system. -/
inductive Step (sha256 : Bytes → Digest) (w : World) : Label → World → Prop where
  | tick (d : Time) (h : 0 ≤ d) : Step sha256 w (.tick d) { w with now := w.now + d }
  /-- A transaction that was rolled back. -/
  | refused (l : Label) (hl : l.isRefused = true) : Step sha256 w l w
  | start (pid : Pid) (taskId : TaskId) (candidateId : Option String) (fate : Fate)
      (tasks : TaskTable) (hp : w.procs pid = .idle) (hf : fate ≠ .refused)
      (ht : w.store.tasks.add (.new taskId (candidateId.getD "")) = some tasks) :
      Step sha256 w (.start pid taskId candidateId fate)
        ((w.setTasks tasks).afterCommit pid [⟨taskId, candidateId⟩] fate)
  | send (pid : Pid) (m : Message) (todo : List Message) (hp : w.procs pid = .sending (m :: todo)) :
      Step sha256 w (.send pid)
        { w.setProc pid (.sendAll todo) with queue := w.queue ++ [m], sent := w.sent ++ [m] }
  | sendFails (pid : Pid) (todo : List Message) (hp : w.procs pid = .sending todo) :
      Step sha256 w (.sendFails pid) (w.setProc pid .idle)
  | redeliver (m : Message) (h : m ∈ w.sent) :
      Step sha256 w (.redeliver m) { w with queue := w.queue ++ [m] }
  | deliver (pid : Pid) (m : Message) (workerId : String) (hp : w.procs pid = .idle)
      (h : m ∈ w.queue) : Step sha256 w (.deliver pid m workerId)
        { w.setProc pid (.received m workerId) with queue := w.queue.erase m }
  | claimFails (pid : Pid) (m : Message) (workerId : String) (fate : Fate)
      (hp : w.procs pid = .received m workerId)
      (h : fate = .refused ∨
        ∀ row, w.store.tasks.get? m.taskId = some row → row.status ≠ .pending) :
      Step sha256 w (.claim pid fate) (w.setProc pid (.returned m))
  | claimed (pid : Pid) (m : Message) (workerId : String) (fate : Fate) (row : DownloadTaskModel)
      (hp : w.procs pid = .received m workerId) (hf : fate ≠ .refused)
      (hrow : w.store.tasks.get? m.taskId = some row) (hs : row.status = .pending) :
      Step sha256 w (.claim pid fate)
        (({ w.setTasks (w.store.tasks.claim m.taskId workerId w.now).1 with
            claims := Function.update w.claims m.taskId (w.claims m.taskId + 1) }).setProc pid
          (if fate = Fate.done then .handling ⟨m, workerId, .getTask, false⟩ else .returned m))
  | call (pid : Pid) (reply : Reply) (k : Worker) (c : Call) (store : Store) (h : Handler)
      (hp : w.procs pid = .handling k) (hc : k.handler.call k.message = some c)
      (hs : w.store.serve k.message.taskId c reply = some store)
      (hr : k.handler.resume sha256 w.now reply.seen = some h) :
      Step sha256 w (.call pid reply)
        ({ w with store := store }.setProc pid (.handling { k with handler := h }))
  | ackReturned (pid : Pid) (m : Message) (hp : w.procs pid = .returned m) :
      Step sha256 w (.ack pid) (w.setProc pid .idle)
  | ackEnded (pid : Pid) (k : Worker) (hp : w.procs pid = .handling k)
      (he : k.handler.isEnded = true) : Step sha256 w (.ack pid) (w.setProc pid .idle)
  | reclaimStuck (pid : Pid) (ids : List TaskId) (fate : Fate) (hp : w.procs pid = .idle)
      (hf : fate ≠ .refused)
      (hsel : w.store.tasks.selects (DownloadTaskModel.isStuck (w.now - maxHeartbeatAge))
        reclaimLimit ids = true) : Step sha256 w (.reclaimStuck pid ids fate)
        (((w.setTasks (w.store.tasks.reclaimStuck ids)).release ids).afterCommit pid
          (((w.store.tasks.reclaimStuck ids).returning ids).map requeueMessage) fate)
  | reclaimBlocked (pid : Pid) (ids : List TaskId) (fate : Fate) (hp : w.procs pid = .idle)
      (hf : fate ≠ .refused)
      (hsel : w.store.tasks.selects (DownloadTaskModel.isReleasable w.now)
        reclaimLimit ids = true) :
      Step sha256 w (.reclaimBlocked pid ids fate)
        ((w.setTasks (w.store.tasks.reclaimBlocked ids)).afterCommit pid
          (((w.store.tasks.reclaimBlocked ids).returning ids).map requeueMessage) fate)
  | crash (pid : Pid) :
      Step sha256 w (.crash pid) ((w.requeue (w.procs pid).message).setProc pid .idle)

namespace Step

variable {sha256 : Bytes → Digest} {w w' : World} {pid : Pid}

theorem of_start {taskId : TaskId} {candidateId : Option String} {fate : Fate}
    (h : w.start pid taskId candidateId fate = some w') :
    Step sha256 w (.start pid taskId candidateId fate) w' := by
  unfold World.start at h
  split at h
  · next hi =>
    split at h
    · cases h; exact .refused _ rfl
    · next hf =>
      obtain ⟨tasks, ht, h⟩ := Option.bind_eq_some_iff.mp h
      cases h; exact .start _ _ _ _ _ (isIdle_eq.mp hi) hf ht
  · cases h

/-- The row that `claim` returns is the pending row of the task. -/
theorem of_claim {fate : Fate} (h : w.claim pid fate = some w') :
    Step sha256 w (.claim pid fate) w' := by
  unfold World.claim at h
  split at h
  · next m workerId hp =>
    have hnone : (w.store.tasks.claim m.taskId workerId w.now).2 = none →
        ∀ row, w.store.tasks.get? m.taskId = some row → row.status ≠ .pending := by
      intro hn row hrow hs
      have hk := (Table.get?_eq_some.mp hrow).2
      simp [TaskTable.claim, TaskTable.claimable, hrow, hk, hs] at hn
    split at h
    · cases h; exact .claimFails _ _ _ _ hp (.inl rfl)
    · next hc => cases h; exact .claimFails _ _ _ _ hp (.inr (hnone (by rw [hc])))
    · next tasks t hf hc =>
      cases h
      have hsome : (w.store.tasks.claim m.taskId workerId w.now).2 = some t := by rw [hc]
      have htasks : (w.store.tasks.claim m.taskId workerId w.now).1 = tasks := by rw [hc]
      simp only [TaskTable.claim, Option.map_eq_some_iff, Option.filter_eq_some_iff] at hsome
      obtain ⟨row, ⟨hrow, hw⟩, -⟩ := hsome
      simp only [TaskTable.claimable, Bool.and_eq_true, decide_eq_true_eq] at hw
      rw [← htasks]
      exact .claimed _ _ _ _ row hp (fun e => hf e) hrow hw.2
  · cases h

theorem of_call {reply : Reply} (h : w.call sha256 pid reply = some w') :
    Step sha256 w (.call pid reply) w' := by
  unfold World.call at h
  split at h
  · next k hp =>
    obtain ⟨c, hc, h⟩ := Option.bind_eq_some_iff.mp h
    obtain ⟨store, hs, h⟩ := Option.bind_eq_some_iff.mp h
    obtain ⟨handler, hr, h⟩ := Option.bind_eq_some_iff.mp h
    cases h; exact .call _ _ _ _ _ _ hp hc hs hr
  · cases h

theorem of_reclaimStuck {ids : List TaskId} {fate : Fate}
    (h : w.reclaimStuck pid ids fate = some w') :
    Step sha256 w (.reclaimStuck pid ids fate) w' := by
  unfold World.reclaimStuck at h
  split at h
  · next hi =>
    rw [Bool.and_eq_true, isIdle_eq] at hi
    split at h
    · cases h; exact .refused _ rfl
    · next hf => cases h; exact .reclaimStuck _ _ _ hi.1 hf hi.2
  · cases h

theorem of_reclaimBlocked {ids : List TaskId} {fate : Fate}
    (h : w.reclaimBlocked pid ids fate = some w') :
    Step sha256 w (.reclaimBlocked pid ids fate) w' := by
  unfold World.reclaimBlocked at h
  split at h
  · next hi =>
    rw [Bool.and_eq_true, isIdle_eq] at hi
    split at h
    · cases h; exact .refused _ rfl
    · next hf => cases h; exact .reclaimBlocked _ _ _ hi.1 hf hi.2
  · cases h

/-- **Every step of the system is one of the list.** -/
theorem of_step {l : Label} (h : w.step sha256 l = some w') : Step sha256 w l w' := by
  cases l with
  | tick d =>
    simp only [World.step] at h
    split at h
    · next hd => cases h; exact .tick d hd
    · cases h
  | start => exact of_start h
  | send pid =>
    simp only [World.step, World.send] at h
    split at h
    · next m todo hp => cases h; exact .send _ _ _ hp
    · cases h
  | sendFails pid =>
    simp only [World.step, World.sendFails] at h
    split at h
    · next todo hp => cases h; exact .sendFails _ _ hp
    · cases h
  | redeliver m =>
    simp only [World.step] at h
    split at h
    · next hm => cases h; exact .redeliver m (by simpa using hm)
    · cases h
  | deliver pid m workerId =>
    simp only [World.step, World.deliver] at h
    split at h
    · next hd =>
      rw [Bool.and_eq_true, isIdle_eq] at hd
      cases h; exact .deliver _ _ _ hd.1 (by simpa using hd.2)
    · cases h
  | claim => exact of_claim h
  | call => exact of_call h
  | ack pid =>
    simp only [World.step, World.ack] at h
    split at h
    · next m hp => cases h; exact .ackReturned _ _ hp
    · next k hp =>
      split at h
      · next he => cases h; exact .ackEnded _ _ hp he
      · cases h
    · cases h
  | reclaimStuck => exact of_reclaimStuck h
  | reclaimBlocked => exact of_reclaimBlocked h
  | crash pid => simp only [World.step, Option.some.injEq] at h; subst h; exact .crash pid

end Step

end FileExtractor
