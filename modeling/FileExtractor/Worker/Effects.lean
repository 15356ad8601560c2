import FileExtractor.Application.TaskCopy
import FileExtractor.Application.Transitions
import FileExtractor.Worker.Steps

/-!
# The effects of a step

What one step does to one part of the world, whoever takes it:

* `Step.rowStep`: to a row of `download_tasks` (`RowStep`);
* `Step.handling`: to a running handler (`HandlerStep`);
* `Step.effect`: to the other stores, which only a call of a handler that takes effect changes, and
  `Step.filesStep`: to the files and their records (`FilesStep`);
* `Step.batchFiles`: to the files that a process may still clean up.
-/

namespace FileExtractor

open Rel World

/-! ## The calls of a handler -/

/-- A handler sees an answer only after a call without an error. -/
theorem Reply.of_seen {reply : Reply} {a : Answer} (h : reply.seen = .ok a) : reply = .done a := by
  cases reply with
  | done answer => cases h; rfl
  | refused e => cases h
  | lost e => cases h

/-- The call raises in the handler. -/
def Reply.failed : Reply → Bool
  | .done _ => false
  | .refused _ | .lost _ => true

theorem Reply.of_not_failed {reply : Reply} (h : reply.failed = false) :
    ∃ a, reply = .done a := by
  cases reply with
  | done answer => exact ⟨answer, rfl⟩
  | refused e => cases h
  | lost e => cases h

theorem Reply.seen_failed {reply : Reply} (h : reply.failed = true) :
    ∃ e, reply.seen = .error e := by
  cases reply with
  | done answer => cases h
  | refused e => exact ⟨e, rfl⟩
  | lost e => exact ⟨e, rfl⟩

namespace Store

/-- The stores agree on everything but the tasks. -/
structure SameFiles (s s' : Store) : Prop where
  files : s'.files = s.files
  downloaded : s'.downloaded = s.downloaded
  bucket : s'.bucket = s.bucket
  owner : s'.owner = s.owner
  marked : s'.marked = s.marked

variable {s s' : Store} {taskId : TaskId} {c : Call} {reply : Reply}

/-- A call that is served changes nothing or has its effect; without an error it has its effect. -/
theorem serve_cases (h : s.serve taskId c reply = some s') :
    (s' = s ∧ ∃ e, reply = .refused e) ∨ s.apply taskId c = some s' := by
  unfold serve at h
  split at h
  · split at h
    · exact .inr h
    · cases h
  · cases h; exact .inl ⟨rfl, _, rfl⟩
  · exact .inr h

theorem serve_done {a : Answer} (h : s.serve taskId c (.done a) = some s') :
    s.permits c a = true ∧ s.apply taskId c = some s' := by
  simp only [serve] at h
  split at h
  · next hp => exact ⟨hp, h⟩
  · cases h

/-- The row of a task that the handler reads. -/
theorem serve_getById {id : TaskId} {t : Option DownloadTask}
    (h : s.serve taskId (.getById id) (.done (.task t)) = some s') : t = s.tasks.getById id := by
  simpa [permits] using (serve_done h).1

theorem apply_tasks (h : s.apply taskId c = some s') :
    s'.tasks = s.tasks ∨ ∃ t, c = .updateTask t ∧ s'.tasks = s.tasks.update t := by
  cases c with
  | updateTask t => simp only [apply, Option.some.injEq] at h; subst h; exact .inr ⟨t, rfl, rfl⟩
  | addFile tid file fileHash =>
    obtain ⟨files, -, h⟩ := Option.bind_eq_some_iff.mp h
    obtain ⟨downloaded, -, h⟩ := Option.bind_eq_some_iff.mp h
    cases h; exact .inl rfl
  | _ => simp only [apply, Option.some.injEq] at h; subst h; exact .inl rfl

theorem serve_tasks (h : s.serve taskId c reply = some s') :
    s'.tasks = s.tasks ∨ ∃ t, c = .updateTask t ∧ s'.tasks = s.tasks.update t := by
  rcases serve_cases h with ⟨rfl, -⟩ | h
  · exact .inl rfl
  · exact apply_tasks h

theorem apply_addFile {tid : TaskId} {file : File} {fileHash : FileHash}
    (h : s.apply taskId (.addFile tid file fileHash) = some s') :
    ∃ files downloaded, s.files.add file = some files ∧
      s.downloaded.record tid file.filename fileHash = some downloaded ∧
      s' = { s with
        files := files, downloaded := downloaded
        owner := Function.update s.owner file.id (some tid) } := by
  obtain ⟨files, hf, h⟩ := Option.bind_eq_some_iff.mp h
  obtain ⟨downloaded, hd, h⟩ := Option.bind_eq_some_iff.mp h
  cases h; exact ⟨files, downloaded, hf, hd, rfl⟩

/-- An object is as before, or the call has put or deleted it. -/
theorem apply_bucket (h : s.apply taskId c = some s') (key : String) :
    s'.bucket key = s.bucket key ∨
    (∃ content, c = .uploadStream key content ∧ s'.bucket key = some content) ∨
    c = .deleteObject key ∧ s'.bucket key = none := by
  cases c with
  | uploadStream key' content =>
    cases h
    by_cases hk : key = key'
    · subst hk
      exact .inr (.inl ⟨content, rfl, Function.update_self ..⟩)
    · exact .inl (Function.update_of_ne hk _ _)
  | deleteObject key' =>
    cases h
    by_cases hk : key = key'
    · subst hk
      exact .inr (.inr ⟨rfl, Function.update_self ..⟩)
    · exact .inl (Function.update_of_ne hk _ _)
  | addFile tid file fileHash =>
    obtain ⟨files, downloaded, -, -, rfl⟩ := apply_addFile h
    exact .inl rfl
  | _ => cases h; exact .inl rfl

/-- The calls that leave the two tables. -/
theorem apply_files (h : s.apply taskId c = some s')
    (ha : ∀ tid file fileHash, c ≠ .addFile tid file fileHash)
    (hd : ∀ tid file, c ≠ .deleteFile tid file) :
    s'.files = s.files ∧ s'.downloaded = s.downloaded ∧ s'.owner = s.owner := by
  cases c with
  | addFile tid file fileHash => exact absurd rfl (ha tid file fileHash)
  | deleteFile tid file => exact absurd rfl (hd tid file)
  | _ => cases h; exact ⟨rfl, rfl, rfl⟩

/-- Nothing is unmarked. -/
theorem apply_marked_mono (h : s.apply taskId c = some s') {p : TaskId × String}
    (hp : p ∈ s.marked) : p ∈ s'.marked := by
  cases c with
  | markDownloaded batch candidateId => cases h; exact List.mem_append_left _ hp
  | addFile tid file fileHash =>
    obtain ⟨files, downloaded, -, -, rfl⟩ := apply_addFile h
    exact hp
  | _ => cases h; exact hp

end Store

/-- A task that a handler gets is the row of its message. -/
theorem Handler.reads {h h' : Handler} {c : Call} {s s' : Store} {m : Message} {reply : Reply}
    {sha256 : Bytes → Digest} {now : Time} {t : DownloadTask} (hc : h.call m = some c)
    (hs : s.serve m.taskId c reply = some s') (hr : h.resume sha256 now reply.seen = some h')
    (ht : reply.seen = .ok (.task (some t))) :
    h = .getTask ∧ ∃ row, s.tasks.get? m.taskId = some row ∧ row.toDomain = t := by
  obtain rfl := Handler.resume_task (ht ▸ hr)
  cases hc
  obtain rfl := Reply.of_seen ht
  exact ⟨rfl, Option.map_eq_some_iff.mp (Store.serve_getById hs).symm⟩

/-! ## The rows of `download_tasks` -/

namespace TaskTable

open DownloadTaskModel

variable {tasks : TaskTable} {id : TaskId} {ids : List TaskId} {t : DownloadTask}
  {p : DownloadTaskModel → Bool} {limit : Nat}

theorem get?_update : (tasks.update t).get? id =
    (tasks.get? id).map fun m => if m.id = t.id then assign t m else m := by
  simp [update, Table.get?_modify]

theorem get?_claim {taskId : TaskId} {workerId : String} {now : Time} :
    (tasks.claim taskId workerId now).1.get? id =
      (tasks.get? id).map fun m => if claimable taskId m then claimed workerId now m else m := by
  simp [claim, Table.get?_modify]

theorem get?_reclaimStuck : (tasks.reclaimStuck ids).get? id =
    (tasks.get? id).map fun m => if m.id ∈ ids then releasedStuck m else m := by
  simp [reclaimStuck, Table.get?_modify]

theorem get?_reclaimBlocked : (tasks.reclaimBlocked ids).get? id =
    (tasks.get? id).map fun m => if m.id ∈ ids then releasedBlocked m else m := by
  simp [reclaimBlocked, Table.get?_modify]

theorem get?_add {tasks' : TaskTable} (h : tasks.add t = some tasks') :
    tasks'.get? id = if id = t.id then some t.toModel else tasks.get? id :=
  Table.get?_insert h id

/-- The rows of a sub-select satisfy its condition. -/
theorem selects_row (h : tasks.selects p limit ids = true) (hid : id ∈ ids) :
    ∃ m, tasks.get? id = some m ∧ p m = true := by
  simp only [selects, Bool.and_eq_true, List.all_eq_true] at h
  have := h.1.2 id hid
  rwa [Option.any_eq_true] at this

end TaskTable

/-- How a row of `download_tasks` comes from the row with the same id, if any, before the step, and
whether the claims of the task are counted up. -/
inductive RowStep (w : World) (l : Label) (w' : World) (id : TaskId) :
    Option DownloadTaskModel → DownloadTaskModel → Prop where
  | kept (m : DownloadTaskModel) (hn : w'.claims id = w.claims id) : RowStep w l w' id (some m) m
  | added (pid : Pid) (candidateId : Option String) (fate : Fate)
      (hl : l = .start pid id candidateId fate) (hn : w'.claims id = w.claims id) :
      RowStep w l w' id none (DownloadTask.new id (candidateId.getD "")).toModel
  | claimed (m : DownloadTaskModel) (pid : Pid) (msg : Message) (workerId : String) (fate : Fate)
      (hl : l = .claim pid fate) (hf : fate ≠ .refused) (hp : w.procs pid = .received msg workerId)
      (hm : msg.taskId = id) (hs : m.status = .pending) (hn : w'.claims id = w.claims id + 1) :
      RowStep w l w' id (some m) (m.claimed workerId w.now)
  | written (m : DownloadTaskModel) (pid : Pid) (reply : Reply) (k : Worker) (t : DownloadTask)
      (hl : l = .call pid reply) (hp : w.procs pid = .handling k)
      (hc : k.handler.call k.message = some (.updateTask t)) (ht : t.id = id)
      (hn : w'.claims id = w.claims id) : RowStep w l w' id (some m) (m.assign t)
  | releasedStuck (m : DownloadTaskModel) (pid : Pid) (ids : List TaskId) (fate : Fate)
      (hl : l = .reclaimStuck pid ids fate) (hf : fate ≠ .refused) (hid : id ∈ ids)
      (hs : m.isStuck (w.now - maxHeartbeatAge) = true) (hn : w'.claims id = w.claims id) :
      RowStep w l w' id (some m) m.releasedStuck
  | releasedBlocked (m : DownloadTaskModel) (pid : Pid) (ids : List TaskId) (fate : Fate)
      (hl : l = .reclaimBlocked pid ids fate) (hf : fate ≠ .refused) (hid : id ∈ ids)
      (hs : m.isReleasable w.now = true) (hn : w'.claims id = w.claims id) :
      RowStep w l w' id (some m) m.releasedBlocked

/-- What a step does to the files and their records. -/
inductive FilesStep (w : World) (l : Label) (w' : World) : Prop where
  | kept (hf : w'.store.files = w.store.files) (hd : w'.store.downloaded = w.store.downloaded)
      (ho : w'.store.owner = w.store.owner) : FilesStep w l w'
  | added (pid : Pid) (reply : Reply) (k : Worker) (f : Frame) (file : File) (fileHash : FileHash)
      (rest : List ExtractedFile) (hl : l = .call pid reply) (hp : w.procs pid = .handling k)
      (hk : k.handler = .record f file fileHash rest)
      (ha : w.store.apply k.message.taskId (.addFile f.task.id file fileHash) = some w'.store) :
      FilesStep w l w'
  | deleted (pid : Pid) (reply : Reply) (k : Worker) (f : Frame) (e : Exn) (file : File)
      (todo : List File) (hl : l = .call pid reply) (hp : w.procs pid = .handling k)
      (hk : k.handler = .deleteRows f e file todo)
      (ha : w.store.apply k.message.taskId (.deleteFile f.task.id file) = some w'.store) :
      FilesStep w l w'

/-- How a running handler comes from the process before the step. -/
inductive HandlerStep (sha256 : Bytes → Digest) (w : World) (l : Label) (w' : World) (pid : Pid) :
    Worker → Prop where
  | kept (k : Worker) (lost : Bool) (hp : w.procs pid = .handling k)
      (hl : ∀ reply, l ≠ .call pid reply)
      (hlost : lost = true → k.lost = true ∨
        ∃ q ids fate, l = .reclaimStuck q ids fate ∧ k.message.taskId ∈ ids) :
      HandlerStep sha256 w l w' pid { k with lost := lost }
  | begun (m : Message) (workerId : String) (row : DownloadTaskModel) (hl : l = .claim pid .done)
      (hp : w.procs pid = .received m workerId) (hrow : w.store.tasks.get? m.taskId = some row)
      (hs : row.status = .pending)
      (hrow' : w'.store.tasks.get? m.taskId = some (row.claimed workerId w.now)) :
      HandlerStep sha256 w l w' pid ⟨m, workerId, .getTask, false⟩
  | resumed (k : Worker) (reply : Reply) (c : Call) (h : Handler)
      (hl : l = .call pid reply) (hp : w.procs pid = .handling k)
      (hc : k.handler.call k.message = some c)
      (hs : w.store.serve k.message.taskId c reply = some w'.store)
      (hr : k.handler.resume sha256 w.now reply.seen = some h) :
      HandlerStep sha256 w l w' pid { k with handler := h }

theorem Proc.release_handling {ids : List TaskId} {p : Proc} {k' : Worker}
    (h : p.release ids = .handling k') :
    ∃ k, p = .handling k ∧ k' = { k with lost := k.lost || ids.contains k.message.taskId } := by
  cases p <;> simp only [release, Proc.handling.injEq, reduceCtorEq] at h
  next k => exact ⟨k, rfl, h.symm⟩

/-- The files that a process may still clean up. -/
def Proc.batchFiles : Proc → List File
  | .handling k => k.handler.batchFiles
  | _ => []

theorem Proc.sendAll_ne_handling {todo : List Message} {k : Worker} :
    Proc.sendAll todo ≠ .handling k := by
  unfold sendAll; split <;> simp

namespace Step

variable {sha256 : Bytes → Digest} {w w' : World} {l : Label}

/-- **The rows.** -/
theorem rowStep (h : Step sha256 w l w') {id : TaskId} {m' : DownloadTaskModel}
    (hm : w'.store.tasks.get? id = some m') :
    RowStep w l w' id (w.store.tasks.get? id) m' := by
  have kept : ∀ {m}, w'.claims id = w.claims id → w.store.tasks.get? id = some m →
      RowStep w l w' id (w.store.tasks.get? id) m := fun hn e => by rw [e]; exact .kept _ hn
  cases h with
  | start pid taskId candidateId fate tasks hp hf ht =>
    replace hm : tasks.get? id = some m' := hm
    rw [TaskTable.get?_add ht] at hm
    split at hm
    · next e =>
      cases hm
      obtain rfl : id = taskId := e
      have hn : w.store.tasks.get? id = none := (Table.insert?_eq_some ht).1
      rw [hn]; exact .added pid candidateId fate rfl rfl
    · exact kept rfl hm
  | claimed pid msg workerId fate row hp hf hrow hs =>
    replace hm : (w.store.tasks.claim msg.taskId workerId w.now).1.get? id = some m' := hm
    rw [TaskTable.get?_claim, Option.map_eq_some_iff] at hm
    obtain ⟨m, hm, rfl⟩ := hm
    have hid : m.id = id := (Table.get?_eq_some.mp hm).2
    by_cases hc : TaskTable.claimable msg.taskId m = true
    · rw [if_pos hc, hm]
      simp only [TaskTable.claimable, Bool.and_eq_true, decide_eq_true_eq] at hc
      obtain rfl : msg.taskId = id := hc.1 ▸ hid
      exact .claimed m pid msg workerId fate rfl hf hp rfl hc.2 (by simp)
    · rw [if_neg hc]
      refine kept (Function.update_of_ne (fun e => hc ?_) _ _) hm
      subst e
      rw [hrow] at hm; cases hm
      simp [TaskTable.claimable, hid, hs]
  | call pid reply k c store hd hp hc hs hr =>
    replace hm : store.tasks.get? id = some m' := hm
    rcases Store.serve_tasks hs with e | ⟨t, rfl, e⟩
    · rw [e] at hm; exact kept rfl hm
    · rw [e, TaskTable.get?_update, Option.map_eq_some_iff] at hm
      obtain ⟨m, hm, rfl⟩ := hm
      split
      · next hi =>
        rw [hm]
        exact .written m pid reply k t rfl hp hc (hi ▸ (Table.get?_eq_some.mp hm).2) rfl
      · exact kept rfl hm
  | reclaimStuck pid ids fate hp hf hsel =>
    replace hm : (w.store.tasks.reclaimStuck ids).get? id = some m' := hm
    rw [TaskTable.get?_reclaimStuck, Option.map_eq_some_iff] at hm
    obtain ⟨m, hm, rfl⟩ := hm
    split
    · next hi =>
      rw [(Table.get?_eq_some.mp hm).2] at hi
      obtain ⟨m₀, hm₀, hs⟩ := TaskTable.selects_row hsel hi
      rw [hm] at hm₀; cases hm₀
      rw [hm]; exact .releasedStuck m pid ids fate rfl hf hi hs rfl
    · exact kept rfl hm
  | reclaimBlocked pid ids fate hp hf hsel =>
    replace hm : (w.store.tasks.reclaimBlocked ids).get? id = some m' := hm
    rw [TaskTable.get?_reclaimBlocked, Option.map_eq_some_iff] at hm
    obtain ⟨m, hm, rfl⟩ := hm
    split
    · next hi =>
      rw [(Table.get?_eq_some.mp hm).2] at hi
      obtain ⟨m₀, hm₀, hs⟩ := TaskTable.selects_row hsel hi
      rw [hm] at hm₀; cases hm₀
      rw [hm]; exact .releasedBlocked m pid ids fate rfl hf hi hs rfl
    · exact kept rfl hm
  | _ => exact kept rfl hm

/-- Rows are never deleted. -/
theorem row_persists (h : Step sha256 w l w') {id : TaskId} {m : DownloadTaskModel}
    (hm : w.store.tasks.get? id = some m) : ∃ m', w'.store.tasks.get? id = some m' := by
  cases h with
  | start pid taskId candidateId fate tasks hp hf ht =>
    show ∃ m', tasks.get? id = some m'
    rw [TaskTable.get?_add ht]
    split
    · exact ⟨_, rfl⟩
    · exact ⟨m, hm⟩
  | claimed pid msg workerId fate row hp hf hrow hs =>
    show ∃ m', (w.store.tasks.claim msg.taskId workerId w.now).1.get? id = some m'
    rw [TaskTable.get?_claim, hm]; exact ⟨_, rfl⟩
  | call pid reply k c store hd hp hc hs hr =>
    show ∃ m', store.tasks.get? id = some m'
    rcases Store.serve_tasks hs with e | ⟨t, rfl, e⟩
    · rw [e]; exact ⟨m, hm⟩
    · rw [e, TaskTable.get?_update, hm]; exact ⟨_, rfl⟩
  | reclaimStuck pid ids fate hp hf hsel =>
    show ∃ m', (w.store.tasks.reclaimStuck ids).get? id = some m'
    rw [TaskTable.get?_reclaimStuck, hm]; exact ⟨_, rfl⟩
  | reclaimBlocked pid ids fate hp hf hsel =>
    show ∃ m', (w.store.tasks.reclaimBlocked ids).get? id = some m'
    rw [TaskTable.get?_reclaimBlocked, hm]; exact ⟨_, rfl⟩
  | _ => exact ⟨m, hm⟩

/-- **The handlers.** -/
theorem handling (h : Step sha256 w l w') {pid : Pid} {k' : Worker}
    (hk : w'.procs pid = .handling k') : HandlerStep sha256 w l w' pid k' := by
  have same : w.procs pid = .handling k' → (∀ reply, l ≠ .call pid reply) →
      HandlerStep sha256 w l w' pid k' := fun hk hl => .kept k' k'.lost hk hl .inl
  -- a step that is no call and sets one process to something else than a handler
  have other : ∀ {q : Pid} {p : Proc}, (∀ k, p ≠ .handling k) → (∀ reply, l ≠ .call pid reply) →
      (w.setProc q p).procs pid = .handling k' → HandlerStep sha256 w l w' pid k' := by
    intro q p hne hl hk
    rw [setProc_procs] at hk
    split at hk
    · exact absurd hk (hne k')
    · exact same hk hl
  cases h with
  | tick d hd => exact same hk (by simp)
  | refused l hl => exact same hk fun reply e => by subst e; cases hl
  | start pid' taskId candidateId fate tasks hp hf ht =>
    rw [afterCommit_procs] at hk
    split at hk
    · exact absurd hk Proc.sendAll_ne_handling
    · exact same hk (by simp)
  | send pid' m todo hp => exact other (fun _ => Proc.sendAll_ne_handling) (by simp) hk
  | sendFails pid' todo hp => exact other (by simp) (by simp) hk
  | redeliver m hm => exact same hk (by simp)
  | deliver pid' m workerId hp hm => exact other (by simp) (by simp) hk
  | claimFails pid' m workerId fate hp hn => exact other (by simp) (by simp) hk
  | claimed pid' m workerId fate row hp hf hrow hs =>
    rw [setProc_procs] at hk
    split at hk
    · next e =>
      subst e
      split at hk
      · next hd =>
        cases hk; subst hd
        have hid : row.id = m.taskId := (Table.get?_eq_some.mp hrow).2
        refine .begun m workerId row rfl hp hrow hs ?_
        show (w.store.tasks.claim m.taskId workerId w.now).1.get? m.taskId = _
        rw [TaskTable.get?_claim, hrow]
        simp [TaskTable.claimable, hid, hs]
      · cases hk
    · exact same hk (by simp)
  | call pid' reply k c store hd hp hc hs hr =>
    rw [setProc_procs] at hk
    split at hk
    · next e => subst e; cases hk; exact .resumed k reply c hd rfl hp hc hs hr
    · next e => exact same hk (fun r h => e (by cases h; rfl))
  | ackReturned pid' m hp => exact other (by simp) (by simp) hk
  | ackEnded pid' k hp he => exact other (by simp) (by simp) hk
  | reclaimStuck pid' ids fate hp hf hsel =>
    rw [afterCommit_procs] at hk
    split at hk
    · exact absurd hk Proc.sendAll_ne_handling
    · obtain ⟨k, hp, rfl⟩ := Proc.release_handling hk
      refine .kept k _ hp (by simp) fun hlost => ?_
      rw [Bool.or_eq_true, List.contains_iff_mem] at hlost
      exact hlost.imp_right fun hm => ⟨pid', ids, fate, rfl, hm⟩
  | reclaimBlocked pid' ids fate hp hf hsel =>
    rw [afterCommit_procs] at hk
    split at hk
    · exact absurd hk Proc.sendAll_ne_handling
    · exact same hk (by simp)
  | crash pid' => exact other (by simp) (by simp) hk

/-- The call of a handler. -/
theorem called {pid : Pid} {k : Worker} {reply : Reply} (h : Step sha256 w (.call pid reply) w')
    (hp : w.procs pid = .handling k) : ∃ c handler, k.handler.call k.message = some c ∧
      w.store.serve k.message.taskId c reply = some w'.store ∧
      k.handler.resume sha256 w.now reply.seen = some handler ∧
      w' = { w with store := w'.store }.setProc pid (.handling { k with handler := handler }) := by
  cases h with
  | refused l hl => cases hl
  | call pid reply k' c store handler hp' hc hs hr =>
    rw [hp] at hp'; cases hp'
    exact ⟨c, handler, hc, hs, hr, rfl⟩

/-- A handler that runs goes on, unless it is called or its process crashes. -/
theorem goes_on (h : Step sha256 w l w') {pid : Pid} {k : Worker} (hp : w.procs pid = .handling k)
    (he : k.handler.isEnded = false) (hl : ∀ reply, l ≠ .call pid reply) (hc : l ≠ .crash pid) :
    ∃ lost, w'.procs pid = .handling { k with lost := lost } := by
  have other : ∀ {q : Pid} {p : Proc}, (w.procs q = .handling k → False) →
      ∃ lost, (w.setProc q p).procs pid = .handling { k with lost := lost } := by
    intro q p hq
    have hne : pid ≠ q := fun e => hq (e ▸ hp)
    exact ⟨k.lost, by rw [setProc_ne hne, hp]⟩
  have commit : ∀ {q : Pid} {v : World} {todo : List Message} {fate : Fate},
      w.procs q = .idle → (∃ lost, v.procs pid = .handling { k with lost := lost }) →
      ∃ lost, (v.afterCommit q todo fate).procs pid = .handling { k with lost := lost } := by
    intro q v todo fate hq hv
    rw [afterCommit_procs, if_neg (fun e => by rw [← e.2, hp] at hq; cases hq)]
    exact hv
  cases h with
  | tick d hd => exact ⟨k.lost, hp⟩
  | refused l hl' => exact ⟨k.lost, hp⟩
  | start q taskId candidateId fate tasks hq hf ht =>
    exact commit (v := w.setTasks tasks) hq ⟨k.lost, hp⟩
  | send q m todo hq => exact other fun e => by rw [hq] at e; cases e
  | sendFails q todo hq => exact other fun e => by rw [hq] at e; cases e
  | redeliver m hm => exact ⟨k.lost, hp⟩
  | deliver q m workerId hq hm => exact other fun e => by rw [hq] at e; cases e
  | claimFails q m workerId fate hq hn => exact other fun e => by rw [hq] at e; cases e
  | claimed q m workerId fate row hq hf hrow hs => exact other fun e => by rw [hq] at e; cases e
  | call q reply k' c store handler hq hc' hs hr =>
    have hne : pid ≠ q := fun e => hl reply (by rw [e])
    exact ⟨k.lost, by rw [setProc_ne hne]; exact hp⟩
  | ackReturned q m hq => exact other fun e => by rw [hq] at e; cases e
  | ackEnded q k' hq he' =>
    refine other fun e => ?_
    rw [hq] at e; cases e
    rw [he] at he'; cases he'
  | reclaimStuck q ids fate hq hf hsel =>
    refine commit (v := (w.setTasks _).release ids) hq ⟨k.lost || ids.contains k.message.taskId, ?_⟩
    show (w.procs pid).release ids = _
    rw [hp]; rfl
  | reclaimBlocked q ids fate hq hf hsel => exact commit (v := w.setTasks _) hq ⟨k.lost, hp⟩
  | crash q =>
    have hne : pid ≠ q := fun e => hc (by rw [e])
    exact ⟨k.lost, by rw [setProc_ne hne]; exact hp⟩

/-- **The other stores** change only by the effect of a call of a handler. -/
theorem effect (h : Step sha256 w l w') : w.store.SameFiles w'.store ∨
    ∃ pid reply k c, l = .call pid reply ∧ w.procs pid = .handling k ∧
      k.handler.call k.message = some c ∧ (∀ e, reply ≠ .refused e) ∧
      w.store.apply k.message.taskId c = some w'.store := by
  cases h with
  | call pid reply k c store h hp hc hs hr =>
    cases reply with
    | done answer =>
      exact .inr ⟨pid, _, k, c, rfl, hp, hc, nofun, (Store.serve_done hs).2⟩
    | refused e => cases hs; exact .inl ⟨rfl, rfl, rfl, rfl, rfl⟩
    | lost e => exact .inr ⟨pid, _, k, c, rfl, hp, hc, nofun, hs⟩
  | _ => exact .inl ⟨rfl, rfl, rfl, rfl, rfl⟩

/-- **The files and their records.** -/
theorem filesStep (h : Step sha256 w l w') : FilesStep w l w' := by
  rcases h.effect with same | ⟨pid, reply, k, c, rfl, hp, hc, -, ha⟩
  · exact .kept same.files same.downloaded same.owner
  by_cases hadd : ∃ tid file fileHash, c = .addFile tid file fileHash
  · obtain ⟨tid, file, fileHash, rfl⟩ := hadd
    obtain ⟨f, rest, hk, rfl⟩ := Handler.call_addFile hc
    exact .added pid reply k f file fileHash rest rfl hp hk ha
  by_cases hdel : ∃ tid file, c = .deleteFile tid file
  · obtain ⟨tid, file, rfl⟩ := hdel
    obtain ⟨f, e, todo, hk, rfl⟩ := Handler.call_deleteFile hc
    exact .deleted pid reply k f e file todo rfl hp hk ha
  · obtain ⟨hf, hd, ho⟩ := Store.apply_files ha (fun _ _ _ e => hadd ⟨_, _, _, e⟩)
      (fun _ _ e => hdel ⟨_, _, e⟩)
    exact .kept hf hd ho

theorem marked_mono (h : Step sha256 w l w') {p : TaskId × String} (hp : p ∈ w.store.marked) :
    p ∈ w'.store.marked := by
  rcases h.effect with same | ⟨pid, reply, k, c, -, -, -, -, ha⟩
  · rw [same.marked]; exact hp
  · exact Store.apply_marked_mono ha hp

/-- **The files to clean up**: no more than before, except after the answer to a `record`. -/
theorem batchFiles (h : Step sha256 w l w') (pid : Pid) :
    (w'.procs pid).batchFiles.Sublist (w.procs pid).batchFiles ∨
    ∃ k f file fileHash rest, l = .call pid (.done .done) ∧ w.procs pid = .handling k ∧
      k.handler = .record f file fileHash rest ∧
      (w'.procs pid).batchFiles.Sublist ((w.procs pid).batchFiles ++ [file]) := by
  cases hp' : w'.procs pid with
  | handling k' =>
    cases h.handling hp' with
    | kept k lost hp hl hlost => left; rw [hp]; exact .refl _
    | begun m workerId row hl hp hrow hs hrow' => left; exact List.nil_sublist _
    | resumed k reply c handler hl hp hc hs hr =>
      have hb := (Handler.resume_next hr).batchFiles
      rw [hp]
      show handler.batchFiles.Sublist k.handler.batchFiles ∨ _
      by_cases hrec : ∃ f file fileHash rest, k.handler = .record f file fileHash rest ∧
          reply.seen = .ok .done
      · obtain ⟨f, file, fileHash, rest, hk, ha⟩ := hrec
        right
        refine ⟨k, f, file, fileHash, rest, ?_, rfl, hk, ?_⟩
        · rw [hl, Reply.of_seen ha]
        · rw [ha, hk] at hb
          show handler.batchFiles.Sublist (k.handler.batchFiles ++ [file])
          rw [hk]; exact hb
      · left
        have he : k.handler.recorded reply.seen = [] := by
          unfold Handler.recorded
          split
          · next hk ha => exact absurd ⟨_, _, _, _, hk, ha⟩ hrec
          · rfl
        rwa [he, List.append_nil] at hb
  | _ => left; exact List.nil_sublist _

end Step

end FileExtractor
