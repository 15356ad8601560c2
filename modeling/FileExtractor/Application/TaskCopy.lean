import FileExtractor.Application.ProcessFiles

/-!
# The in-memory task of a handler

A handler changes its copy of the task only by the methods of the entity, so a property of the
copy is a property that these methods keep. `J n t` is such a property of the task `t` while `n`
received names are not processed yet; `CopyInvariant J` says that it is kept, and then
`Held.resume` carries it from each `await` of the handler to the next one (`Handler.Held`). A
property that speaks of the time is kept by the methods at that time (`KeptAt`).

`Held` also says which status the copy has: at every write of the loop it is `RUNNING`, and at the
three last writes it is `BLOCKED`, `SUCCESS` or `FAILED`. A copy that was not `RUNNING` when it
was read gets no further than its first names.
-/

namespace FileExtractor

/-- `J` is kept by what the handler does to its copy. -/
structure CopyInvariant (J : Nat → DownloadTask → Prop) : Prop where
  weaken : ∀ {n t}, J n t → J 0 t
  heartbeat : ∀ {n t} (now : Time), t.status = .running → J n t →
    J n { t with lastHeartbeat := some now }
  received : ∀ {n t} (k : Nat), t.status = .running → J n t →
    J (n + k) { t with receivedFiles := t.receivedFiles + k }
  decreased : ∀ {n t}, t.status = .running → J n t → J 0 (t.decreaseReceived n)
  processed : ∀ {n t} (k : Nat), t.status = .running → J (k + n) t →
    J n { t with processedFiles := t.processedFiles + k }
  completed : ∀ {n t} (now : Time), t.status = .running → J n t →
    J 0 { t with status := .success, finishedAt := some now }
  failed : ∀ {n t} (error : String) (now : Time), t.status = .pending ∨ t.status = .running →
    J n t → J 0 { t with status := .failed, error := some error, finishedAt := some now }
  blocked : ∀ {n t} (until_ : Time) (reason error : String), t.status = .running → J n t →
    J 0 { t with
      status := .blocked, blockedUntil := some until_, blockReason := some reason,
      error := some error }

/-- `J` is kept by what the handler does to its copy at the time `now`. -/
structure KeptAt (now : Time) (J : Nat → DownloadTask → Prop) : Prop where
  heartbeat : ∀ {n t}, t.status = .running → J n t → J n { t with lastHeartbeat := some now }
  received : ∀ {n t} (k : Nat), t.status = .running → J n t →
    J (n + k) { t with receivedFiles := t.receivedFiles + k }
  decreased : ∀ {n t}, t.status = .running → J n t → J 0 (t.decreaseReceived n)
  processed : ∀ {n t} (k : Nat), t.status = .running → J (k + n) t →
    J n { t with processedFiles := t.processedFiles + k }
  completed : ∀ {n t}, t.status = .running → J n t →
    J 0 { t with status := .success, finishedAt := some now }
  failed : ∀ {n t} (error : String), t.status = .pending ∨ t.status = .running →
    J n t → J 0 { t with status := .failed, error := some error, finishedAt := some now }
  blocked : ∀ {n t} (r : Int) (until_ : Time) (reason error : String), t.status = .running →
    60 < r → addSeconds now r = some until_ → J n t → J 0 { t with
      status := .blocked, blockedUntil := some until_, blockReason := some reason,
      error := some error }

theorem CopyInvariant.keptAt {J : Nat → DownloadTask → Prop} (h : CopyInvariant J) (now : Time) :
    KeptAt now J where
  heartbeat := h.heartbeat now
  received := h.received
  decreased := h.decreased
  processed := h.processed
  completed := h.completed now
  failed error := h.failed error now
  blocked _ until_ reason error hs _ _ := h.blocked until_ reason error hs

/-- The identity of a copy never changes: its id, the worker and the number of its attempts. -/
theorem CopyInvariant.identity (P : TaskId → Option String → Int → Prop) :
    CopyInvariant fun _ t => P t.id t.workerId t.attempts where
  weaken h := h
  heartbeat _ _ h := h
  received _ _ h := h
  decreased _ h := h
  processed _ _ h := h
  completed _ _ h := h
  failed _ _ _ h := h
  blocked _ _ _ _ h := h

/-- So does its candidate. -/
theorem CopyInvariant.candidate (P : TaskId → String → Prop) :
    CopyInvariant fun _ t => P t.id t.candidateId where
  weaken h := h
  heartbeat _ _ h := h
  received _ _ h := h
  decreased _ h := h
  processed _ _ h := h
  completed _ _ h := h
  failed _ _ _ h := h
  blocked _ _ _ _ h := h

namespace Handler

/-- The frame of a state in which a batch is taken: from its download to its mark, and in its
cleanup. -/
def batchFrame : Handler → Option Frame
  | download f | extract f _ | storeHeartbeat f _ _ | checkExists f _ _ | upload f _ _ => some f
  | record f _ _ _ | mark f | deleteObject f _ _ _ _ | deleteRows f _ _ _ => some f
  | _ => none

/-- `J` at the names that are outstanding, and the status of the copy. -/
def Held (J : Nat → DownloadTask → Prop) : Handler → Prop
  | getTask | ended _ => True
  | names f => (f.task.status = .running ∨ f.pending = []) ∧ J f.pending.length f.task
  | storeReceived f | storeProcessed f => f.task.status = .running ∧ J f.pending.length f.task
  | download f | extract f _ | storeHeartbeat f _ _ | checkExists f _ _ | upload f _ _ =>
    f.task.status = .running ∧ J (f.batch.length + f.pending.length) f.task
  | record f _ _ _ | mark f | deleteObject f _ _ _ _ | deleteRows f _ _ _ =>
    f.task.status = .running ∧ J (f.batch.length + f.pending.length) f.task
  | storeBlocked f => f.task.status = .blocked ∧ J 0 f.task
  | storeSuccess f => f.task.status = .success ∧ J 0 f.task
  | storeFailed f => f.task.status = .failed ∧ J 0 f.task

variable {J : Nat → DownloadTask → Prop} {sha256 : Bytes → Digest} {now : Time} {f : Frame}
  {h h' : Handler} {command : ProcessFilesCommand}

theorem Held.batch {f : Frame} (hh : Held J h) (hf : h.batchFrame = some f) :
    f.task.status = .running ∧ J (f.batch.length + f.pending.length) f.task := by
  cases h <;> simp only [batchFrame, Option.some.injEq, reduceCtorEq] at hf <;> subst hf <;>
    exact hh

section Steps

variable (hJ : KeptAt now J)
include hJ

theorem held_failTask {n : Nat} (e : Exn) (hj : J n f.task) : Held J (failTask now f e) := by
  unfold failTask
  split
  · next t ht =>
    obtain ⟨hs, rfl⟩ := DownloadTask.fail_returned ht
    exact ⟨rfl, hJ.failed _ hs hj⟩
  · trivial

/-- A copy that a raising `block` has left `BLOCKED` cannot fail either. -/
theorem held_handleBlock {n : Nat} (r : Int) (hj : J n f.task) : Held J (handleBlock now f r) := by
  unfold handleBlock
  split
  · exact held_failTask hJ _ hj
  next hr =>
  split
  · next t ht =>
    obtain ⟨hs, u, err, hu, rfl⟩ := DownloadTask.block_returned ht
    exact ⟨rfl, hJ.blocked r u _ _ hs (Int.not_le.mp hr) hu hj⟩
  · next e t ht =>
    by_cases hs : f.task.status = .running
    · rw [DownloadTask.block_raised hs ht]
      simp [failTask, DownloadTask.fail, Held]
    · rw [DownloadTask.block_raised_of_not_running hs ht]
      exact held_failTask hJ e hj

theorem held_complete {n : Nat} (hj : J n f.task) : Held J (complete now f) := by
  unfold complete
  split
  · next t ht =>
    obtain ⟨hs, rfl⟩ := DownloadTask.complete_returned ht
    exact ⟨rfl, hJ.completed hs hj⟩
  · next e t ht =>
    obtain rfl := DownloadTask.complete_raised ht
    exact held_failTask hJ e hj

omit hJ in
theorem held_nextBatch (hs : f.task.status = .running) (hj : J f.pending.length f.task) :
    Held J (nextBatch f) := by
  refine ⟨hs, ?_⟩
  have e : (f.pending.take 3).length + (f.pending.drop 3).length = f.pending.length := by
    rw [← List.length_append, List.take_append_drop]
  show J ((f.pending.take 3).length + (f.pending.drop 3).length) f.task
  rw [e]; exact hj

omit hJ in
theorem held_loopHead (hs : f.task.status = .running ∨ f.pending = [])
    (hj : J f.pending.length f.task) : Held J (loopHead f) := by
  unfold loopHead
  split
  · exact ⟨hs, hj⟩
  · next hl =>
    refine held_nextBatch (hs.resolve_right fun e => hl ?_) hj
    rw [e]; decide

theorem held_gotNames (fileNames : List String)
    (hs : f.task.status = .running ∨ f.pending = []) (hj : J f.pending.length f.task) :
    Held J (gotNames now f fileNames) := by
  unfold gotNames
  split
  · split
    · exact held_complete hJ hj
    · next hp => exact held_nextBatch (hs.resolve_right hp) hj
  · dsimp only
    split
    · next t ht =>
      obtain ⟨hs, rfl⟩ := DownloadTask.increaseReceived_returned ht
      refine ⟨hs, ?_⟩
      simp only [List.length_append]
      exact hJ.received _ hs hj
    · next e t ht =>
      obtain rfl := DownloadTask.increaseReceived_raised ht
      exact held_failTask hJ e hj

theorem held_afterCleanup (e : Exn) (hs : f.task.status = .running)
    (hj : J (f.batch.length + f.pending.length) f.task) : Held J (afterCleanup now f e) := by
  have h0 : J 0 (f.task.decreaseReceived (f.batch.length + f.pending.length)) := by
    have := hJ.decreased hs hj
    rwa [Int.natCast_add] at this
  unfold afterCleanup
  split
  · exact held_handleBlock hJ _ h0
  · exact held_failTask hJ _ h0

theorem held_cleanupBatchFiles (e : Exn) (todo : List File) (hs : f.task.status = .running)
    (hj : J (f.batch.length + f.pending.length) f.task) :
    Held J (cleanupBatchFiles now f e todo) := by
  induction todo with
  | nil => exact held_afterCleanup hJ e hs hj
  | cons file todo ih =>
    unfold cleanupBatchFiles
    split
    · exact ih
    · exact ⟨hs, hj⟩

theorem held_failBatch (e : Exn) (hs : f.task.status = .running)
    (hj : J (f.batch.length + f.pending.length) f.task) : Held J (failBatch now f e) :=
  held_cleanupBatchFiles hJ e _ hs hj

theorem held_maybeHeartbeat (extracted : ExtractedFile) (rest : List ExtractedFile)
    (hs : f.task.status = .running) (hj : J (f.batch.length + f.pending.length) f.task) :
    Held J (maybeHeartbeat now f extracted rest) := by
  unfold maybeHeartbeat
  split
  · rw [DownloadTask.heartbeat_of_running hs]
    exact ⟨hs, hJ.heartbeat hs hj⟩
  · exact ⟨hs, hj⟩

theorem held_uploaded (fileId : FileId) (extracted : ExtractedFile) (rest : List ExtractedFile)
    (hs : f.task.status = .running) (hj : J (f.batch.length + f.pending.length) f.task) :
    Held J (uploaded sha256 now f fileId extracted rest) := by
  unfold uploaded
  split
  · exact ⟨hs, hj⟩
  · exact held_failBatch hJ _ hs hj

theorem held_marked (hs : f.task.status = .running)
    (hj : J (f.batch.length + f.pending.length) f.task) : Held J (marked now f) := by
  unfold marked
  rw [DownloadTask.increaseProcessed_of_running hs]
  exact ⟨hs, hJ.processed _ hs hj⟩

/-- **One step of the handler.** The task that it reads has to satisfy `J` with nothing
outstanding. -/
theorem Held.resume_at {a : Except Exn Answer} (hh : Held J h)
    (hread : ∀ t, a = .ok (.task (some t)) → J 0 t) (h' : Handler)
    (hr : h.resume sha256 now a = some h') : Held J h' := by
  unfold Handler.resume at hr
  split at hr <;> simp only [Option.some.injEq, reduceCtorEq] at hr <;> subst hr
  · trivial
  · exact held_loopHead (.inr rfl) (hread _ rfl)
  · trivial
  · exact held_gotNames hJ _ hh.1 hh.2
  · exact held_handleBlock hJ _ hh.2
  · exact held_failTask hJ _ hh.2
  · exact held_nextBatch hh.1 hh.2
  · exact held_failTask hJ _ hh.2
  · exact hh
  · exact held_failBatch hJ _ hh.1 hh.2
  · exact hh
  · exact held_maybeHeartbeat hJ _ _ hh.1 hh.2
  · exact held_failBatch hJ _ hh.1 hh.2
  · exact hh
  · exact held_failBatch hJ _ hh.1 hh.2
  · exact hh
  · exact hh
  · exact held_failBatch hJ _ hh.1 hh.2
  · exact held_uploaded hJ _ _ _ hh.1 hh.2
  · exact held_failBatch hJ _ hh.1 hh.2
  · exact hh
  · exact held_failBatch hJ _ hh.1 hh.2
  · exact held_marked hJ hh.1 hh.2
  · exact held_failBatch hJ _ hh.1 hh.2
  · exact held_loopHead (.inl hh.1) hh.2
  · exact held_failTask hJ _ hh.2
  · exact hh
  · exact hh
  · exact held_cleanupBatchFiles hJ _ _ hh.1 hh.2
  · exact held_cleanupBatchFiles hJ _ _ hh.1 hh.2
  · trivial
  · exact held_failTask hJ _ hh.2
  · trivial
  · exact held_failTask hJ _ hh.2
  · trivial
  · trivial

end Steps

theorem Held.resume (hJ : CopyInvariant J) {a : Except Exn Answer} (hh : Held J h)
    (hread : ∀ t, a = .ok (.task (some t)) → J 0 t) (h' : Handler)
    (hr : h.resume sha256 now a = some h') : Held J h' :=
  hh.resume_at (hJ.keptAt now) hread h' hr

/-- A handler that gets a task was waiting for the first read. -/
theorem resume_task {t : Option DownloadTask} (hr : h.resume sha256 now (.ok (.task t)) = some h') :
    h = getTask := by
  cases h <;> simp_all [Handler.resume]

theorem Held.imp {J' : Nat → DownloadTask → Prop} (hh : Held J h)
    (hJ : ∀ n t, J n t → J' n t) : Held J' h := by
  cases h <;> first | trivial | exact ⟨hh.1, hJ _ _ hh.2⟩

/-- What a handler writes is its copy, which is never `PENDING`. -/
theorem Held.written {t : DownloadTask} (hh : Held J h)
    (hc : h.call command = some (.updateTask t)) : (∃ n, J n t) ∧ t.status ≠ .pending := by
  cases h <;> simp only [call, Option.some.injEq, Call.updateTask.injEq, reduceCtorEq] at hc <;>
    subst hc
  all_goals
    obtain ⟨hs, hj⟩ := hh
    exact ⟨⟨_, hj⟩, by rw [hs]; decide⟩

/-- What a handler writes satisfies `J`, and it never writes `PENDING`. -/
theorem Held.stored (hJ : CopyInvariant J) {t : DownloadTask} (hh : Held J h)
    (hc : h.call command = some (.updateTask t)) : J 0 t ∧ t.status ≠ .pending := by
  obtain ⟨⟨n, hj⟩, hs⟩ := hh.written hc
  exact ⟨hJ.weaken hj, hs⟩

/-- `SUCCESS` is written in one place. -/
theorem Held.stored_success {t : DownloadTask} (hh : Held J h)
    (hc : h.call command = some (.updateTask t)) (hs : t.status = .success) :
    ∃ f, h = storeSuccess f := by
  cases h <;> simp only [call, Option.some.injEq, Call.updateTask.injEq, reduceCtorEq] at hc <;>
    subst hc
  case storeSuccess f => exact ⟨f, rfl⟩
  all_goals
    have hst := hh.1
    rw [hs] at hst
    cases hst

/-- After a write of another status than `RUNNING` the handler ends, whatever the reply is. -/
theorem Held.ends {t : DownloadTask} {a : Except Exn Answer} (hh : Held J h)
    (hc : h.call command = some (.updateTask t)) (hs : t.status ≠ .running)
    (hr : h.resume sha256 now a = some h') : h'.isEnded = true := by
  cases h <;> simp only [call, Option.some.injEq, Call.updateTask.injEq, reduceCtorEq] at hc <;>
    subst hc
  case storeReceived => exact absurd hh.1 hs
  case storeHeartbeat => exact absurd hh.1 hs
  case storeProcessed => exact absurd hh.1 hs
  all_goals
    unfold Handler.resume at hr
    split at hr <;> simp only [Option.some.injEq, reduceCtorEq] at hr <;> subst hr <;>
      simp_all [Held, failTask, DownloadTask.fail, isEnded]

end Handler

end FileExtractor
