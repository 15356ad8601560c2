import FileExtractor.Application.TaskCopy
import FileExtractor.Application.Transitions

/-!
# The code after an answer and after an exception

For a copy that is `RUNNING` the code from one `await` to the next one has no branch on its status.
`Answered` lists where it goes from an answer, and `Failed` where it goes from an exception, each
with the whole frame that it leaves; `resume_answered` and `resume_failed` read a `resume` as one of
them. `Ending` is what the code makes of an exception in the end, and `Cleaning` how it gets there
through the files of a batch; `blockOf` is the `Retry-After` that `_handle_block` gets.
-/

namespace FileExtractor

/-- The copy after `fail`, `complete` and `block` of a running task. -/
def DownloadTask.asFailed (error : String) (now : Time) (t : DownloadTask) : DownloadTask :=
  { t with status := .failed, error := some error, finishedAt := some now }

def DownloadTask.asCompleted (now : Time) (t : DownloadTask) : DownloadTask :=
  { t with status := .success, finishedAt := some now }

def DownloadTask.asBlocked (until_ : Time) (reason : String) (t : DownloadTask) :
    DownloadTask :=
  { t with
    status := .blocked
    blockedUntil := some until_
    blockReason := some reason
    error := some (if reason = "" then "External API block" else "External API block: " ++ reason) }

namespace Handler

variable {sha256 : Bytes → Digest} {now : Time} {f : Frame} {h h' : Handler}

/-- The frame of a state before the ends of `execute`. -/
def frame : Handler → Option Frame
  | names f | storeReceived f | storeProcessed f => some f
  | download f | extract f _ | storeHeartbeat f _ _ | checkExists f _ _ | upload f _ _ => some f
  | record f _ _ _ | mark f | deleteObject f _ _ _ _ | deleteRows f _ _ _ => some f
  | getTask | storeBlocked _ | storeSuccess _ | storeFailed _ | ended _ => none

/-- The frame of a state in which a batch is handled: from its download to its mark. -/
def batching : Handler → Option Frame
  | download f | extract f _ | storeHeartbeat f _ _ | checkExists f _ _ | upload f _ _ => some f
  | record f _ _ _ | mark f => some f
  | _ => none

/-- The await of the transaction that adds a file. -/
def recording : Handler → Bool
  | record _ _ _ _ => true
  | _ => false

/-- The name of the file whose object is uploaded or whose rows are added. -/
def storing : Handler → Option String
  | upload _ extracted _ => some extracted.filename
  | record _ file _ _ => some file.filename
  | _ => none

/-- The states that are reached after an exception only. -/
def recovering : Handler → Bool
  | deleteObject _ _ _ _ _ | deleteRows _ _ _ _ | storeBlocked _ | storeFailed _ => true
  | _ => false

/-- The copy is `RUNNING` up to the ends of `execute`. -/
def Running (h : Handler) : Prop := ∀ f, h.frame = some f → f.task.status = .running

theorem Held.of_frame {J : Nat → DownloadTask → Prop} (hh : h.Held J) (hf : h.frame = some f) :
    ∃ n, J n f.task := by
  cases h <;> first | (cases hf; exact ⟨_, hh.2⟩) | cases hf

/-- A run is at its start, before its end, or at one of the last writes. -/
theorem frame_cases (h : Handler) (he : h.isEnded = false) : h = getTask ∨
    (∃ f, h.frame = some f) ∨ ∃ f, h = storeBlocked f ∨ h = storeSuccess f ∨ h = storeFailed f := by
  cases h with
  | getTask => exact .inl rfl
  | ended => cases he
  | storeBlocked f => exact .inr (.inr ⟨f, .inl rfl⟩)
  | storeSuccess f => exact .inr (.inr ⟨f, .inr (.inl rfl)⟩)
  | storeFailed f => exact .inr (.inr ⟨f, .inr (.inr rfl)⟩)
  | _ => exact .inr (.inl ⟨_, rfl⟩)

theorem isEnded_of_not_closing (hc : h.isClosing = false) : h.isEnded = false := by
  cases h <;> first | rfl | cases hc

/-- What a handler writes before its end is the copy. -/
theorem call_frame {command : ProcessFilesCommand} {t : DownloadTask}
    (hc : h.call command = some (.updateTask t)) (hf : h.frame = some f) : t = f.task := by
  cases h <;> simp only [call, Option.some.injEq, Call.updateTask.injEq, reduceCtorEq] at hc <;>
    simp only [frame, Option.some.injEq, reduceCtorEq] at hf <;> rw [← hc, hf]

/-- The files that a handler has stored or is about to record have their own keys. -/
def Keyed (h : Handler) : Prop :=
  ∀ file, (file ∈ h.batchFiles ∨ ∃ f fileHash rest, h = record f file fileHash rest) →
    file.storageKey = some (storageKey file.filename)

/-! ## The ends of `execute` -/

/-- What the code makes of an exception: the task fails, or it is blocked; where `blocked_until`
overflows, `block` raises, and `fail` raises on the copy that `block` has left `BLOCKED`. -/
inductive Ending (now : Time) (f : Frame) : Exn → Handler → Prop where
  | failed (e : Exn) (he : ∀ r, e = .blocked r → r ≤ 60) :
      Ending now f e (storeFailed { f with task := f.task.asFailed e.str now })
  | blocked (r : Int) (u : Time) (hr : 60 < r) (hu : addSeconds now r = some u) :
      Ending now f (.blocked r)
        (storeBlocked { f with task := f.task.asBlocked u (Exn.blocked r).str })
  | overflow (r : Int) (e : Exn) (hr : 60 < r) (hu : addSeconds now r = none) :
      Ending now f (.blocked r) (ended (some e))

/-- The frame of a batch that is given up. -/
def giveBack (f : Frame) : Frame :=
  { f with task := f.task.decreaseReceived (f.batch.length + f.pending.length) }

/-- The cleanup of the files of a batch, for the exception `e`. -/
inductive Cleaning (now : Time) (f : Frame) (e : Exn) : List File → Handler → Prop where
  | file (file : File) (todo : List File) :
      Cleaning now f e (file :: todo) (deleteObject f e (storageKey file.filename) file todo)
  | finished (h : Handler) (hE : Ending now (giveBack f) e h) : Cleaning now f e [] h

theorem failTask_running (e : Exn) (hs : f.task.status = .running) :
    failTask now f e = storeFailed { f with task := f.task.asFailed e.str now } := by
  simp [failTask, DownloadTask.fail, DownloadTask.asFailed, hs]

/-- A copy that is past its end cannot fail any more. -/
theorem failTask_over (now : Time) (f : Frame) (e : Exn) (hp : f.task.status ≠ .pending)
    (hs : f.task.status ≠ .running) :
    ∃ e', failTask now f e = ended (some e') := by
  simp [failTask, DownloadTask.fail, hp, hs]

theorem ending_failTask {e : Exn} (hs : f.task.status = .running) (he : ∀ r, e ≠ .blocked r) :
    Ending now f e (failTask now f e) := by
  rw [failTask_running e hs]
  exact .failed e fun r hr => absurd hr (he r)

theorem ending_handleBlock (r : Int) (hs : f.task.status = .running) :
    Ending now f (.blocked r) (handleBlock now f r) := by
  unfold handleBlock
  split
  · next hr =>
    rw [failTask_running _ hs]
    exact .failed _ fun r' e => by cases e; exact hr
  · next hr =>
    rw [DownloadTask.block, DownloadTask.whenRunning_of_running hs]
    have hlt : 60 < r := Int.not_le.mp hr
    cases hu : addSeconds now r with
    | none =>
      obtain ⟨e, he⟩ := failTask_over now { f with task := { f.task with status := .blocked } }
        .overflow (by simp) (by simp)
      simp only [he]
      exact .overflow r e hlt hu
    | some u => exact .blocked r u hlt hu

theorem cleaning_cleanupBatchFiles (e : Exn) {files : List File} (hs : f.task.status = .running)
    (hk : ∀ file ∈ files, file.storageKey = some (storageKey file.filename)) :
    Cleaning now f e files (cleanupBatchFiles now f e files) := by
  cases files with
  | nil =>
    refine .finished _ ?_
    show Ending now (giveBack f) e (afterCleanup now f e)
    cases e with
    | blocked r => exact ending_handleBlock r hs
    | _ => exact ending_failTask hs fun _ h => by cases h
  | cons file todo =>
    simp only [cleanupBatchFiles, hk file List.mem_cons_self]
    exact .file file todo

/-! ## The answers -/

/-- Where the code goes from the answer to the awaited call. -/
inductive Answered (sha256 : Bytes → Digest) (now : Time) : Handler → Answer → Handler → Prop where
  | started (t : DownloadTask) : Answered sha256 now getTask (.task (some t)) (names (.start t))
  | absent : Answered sha256 now getTask (.task none) (ended none)
  | named (f : Frame) (fileNames : List String) (hn : fileNames ≠ []) :
      Answered sha256 now (names f) (.names fileNames) (storeReceived { f with
        pending := f.pending ++ fileNames
        task := { f.task with receivedFiles := f.task.receivedFiles + fileNames.length } })
  | leftover (f : Frame) (hp : f.pending ≠ []) :
      Answered sha256 now (names f) (.names []) (nextBatch f)
  | completed (f : Frame) (hp : f.pending = []) : Answered sha256 now (names f) (.names [])
      (storeSuccess { f with task := f.task.asCompleted now })
  | received (f : Frame) : Answered sha256 now (storeReceived f) .done (nextBatch f)
  | downloaded (f : Frame) (archive : Archive) :
      Answered sha256 now (download f) (.archive archive) (extract f (extractStream archive))
  | exhausted (f : Frame) : Answered sha256 now (extract f []) .next (mark f)
  | beating (f : Frame) (extracted : ExtractedFile) (rest : List ExtractedFile)
      (hc : f.heartbeatCounter % heartbeatInterval = 0) :
      Answered sha256 now (extract f (extracted :: rest)) .next
        (storeHeartbeat { f with task := { f.task with lastHeartbeat := some now } } extracted rest)
  | entered (f : Frame) (extracted : ExtractedFile) (rest : List ExtractedFile)
      (hc : f.heartbeatCounter % heartbeatInterval ≠ 0) :
      Answered sha256 now (extract f (extracted :: rest)) .next (countEntry f extracted rest)
  | beaten (f : Frame) (extracted : ExtractedFile) (rest : List ExtractedFile) :
      Answered sha256 now (storeHeartbeat f extracted rest) .done (countEntry f extracted rest)
  | skipped (f : Frame) (extracted : ExtractedFile) (rest : List ExtractedFile) :
      Answered sha256 now (checkExists f extracted rest) (.found true) (extract f rest)
  | missed (f : Frame) (extracted : ExtractedFile) (rest : List ExtractedFile) :
      Answered sha256 now (checkExists f extracted rest) (.found false) (upload f extracted rest)
  | uploaded (f : Frame) (extracted : ExtractedFile) (rest : List ExtractedFile)
      (fileId : FileId) :
      Answered sha256 now (upload f extracted rest) (.stored fileId)
        (record f (storedFile sha256 now fileId extracted)
          (FileHash.compute sha256 extracted.content) rest)
  | recorded (f : Frame) (file : File) (fileHash : FileHash) (rest : List ExtractedFile) :
      Answered sha256 now (record f file fileHash rest) .done
        (extract { f with batchFileEntities := f.batchFileEntities ++ [file] } rest)
  | marked (f : Frame) : Answered sha256 now (mark f) .done (storeProcessed { f with
      task := { f.task with processedFiles := f.task.processedFiles + f.batch.length } })
  | asking (f : Frame) (hp : f.pending.length < 3) :
      Answered sha256 now (storeProcessed f) .done (names f)
  | again (f : Frame) (hp : 3 ≤ f.pending.length) :
      Answered sha256 now (storeProcessed f) .done (nextBatch f)
  | objectDeleted (f : Frame) (e : Exn) (key : String) (file : File) (todo : List File) :
      Answered sha256 now (deleteObject f e key file todo) .done (deleteRows f e file todo)
  | rowsDeleted (f : Frame) (e : Exn) (file : File) (todo : List File) (h : Handler)
      (hc : Cleaning now f e todo h) : Answered sha256 now (deleteRows f e file todo) .done h
  | closed (f : Frame) (h : Handler)
      (hh : h = storeBlocked f ∨ h = storeSuccess f ∨ h = storeFailed f) :
      Answered sha256 now h .done (ended none)

/-- **The code after an answer.** -/
theorem resume_answered {a : Answer} (hrun : h.Running) (hk : h.Keyed)
    (hr : h.resume sha256 now (.ok a) = some h') : Answered sha256 now h a h' := by
  cases h <;> cases a <;> simp only [resume, Option.some.injEq, reduceCtorEq] at hr
  case getTask.task t =>
    cases t <;> cases hr
    · exact .absent
    · exact .started _
  case names.names f fileNames =>
    have hs : f.task.status = .running := hrun f rfl
    subst hr
    unfold gotNames
    split
    · next hn =>
      subst hn
      split
      · next hp =>
        rw [complete, DownloadTask.complete_of_running hs]
        exact .completed f hp
      · next hp => exact .leftover f hp
    · next hn =>
      simp only [DownloadTask.increaseReceived_of_running hs]
      exact .named f fileNames hn
  case storeReceived.done f => exact hr ▸ .received f
  case download.archive f archive => exact hr ▸ .downloaded f archive
  case extract.next f rest =>
    cases rest with
    | nil => cases hr; exact .exhausted f
    | cons extracted rest =>
      have hs : f.task.status = .running := hrun f rfl
      replace hr : maybeHeartbeat now f extracted rest = h' := Option.some.inj hr
      subst hr
      unfold maybeHeartbeat
      split
      · next hc =>
        rw [DownloadTask.heartbeat_of_running hs]
        exact .beating f extracted rest hc
      · next hc => exact .entered f extracted rest hc
  case storeHeartbeat.done f extracted rest => exact hr ▸ .beaten f extracted rest
  case checkExists.found f extracted rest found =>
    cases found <;> cases hr
    · exact .missed f extracted rest
    · exact .skipped f extracted rest
  case upload.stored f extracted rest fileId => exact hr ▸ .uploaded f extracted rest fileId
  case record.done f file fileHash rest => exact hr ▸ .recorded f file fileHash rest
  case mark.done f =>
    subst hr
    rw [marked, DownloadTask.increaseProcessed_of_running (hrun f rfl)]
    exact .marked f
  case storeProcessed.done f =>
    subst hr
    unfold loopHead
    split
    · next hp => exact .asking f hp
    · next hp => exact .again f (Nat.not_lt.mp hp)
  case deleteObject.done f e key file todo => exact hr ▸ .objectDeleted f e key file todo
  case deleteRows.done f e file todo =>
    subst hr
    exact .rowsDeleted f e file todo _
      (cleaning_cleanupBatchFiles e (hrun f rfl)
        fun x hx => hk x (.inl (List.mem_cons_of_mem _ hx)))
  case storeBlocked.done f => exact hr ▸ .closed f _ (.inl rfl)
  case storeSuccess.done f => exact hr ▸ .closed f _ (.inr (.inl rfl))
  case storeFailed.done f => exact hr ▸ .closed f _ (.inr (.inr rfl))

/-- A file is stored after its existence check: the object first, and then the rows. -/
theorem Answered.storing {a : Answer} {name : String} (ha : Answered sha256 now h a h')
    (hr : h.recovering = false) (hn : h'.storing = some name) :
    (∃ f extracted rest, h = checkExists f extracted rest ∧ a = .found false ∧
      h' = upload f extracted rest ∧ extracted.filename = name) ∨
    ∃ f extracted rest fileId, h = upload f extracted rest ∧ a = .stored fileId ∧
      h' = record f (storedFile sha256 now fileId extracted)
        (FileHash.compute sha256 extracted.content) rest ∧ extracted.filename = name := by
  cases ha with
  | missed f extracted rest => exact .inl ⟨f, extracted, rest, rfl, rfl, rfl, Option.some.inj hn⟩
  | uploaded f extracted rest fileId =>
    exact .inr ⟨f, extracted, rest, fileId, rfl, rfl, rfl, Option.some.inj hn⟩
  | rowsDeleted => cases hr
  | _ => cases hn

/-- After an upload its file is to be recorded. -/
theorem Answered.of_upload {f : Frame} {extracted : ExtractedFile} {rest : List ExtractedFile}
    {a : Answer} (ha : Answered sha256 now (upload f extracted rest) a h') :
    ∃ fileId, a = .stored fileId ∧ h' = record f (storedFile sha256 now fileId extracted)
      (FileHash.compute sha256 extracted.content) rest := by
  cases ha with
  | uploaded f extracted rest fileId => exact ⟨fileId, rfl, rfl⟩
  | closed f h hh => simp at hh

/-- A file that is recorded is one of the batch. -/
theorem Answered.of_record {f : Frame} {file : File} {fileHash : FileHash}
    {rest : List ExtractedFile} {a : Answer}
    (ha : Answered sha256 now (record f file fileHash rest) a h') :
    a = .done ∧
      h' = extract { f with batchFileEntities := f.batchFileEntities ++ [file] } rest := by
  cases ha with
  | recorded => exact ⟨rfl, rfl⟩
  | closed f h hh => simp at hh

/-- Only an exception starts a cleanup. -/
theorem Answered.recovering {a : Answer} (ha : Answered sha256 now h a h')
    (hr : h'.recovering = true) : h.recovering = true := by
  cases ha with
  | objectDeleted | rowsDeleted => rfl
  | _ => cases hr

/-! ## The exceptions -/

/-- Where the code goes from an exception of the awaited call. -/
inductive Failed (now : Time) : Handler → Exn → Handler → Prop where
  | unread (e : Exn) : Failed now getTask e (ended (some e))
  | names (f : Frame) (e : Exn) (h : Handler) (hE : Ending now f e h) : Failed now (names f) e h
  | storing (f : Frame) (h : Handler) (hh : h = storeReceived f ∨ h = storeProcessed f) (e : Exn) :
      Failed now h e (storeFailed { f with task := f.task.asFailed e.str now })
  | batch (f : Frame) (h : Handler) (hh : h.batching = some f) (e : Exn) (h' : Handler)
      (hc : Cleaning now f e f.batchFileEntities h') : Failed now h e h'
  | object (f : Frame) (e : Exn) (key : String) (file : File) (todo : List File) (e' : Exn) :
      Failed now (deleteObject f e key file todo) e' (deleteRows f e file todo)
  | rows (f : Frame) (e : Exn) (file : File) (todo : List File) (e' : Exn) (h : Handler)
      (hc : Cleaning now f e todo h) : Failed now (deleteRows f e file todo) e' h
  | closing (f : Frame) (h : Handler) (hh : h = storeBlocked f ∨ h = storeSuccess f) (e : Exn) :
      Failed now h e (failTask now f e)
  | unstored (f : Frame) (e : Exn) : Failed now (storeFailed f) e (ended (some e))

/-- **The code after an exception.** -/
theorem resume_failed {e : Exn} (hrun : h.Running) (hk : h.Keyed)
    (hr : h.resume sha256 now (.error e) = some h') : Failed now h e h' := by
  cases h <;> simp only [resume, Option.some.injEq, reduceCtorEq] at hr
  case getTask => exact hr ▸ .unread e
  case names f =>
    have hs : f.task.status = .running := hrun f rfl
    refine .names f e h' ?_
    cases e with
    | blocked r => cases hr; exact ending_handleBlock r hs
    | _ => cases hr; exact ending_failTask hs fun _ h => by cases h
  case storeReceived f =>
    rw [failTask_running e (hrun f rfl)] at hr
    exact hr ▸ .storing f _ (.inl rfl) e
  case storeProcessed f =>
    rw [failTask_running e (hrun f rfl)] at hr
    exact hr ▸ .storing f _ (.inr rfl) e
  case deleteObject f e' key file todo => exact hr ▸ .object f e' key file todo e
  case deleteRows f e' file todo =>
    subst hr
    exact .rows f e' file todo e _
      (cleaning_cleanupBatchFiles e' (hrun f rfl)
        fun x hx => hk x (.inl (List.mem_cons_of_mem _ hx)))
  case storeBlocked f => exact hr ▸ .closing f _ (.inl rfl) e
  case storeSuccess f => exact hr ▸ .closing f _ (.inr rfl) e
  case storeFailed f => exact hr ▸ .unstored f e
  -- the states of a batch
  all_goals
    subst hr
    exact .batch _ _ rfl e _
      (cleaning_cleanupBatchFiles e (hrun _ rfl) fun x hx => hk x (.inl hx))

/-! ## The block that is handled -/

/-- The `Retry-After` that `_handle_block` gets after this answer: that of a 403 to the names, or of
a 403 in a batch when its last file has been cleaned up. -/
def blockOf : Handler → Except Exn Answer → Option Int
  | names _, .error (.blocked r) => some r
  | deleteRows _ (.blocked r) _ [], _ => some r
  | h, .error (.blocked r) =>
    if h.batching.any fun f => f.batchFileEntities.isEmpty then some r else none
  | _, _ => none

/-- **It decides the end** of the run. -/
theorem ending_blockOf {a : Except Exn Answer} {r : Int} (hrun : h.Running) (hk : h.Keyed)
    (hr : h.resume sha256 now a = some h') (hb : h.blockOf a = some r) :
    ∃ f, Ending now f (.blocked r) h' := by
  unfold blockOf at hb
  split at hb
  · next f r' =>
    cases hb
    cases resume_failed hrun hk hr with
    | names f e h hE => exact ⟨f, hE⟩
    | storing f h hh => simp at hh
    | batch f h hh => cases hh
    | closing f h hh => simp at hh
  · next x f r' file =>
    cases hb
    have hcleaning : Cleaning now f (.blocked r) [] h' := by
      cases a with
      | ok a =>
        cases resume_answered hrun hk hr with
        | rowsDeleted f e file todo h hc => exact hc
        | closed f h hh => simp at hh
      | error e =>
        cases resume_failed hrun hk hr with
        | rows f e file todo e' h hc => exact hc
        | storing f h hh => simp at hh
        | batch f h hh => cases hh
        | closing f h hh => simp at hh
    cases hcleaning with
    | finished h hE => exact ⟨_, hE⟩
  · next h r' hn hd =>
    split at hb
    · next hany =>
      cases hb
      obtain ⟨f, hf, hempty⟩ := (Option.any_eq_true ..).mp hany
      obtain ⟨f', hc⟩ : ∃ f', Cleaning now f' (.blocked r) f.batchFileEntities h' := by
        cases resume_failed hrun hk hr with
        | batch f' h hh e h' hc => rw [hf] at hh; cases hh; exact ⟨_, hc⟩
        | storing f' h hh => rcases hh with rfl | rfl <;> cases hf
        | closing f' h hh => rcases hh with rfl | rfl <;> cases hf
        | _ => cases hf
      rw [List.isEmpty_iff.mp hempty] at hc
      cases hc with
      | finished h hE => exact ⟨_, hE⟩
    · cases hb
  · cases hb

theorem batching_frame (hb : h.batching = some f) : h.frame = some f := by
  cases h <;> first | exact hb | cases hb

theorem blockOf_frame {a : Except Exn Answer} {r : Int} (hb : h.blockOf a = some r) :
    ∃ f, h.frame = some f := by
  unfold blockOf at hb
  split at hb
  · exact ⟨_, rfl⟩
  · exact ⟨_, rfl⟩
  · split at hb
    · next hany =>
      obtain ⟨f, hf, -⟩ := (Option.any_eq_true ..).mp hany
      exact ⟨f, batching_frame hf⟩
    · cases hb
  · cases hb

theorem blockOf_batch {r : Int} (hb : h.batching = some f) (hf : f.batchFileEntities = []) :
    h.blockOf (.error (.blocked r)) = some r := by
  have hany : (h.batching.any fun f => f.batchFileEntities.isEmpty) = true := by
    rw [hb]; simp [hf]
  cases h <;> exact if_pos hany

/-- A run ends at its start, after one of the last writes, or with a block that overflows. -/
theorem ended_cases {a : Except Exn Answer} (hrun : h.Running) (hk : h.Keyed)
    (hr : h.resume sha256 now a = some h') (he : h'.isEnded = true) : h = getTask ∨
      (∃ f, h = storeBlocked f ∨ h = storeSuccess f ∨ h = storeFailed f) ∨
      ∃ r, h.blockOf a = some r ∧ 60 < r ∧ addSeconds now r = none := by
  have hending : ∀ {f e}, Ending now f e h' → (∀ r, e = .blocked r → h.blockOf a = some r) →
      ∃ r, h.blockOf a = some r ∧ 60 < r ∧ addSeconds now r = none := by
    intro f e hE hb
    cases hE with
    | failed e he' => cases he
    | blocked r u hlt hu => cases he
    | overflow r e' hlt hu => exact ⟨r, hb r rfl, hlt, hu⟩
  have hcleaning : ∀ {f e files}, Cleaning now f e files h' →
      (∀ r, files = [] → e = .blocked r → h.blockOf a = some r) →
      ∃ r, h.blockOf a = some r ∧ 60 < r ∧ addSeconds now r = none := by
    intro f e files hc hb
    cases hc with
    | file file todo => cases he
    | finished h hE => exact hending hE fun r => hb r rfl
  cases a with
  | ok a =>
    cases resume_answered hrun hk hr with
    | absent => exact .inl rfl
    | rowsDeleted f e file todo h hc =>
      refine .inr (.inr (hcleaning hc fun r hf hb => ?_))
      rw [hf, hb]; rfl
    | closed f h hh => exact .inr (.inl ⟨f, hh⟩)
    | _ => cases he
  | error e =>
    cases resume_failed hrun hk hr with
    | unread e => exact .inl rfl
    | names f e h hE => exact .inr (.inr (hending hE fun r hb => by rw [hb]; rfl))
    | batch f h hh e h' hc =>
      exact .inr (.inr (hcleaning hc fun r hf hb => hb ▸ blockOf_batch hh hf))
    | rows f e file todo e' h hc =>
      refine .inr (.inr (hcleaning hc fun r hf hb => ?_))
      rw [hf, hb]; rfl
    | closing f h hh e => exact .inr (.inl ⟨f, hh.imp_right .inl⟩)
    | unstored f e => exact .inr (.inl ⟨f, .inr (.inr rfl)⟩)
    | _ => cases he

end Handler

end FileExtractor
