import FileExtractor.Application.ProcessFiles

/-!
# The transitions of the handler

`Handler.Next h a h'` lists where the code goes from the await `h` with the answer `a`, one
constructor for each arrow of the control flow; `Handler.resume_next` reads a `resume` as one of
them. What happens to the copy of the task on the way is left to the invariants of the copy, but for
its last heartbeat: this and the counter of the entries are the `pulse` of a frame. Two frames of
one batch differ in the copy and in the pulse only (`Frame.SameBatch`).

The code leaves a batch by its mark or by its cleanup. `toClean` is the list that a cleanup which
begins in a state walks, and `batchFiles` are the files that the handler may still clean up: the
list grows only by the file of a `record` that was answered (`Next.batchFiles`).
-/

namespace FileExtractor

/-- Two frames of one batch. -/
structure Frame.SameBatch (f f' : Frame) : Prop where
  batch : f'.batch = f.batch
  files : f'.batchFileEntities = f.batchFileEntities

/-- The last heartbeat of the copy, and `heartbeat_counter`. -/
def Frame.pulse (f : Frame) : Option Time × Nat := (f.task.lastHeartbeat, f.heartbeatCounter)

namespace Handler

/-- The awaits that end `execute`, except the one of a success. -/
def isClosing : Handler → Bool
  | storeBlocked _ | storeFailed _ | ended _ => true
  | _ => false

/-- The files that a cleanup walks which begins here. -/
def toClean : Handler → List File
  | download f | extract f _ | storeHeartbeat f _ _ | checkExists f _ _ | upload f _ _ =>
    f.batchFileEntities
  | record f _ _ _ | mark f => f.batchFileEntities
  | deleteRows _ _ _ todo => todo
  | _ => []

/-- Two names have two keys. -/
theorem storageKey_injective : Function.Injective storageKey := by
  intro m n h
  have hl := congrArg String.toList h
  simp only [storageKey, String.toList_append, List.append_cancel_left_eq] at hl
  exact String.toList_inj.mp hl

/-- The file after an upload. -/
def storedFile (sha256 : Bytes → Digest) (now : Time) (fileId : FileId)
    (extracted : ExtractedFile) : File where
  id := fileId
  filename := extracted.filename
  size := extracted.size
  hash := some (FileHash.compute sha256 extracted.content)
  storageKey := some (storageKey extracted.filename)
  status := .uploaded
  createdAt := now
  uploadedAt := some now

/-- The code from an await to the next one. -/
inductive Next (sha256 : Bytes → Digest) (now : Time) :
    Handler → Except Exn Answer → Handler → Prop where
  | closed {h : Handler} {a : Except Exn Answer} {h' : Handler} (hc : h'.isClosing = true) :
      Next sha256 now h a h'
  | begun (task : DownloadTask) :
      Next sha256 now getTask (.ok (.task (some task))) (names (.start task))
  | asked (f : Frame) : Next sha256 now (storeProcessed f) (.ok .done) (names f)
  | named (f f' : Frame) (fileNames : List String) (hp : f'.pulse = f.pulse) :
      Next sha256 now (names f) (.ok (.names fileNames)) (storeReceived f')
  | batched {h : Handler} {a : Except Exn Answer} (f f' : Frame) (hf : f'.batchFileEntities = [])
      (hh : h = names f ∨ h = storeReceived f ∨ h = storeProcessed f) (ha : ∃ x, a = .ok x)
      (hp : f'.pulse = f.pulse) : Next sha256 now h a (download f')
  | downloaded (f : Frame) (archive : Archive) :
      Next sha256 now (download f) (.ok (.archive archive)) (extract f (extractStream archive))
  | drained (f : Frame) : Next sha256 now (extract f []) (.ok .next) (mark f)
  | yielded (f f' : Frame) (extracted : ExtractedFile) (rest : List ExtractedFile)
      (hs : f.SameBatch f') (hc : f.heartbeatCounter % heartbeatInterval = 0)
      (hp : f'.pulse = (some now, f.heartbeatCounter)) :
      Next sha256 now (extract f (extracted :: rest)) (.ok .next) (storeHeartbeat f' extracted rest)
  | counted (f f' : Frame) (extracted : ExtractedFile) (rest : List ExtractedFile)
      (hs : f.SameBatch f') (hc : f.heartbeatCounter % heartbeatInterval ≠ 0)
      (hp : f'.pulse = (f.task.lastHeartbeat, f.heartbeatCounter + 1)) :
      Next sha256 now (extract f (extracted :: rest)) (.ok .next) (checkExists f' extracted rest)
  | beaten (f f' : Frame) (extracted : ExtractedFile) (rest : List ExtractedFile)
      (hs : f.SameBatch f') (hp : f'.pulse = (f.task.lastHeartbeat, f.heartbeatCounter + 1)) :
      Next sha256 now (storeHeartbeat f extracted rest) (.ok .done) (checkExists f' extracted rest)
  | skipped (f : Frame) (extracted : ExtractedFile) (rest : List ExtractedFile) :
      Next sha256 now (checkExists f extracted rest) (.ok (.found true)) (extract f rest)
  | missed (f : Frame) (extracted : ExtractedFile) (rest : List ExtractedFile) :
      Next sha256 now (checkExists f extracted rest) (.ok (.found false)) (upload f extracted rest)
  | uploaded (f : Frame) (extracted : ExtractedFile) (rest : List ExtractedFile)
      (fileId : FileId) :
      Next sha256 now (upload f extracted rest) (.ok (.stored fileId))
        (record f (storedFile sha256 now fileId extracted)
          (FileHash.compute sha256 extracted.content) rest)
  | recorded (f : Frame) (file : File) (fileHash : FileHash) (rest : List ExtractedFile) :
      Next sha256 now (record f file fileHash rest) (.ok .done)
        (extract { f with batchFileEntities := f.batchFileEntities ++ [file] } rest)
  | marked (f f' : Frame) (hp : f'.pulse = f.pulse) :
      Next sha256 now (mark f) (.ok .done) (storeProcessed f')
  | completed (f f' : Frame) : Next sha256 now (names f) (.ok (.names [])) (storeSuccess f')
  | cleaning {h : Handler} {a : Except Exn Answer} (f : Frame) (e : Exn) (key : String)
      (file : File) (todo : List File) (hk : file.storageKey = some key)
      (ht : (file :: todo).Sublist h.toClean)
      (hm : ∀ f₀, h = mark f₀ → a = .ok .done → f₀.task.status ≠ .running) :
      Next sha256 now h a (deleteObject f e key file todo)
  | deleted (f : Frame) (e : Exn) (key : String) (file : File) (todo : List File)
      (a : Except Exn Answer) :
      Next sha256 now (deleteObject f e key file todo) a (deleteRows f e file todo)

variable {sha256 : Bytes → Digest} {now : Time} {f : Frame} {h h' : Handler}
  {a : Except Exn Answer}

theorem failTask_closing (e : Exn) : (failTask now f e).isClosing = true := by
  unfold failTask; split <;> rfl

theorem handleBlock_closing (r : Int) : (handleBlock now f r).isClosing = true := by
  unfold handleBlock
  split
  · exact failTask_closing _
  split
  · rfl
  · exact failTask_closing _

theorem afterCleanup_closing (e : Exn) : (afterCleanup now f e).isClosing = true := by
  unfold afterCleanup
  split
  · exact handleBlock_closing _
  · exact failTask_closing _

/-- The cleanup goes to the first file that has a storage key. -/
theorem next_cleanupBatchFiles (e : Exn) (todo : List File) (ht : todo.Sublist h.toClean)
    (hm : ∀ f₀, h = mark f₀ → a = .ok .done → f₀.task.status ≠ .running) :
    Next sha256 now h a (cleanupBatchFiles now f e todo) := by
  induction todo with
  | nil => exact .closed (afterCleanup_closing e)
  | cons file todo ih =>
    unfold cleanupBatchFiles
    split
    · exact ih ((List.sublist_cons_self _ _).trans ht)
    · next key hk => exact .cleaning f e key file todo hk ht hm

theorem next_failBatch (e : Exn) (ht : f.batchFileEntities.Sublist h.toClean)
    (hm : ∀ f₀, h = mark f₀ → a = .ok .done → f₀.task.status ≠ .running) :
    Next sha256 now h a (failBatch now f e) :=
  next_cleanupBatchFiles e _ ht hm

theorem next_loopHead : Next sha256 now (storeProcessed f) (.ok .done) (loopHead f) := by
  unfold loopHead
  split
  · exact .asked f
  · exact .batched f _ rfl (.inr (.inr rfl)) ⟨_, rfl⟩ rfl

theorem next_gotNames (fileNames : List String) :
    Next sha256 now (names f) (.ok (.names fileNames)) (gotNames now f fileNames) := by
  unfold gotNames
  split
  · next hn =>
    subst hn
    split
    · unfold complete
      split
      · exact .completed _ _
      · exact .closed (failTask_closing _)
    · exact .batched f _ rfl (.inl rfl) ⟨_, rfl⟩ rfl
  · dsimp only
    split
    · next t ht =>
      obtain ⟨-, rfl⟩ := DownloadTask.increaseReceived_returned ht
      exact .named _ _ _ rfl
    · exact .closed (failTask_closing _)

theorem next_maybeHeartbeat (extracted : ExtractedFile) (rest : List ExtractedFile) :
    Next sha256 now (extract f (extracted :: rest)) (.ok .next)
      (maybeHeartbeat now f extracted rest) := by
  unfold maybeHeartbeat
  split
  · next hc =>
    split
    · next t ht =>
      obtain ⟨-, rfl⟩ := DownloadTask.heartbeat_returned ht
      exact .yielded _ _ _ _ ⟨rfl, rfl⟩ hc rfl
    · exact next_failBatch _ (.refl _) (by simp)
  · next hc => exact .counted _ _ _ _ ⟨rfl, rfl⟩ hc rfl

theorem next_marked : Next sha256 now (mark f) (.ok .done) (marked now f) := by
  unfold marked
  split
  · next t ht =>
    obtain ⟨-, rfl⟩ := DownloadTask.increaseProcessed_returned ht
    exact .marked _ _ rfl
  · next e t ht =>
    refine next_failBatch e (.refl _) fun f₀ hf _ hs => ?_
    cases hf
    rw [DownloadTask.increaseProcessed_of_running hs] at ht
    cases ht

/-- **Every `resume` is one of the transitions.** -/
theorem resume_next (hr : h.resume sha256 now a = some h') : Next sha256 now h a h' := by
  unfold resume at hr
  split at hr <;> simp only [Option.some.injEq, reduceCtorEq] at hr <;> subst hr
  · exact .closed rfl
  · exact .begun _
  · exact .closed rfl
  · exact next_gotNames _
  · exact .closed (handleBlock_closing _)
  · exact .closed (failTask_closing _)
  · exact .batched _ _ rfl (.inr (.inl rfl)) ⟨_, rfl⟩ rfl
  · exact .closed (failTask_closing _)
  · exact .downloaded _ _
  · exact next_failBatch _ (.refl _) (by simp)
  · exact .drained _
  · exact next_maybeHeartbeat _ _
  · exact next_failBatch _ (.refl _) (by simp)
  · exact .beaten _ _ _ _ ⟨rfl, rfl⟩ rfl
  · exact next_failBatch _ (.refl _) (by simp)
  · exact .skipped _ _ _
  · exact .missed _ _ _
  · exact next_failBatch _ (.refl _) (by simp)
  · exact .uploaded _ _ _ _
  · exact next_failBatch _ (.refl _) (by simp)
  · exact .recorded _ _ _ _
  · exact next_failBatch _ (.refl _) (by simp)
  · exact next_marked
  · exact next_failBatch _ (.refl _) (by simp)
  · exact next_loopHead
  · exact .closed (failTask_closing _)
  · exact .deleted _ _ _ _ _ _
  · exact .deleted _ _ _ _ _ _
  · exact next_cleanupBatchFiles _ _ (.refl _) (by simp)
  · exact next_cleanupBatchFiles _ _ (.refl _) (by simp)
  · exact .closed rfl
  · exact .closed (failTask_closing _)
  · exact .closed rfl
  · exact .closed (failTask_closing _)
  · exact .closed rfl
  · exact .closed rfl

/-! ## The calls that write -/

variable {command : ProcessFilesCommand} {tid : TaskId} {file : File} {fileHash : FileHash}

/-- A handler that awaits a call has not ended. -/
theorem isEnded_of_call {c : Call} (hc : h.call command = some c) : h.isEnded = false := by
  cases h with
  | ended e => cases hc
  | _ => rfl

theorem call_addFile (hc : h.call command = some (.addFile tid file fileHash)) :
    ∃ f rest, h = record f file fileHash rest ∧ tid = f.task.id := by
  cases h <;> simp only [call, Option.some.injEq, Call.addFile.injEq, reduceCtorEq] at hc
  obtain ⟨rfl, rfl, rfl⟩ := hc
  exact ⟨_, _, rfl, rfl⟩

theorem call_uploadStream {key : String} {content : Bytes}
    (hc : h.call command = some (.uploadStream key content)) :
    ∃ f extracted rest, h = upload f extracted rest ∧ key = storageKey extracted.filename ∧
      content = extracted.content := by
  cases h <;> simp only [call, Option.some.injEq, Call.uploadStream.injEq, reduceCtorEq] at hc
  obtain ⟨rfl, rfl⟩ := hc
  exact ⟨_, _, _, rfl, rfl, rfl⟩

theorem call_deleteObject {key : String} (hc : h.call command = some (.deleteObject key)) :
    ∃ f e file todo, h = deleteObject f e key file todo := by
  cases h <;> simp only [call, Option.some.injEq, Call.deleteObject.injEq, reduceCtorEq] at hc
  subst hc
  exact ⟨_, _, _, _, rfl⟩

theorem call_markDownloaded {batch : List String} {candidateId : Option String}
    (hc : h.call command = some (.markDownloaded batch candidateId)) :
    ∃ f, h = mark f ∧ batch = f.batch := by
  cases h <;> simp only [call, Option.some.injEq, Call.markDownloaded.injEq, reduceCtorEq] at hc
  obtain ⟨rfl, rfl⟩ := hc
  exact ⟨_, rfl, rfl⟩

theorem call_deleteFile (hc : h.call command = some (.deleteFile tid file)) :
    ∃ f e todo, h = deleteRows f e file todo ∧ tid = f.task.id := by
  cases h <;> simp only [call, Option.some.injEq, Call.deleteFile.injEq, reduceCtorEq] at hc
  obtain ⟨rfl, rfl⟩ := hc
  exact ⟨_, _, _, rfl, rfl⟩

/-! ## The files of a batch -/

/-- The files that the handler may still clean up. -/
def batchFiles : Handler → List File
  | download f | extract f _ | storeHeartbeat f _ _ | checkExists f _ _ | upload f _ _ =>
    f.batchFileEntities
  | record f _ _ _ | mark f => f.batchFileEntities
  | deleteObject _ _ _ file todo | deleteRows _ _ file todo => file :: todo
  | _ => []

/-- The file that the answer confirms to be stored. -/
def recorded : Handler → Except Exn Answer → List File
  | record _ file _ _, .ok .done => [file]
  | _, _ => []

theorem batchFiles_closing (hc : h.isClosing = true) : h.batchFiles = [] := by
  cases h <;> first | rfl | cases hc

theorem toClean_sublist : h.toClean.Sublist h.batchFiles := by
  cases h <;> first | exact .refl _ | exact List.nil_sublist _ | exact List.sublist_cons_self _ _

/-- **The files of the batch** are the ones before the answer and the one that it confirms. -/
theorem Next.batchFiles (hn : Next sha256 now h a h') :
    h'.batchFiles.Sublist (h.batchFiles ++ h.recorded a) := by
  have left : h.batchFiles.Sublist (h.batchFiles ++ h.recorded a) := List.sublist_append_left _ _
  have same : ∀ {l : List File}, l = h.batchFiles → l.Sublist (h.batchFiles ++ h.recorded a) :=
    fun e => e ▸ left
  cases hn with
  | closed hc => rw [batchFiles_closing hc]; exact List.nil_sublist _
  | batched f f' hf hh ha hp =>
    show f'.batchFileEntities.Sublist _
    rw [hf]; exact List.nil_sublist _
  | yielded f f' extracted rest hs hc hp => exact same hs.files
  | counted f f' extracted rest hs hc hp => exact same hs.files
  | beaten f f' extracted rest hs hp => exact same hs.files
  | recorded f file fileHash rest => exact .refl _
  | cleaning f e key file todo hk ht hm => exact (ht.trans toClean_sublist).trans left
  | begun | asked | named | marked | completed => exact List.nil_sublist _
  | downloaded | drained | skipped | missed | uploaded | deleted => exact left

/-- The cleanup of a file is tried once. -/
theorem Next.deleteRows {e : Exn} {file : File} {todo : List File}
    (hn : Next sha256 now (deleteRows f e file todo) a h') : h'.batchFiles.Sublist todo := by
  cases hn with
  | closed hc => rw [batchFiles_closing hc]; exact List.nil_sublist _
  | batched f f' hf hh ha hp => simp at hh
  | cleaning f e key file todo hk ht hm => exact ht

/-- After the mark of a running task nothing is left to clean up. -/
theorem resume_marked {answer : Answer} (hs : f.task.status = .running)
    (hr : (mark f).resume sha256 now (.ok answer) = some h') : h'.batchFiles = [] := by
  cases answer <;> simp only [resume, Option.some.injEq, reduceCtorEq] at hr
  subst hr
  unfold marked
  rw [DownloadTask.increaseProcessed_of_running hs]
  rfl

/-- The file of a `record` is the one that was uploaded right before. -/
theorem Next.record {file : File} {fileHash : FileHash} {rest : List ExtractedFile}
    (hn : Next sha256 now h a (record f file fileHash rest)) :
    ∃ extracted fileId, h = upload f extracted rest ∧ a = .ok (.stored fileId) ∧
      file = storedFile sha256 now fileId extracted ∧
      fileHash = FileHash.compute sha256 extracted.content := by
  cases hn with
  | closed hc => cases hc
  | uploaded f extracted rest fileId => exact ⟨extracted, fileId, rfl, rfl, rfl, rfl⟩

/-! ## The names of a batch -/

/-- While the archive of a batch is read: the names of the batch, and the names that the archive
still yields. -/
def underway : Handler → Option (List String × List String)
  | extract f rest => some (f.batch, rest.map ExtractedFile.filename)
  | storeHeartbeat f extracted rest | checkExists f extracted rest | upload f extracted rest =>
    some (f.batch, extracted.filename :: rest.map ExtractedFile.filename)
  | record f file _ rest => some (f.batch, file.filename :: rest.map ExtractedFile.filename)
  | mark f => some (f.batch, [])
  | _ => none

/-- The name whose record the answer reports. -/
def settled : Handler → Except Exn Answer → Option String
  | checkExists _ extracted _, .ok (.found true) => some extracted.filename
  | record _ file _ _, .ok .done => some file.filename
  | _, _ => none

theorem underway_closing (hc : h.isClosing = true) : h.underway = none := by
  cases h <;> first | rfl | cases hc

/-- **The names of the batch**: the archive has just come, or of the names that it was to yield only
the settled one is no more to come. -/
theorem Next.underway (hn : Next sha256 now h a h') {batch names' : List String}
    (hu : h'.underway = some (batch, names')) :
    (∃ f archive, h = download f ∧ a = .ok (.archive archive) ∧ batch = f.batch ∧
      names' = (extractStream archive).map ExtractedFile.filename) ∨
    ∃ names, h.underway = some (batch, names) ∧
      ∀ n ∈ names, n ∈ names' ∨ h.settled a = some n := by
  cases hn with
  | closed hc => rw [underway_closing hc] at hu; cases hu
  | downloaded f archive => cases hu; exact .inl ⟨f, archive, rfl, rfl, rfl, rfl⟩
  | drained f => cases hu; exact .inr ⟨_, rfl, fun n hn => .inl hn⟩
  | yielded f f' extracted rest hs =>
    cases hu; rw [hs.batch]; exact .inr ⟨_, rfl, fun n hn => .inl hn⟩
  | counted f f' extracted rest hs hc hp =>
    cases hu; rw [hs.batch]; exact .inr ⟨_, rfl, fun n hn => .inl hn⟩
  | beaten f f' extracted rest hs hp =>
    cases hu; rw [hs.batch]; exact .inr ⟨_, rfl, fun n hn => .inl hn⟩
  | skipped f extracted rest =>
    cases hu
    refine .inr ⟨_, rfl, fun n hn => ?_⟩
    rcases List.mem_cons.mp hn with rfl | hn
    · exact .inr rfl
    · exact .inl hn
  | missed f extracted rest => cases hu; exact .inr ⟨_, rfl, fun n hn => .inl hn⟩
  | uploaded f extracted rest fileId => cases hu; exact .inr ⟨_, rfl, fun n hn => .inl hn⟩
  | recorded f file fileHash rest =>
    cases hu
    refine .inr ⟨_, rfl, fun n hn => ?_⟩
    rcases List.mem_cons.mp hn with rfl | hn
    · exact .inr rfl
    · exact .inl hn
  | begun | asked | named | batched | marked | completed | cleaning | deleted => cases hu

/-! ## The entries of an archive -/

/-- The extracted files that are still to be stored. -/
def entries : Handler → List ExtractedFile
  | extract _ rest => rest
  | storeHeartbeat _ extracted rest | checkExists _ extracted rest | upload _ extracted rest =>
    extracted :: rest
  | record _ _ _ rest => rest
  | _ => []

theorem entries_closing (hc : h.isClosing = true) : h.entries = [] := by
  cases h <;> first | rfl | cases hc

/-- **The entries** are those of the archive. -/
theorem Next.entries (hn : Next sha256 now h a h') {extracted : ExtractedFile}
    (hx : extracted ∈ h'.entries) : extracted ∈ h.entries ∨
      ∃ f archive, h = download f ∧ a = .ok (.archive archive) ∧
        extracted ∈ extractStream archive := by
  cases hn with
  | closed hc => rw [entries_closing hc] at hx; cases hx
  | downloaded f archive => exact .inr ⟨f, archive, rfl, rfl, hx⟩
  | skipped | uploaded => exact .inl (List.mem_cons_of_mem _ hx)
  | drained | yielded | counted | beaten | missed | recorded => exact .inl hx
  | begun | asked | named | batched | marked | completed | cleaning | deleted => cases hx

/-! ## The awaits that are reached from one other only -/

/-- An object is deleted for a file of the batch, by its storage key. -/
theorem Next.deleteObject {e : Exn} {key : String} {file : File} {todo : List File}
    (hn : Next sha256 now h a (deleteObject f e key file todo)) :
    file.storageKey = some key ∧ file ∈ h.batchFiles := by
  cases hn with
  | closed hc => cases hc
  | cleaning f e key file todo hk ht hm =>
    exact ⟨hk, toClean_sublist.subset (ht.subset List.mem_cons_self)⟩

/-- Whatever the reply, the rows of the file come next. -/
theorem Next.deleteRows_of_deleteObject {e : Exn} {key : String} {file : File} {todo : List File}
    (hr : (Handler.deleteObject f e key file todo).resume sha256 now a = some h') :
    h' = Handler.deleteRows f e file todo := by
  unfold resume at hr
  split at hr <;> simp_all

/-- The rows of a file are deleted after its object. -/
theorem Next.at_deleteRows {e : Exn} {file : File} {todo : List File}
    (hn : Next sha256 now h a (Handler.deleteRows f e file todo)) :
    ∃ key, h = Handler.deleteObject f e key file todo := by
  cases hn with
  | closed hc => cases hc
  | deleted f e key file todo a => exact ⟨key, rfl⟩

/-- A download begins a batch. -/
theorem Next.at_download (hn : Next sha256 now h a (download f)) : f.batchFileEntities = [] := by
  cases hn with
  | closed hc => cases hc
  | batched f₀ f' hf hh ha hp => exact hf

/-- The names are asked for at the start and after a batch. -/
theorem Next.at_names (hn : Next sha256 now h a (names f)) :
    (∃ task, a = .ok (.task (some task)) ∧ f = .start task) ∨ h = storeProcessed f := by
  cases hn with
  | closed hc => cases hc
  | begun task => exact .inl ⟨task, rfl, rfl⟩
  | asked f => exact .inr rfl

/-- The task is read once. -/
theorem Next.ne_getTask (hn : Next sha256 now h a h') : h' ≠ getTask := by
  rintro rfl
  cases hn with
  | closed hc => cases hc

/-- The file that an answer confirms was the one to record. -/
theorem mem_recorded {file : File} (hm : file ∈ h.recorded a) :
    ∃ f fileHash rest, h = record f file fileHash rest := by
  unfold recorded at hm
  split at hm
  · next f file' fileHash rest => exact ⟨f, fileHash, rest, by rw [List.mem_singleton.mp hm]⟩
  · cases hm

theorem Next.storeSuccess (hn : Next sha256 now h a (storeSuccess f)) :
    ∃ f₀, h = names f₀ ∧ a = .ok (.names []) := by
  cases hn with
  | closed hc => cases hc
  | completed f₀ f => exact ⟨f₀, rfl, rfl⟩

end Handler

end FileExtractor
