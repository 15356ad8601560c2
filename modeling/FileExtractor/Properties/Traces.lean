import FileExtractor.Worker.Cleanup

/-!
# What a failed batch leaves

A batch fails when one of its calls raises; its cleanup is taken to succeed. `no_trace_iff` says
exactly when the two tables and the bucket are as before the batch: no stored file had an object
under its key before, and the call that raises was not between the upload of an object and the end
of the transaction for it, unless the object was there before with this content.

Up to the exception `Cleanable` holds: what the cleanup would leave now is the stores before the
batch, but for the object of the file that is being stored (`expected`). A file that replaces an
object cannot be undone any more (`Spoiled`).
-/

namespace FileExtractor

open Rel Lts

theorem Handler.recording_of_storing {h : Handler} (hs : h.storing = none) :
    h.recording = false := by
  cases h <;> first | rfl | cases hs

/-- The other calls of a batch leave the two tables and the bucket. -/
theorem Handler.call_traces {h : Handler} {f : Frame} {command : ProcessFilesCommand} {call : Call}
    {taskId : TaskId} {s s' : Store} (hb : h.batching = some f) (hs : h.storing = none)
    (hc : h.call command = some call) (ha : s.apply taskId call = some s') :
    s'.traces = s.traces := by
  cases h with
  | upload | record => cases hs
  | download | extract | storeHeartbeat | checkExists | mark => cases hc; cases ha; rfl
  | _ => cases hb

/-- An answer after which the batch goes on and nothing has been stored. -/
theorem Handler.Answered.idle {sha256 : Bytes → Digest} {now : Time} {h h' : Handler} {a : Answer}
    (ha : Answered sha256 now h a h') (hs : h.storing = none) (hb : h.batching.isSome = true)
    (hb' : h'.batching.isSome = true) : h'.batchFiles = h.batchFiles ∧ h'.recording = false ∧
      ∀ name, h'.storing = some name →
        ∃ f extracted rest, h = checkExists f extracted rest ∧ a = .found false ∧
          extracted.filename = name := by
  cases ha with
  | missed f extracted rest =>
    exact ⟨rfl, rfl, fun name hn => ⟨f, extracted, rest, rfl, rfl, Option.some.inj hn⟩⟩
  | downloaded | exhausted | beating | entered | beaten | skipped => exact ⟨rfl, rfl, nofun⟩
  | uploaded | recorded => cases hs
  | marked => cases hb'
  | closed f h hh => rcases hh with rfl | rfl | rfl <;> cases hb
  | _ => cases hb

/-- The files of a batch are kept until it is over. -/
theorem Handler.Answered.batchFiles {sha256 : Bytes → Digest} {now : Time} {h h' : Handler}
    {a : Answer} (ha : Answered sha256 now h a h') (hb : h.batching.isSome = true)
    (hb' : h'.batching.isSome = true) {file : File} (hfile : file ∈ h.batchFiles) :
    file ∈ h'.batchFiles := by
  cases ha with
  | recorded f file fileHash rest => exact List.mem_append_left _ hfile
  | marked => cases hb'
  | closed f h hh => rcases hh with rfl | rfl | rfl <;> cases hb
  | downloaded | exhausted | beating | entered | beaten | skipped | missed | uploaded => exact hfile
  | _ => cases hb

/-- The await of a download. -/
def Handler.downloading : Handler → Bool
  | download _ => true
  | _ => false

theorem Handler.eq_download {h : Handler} (hd : h.downloading = true) : ∃ f, h = download f := by
  cases h <;> first | exact ⟨_, rfl⟩ | cases hd

namespace Execution

/-- A call of the batch succeeds. -/
def InBatch (e : Execution) (ev : Event) : Prop :=
  e.handler.batching.isSome = true ∧ ev.reply.failed = false

/-- What this call does to the stores `s₀` before the batch is undone. -/
def Undone (s₀ : Store) (e : Execution) (ev : Event) : Prop :=
  match e.handler, ev.reply with
  | .upload _ extracted _, .lost _ =>
    s₀.bucket (Handler.storageKey extracted.filename) = some extracted.content
  | .record _ file _ _, .done _ => s₀.bucket (Handler.storageKey file.filename) = none
  | .record _ file _ _, .refused _ =>
    s₀.bucket (Handler.storageKey file.filename) =
      e.store.bucket (Handler.storageKey file.filename)
  | .record _ _ _ _, .lost _ => False
  | _, _ => True

/-- The stores after a cleanup that begins now. -/
def cleaned (e : Execution) : Store :=
  e.handler.batchFiles.foldl (Store.cleanUp e.command.taskId) e.store

/-- The stores before the batch, with the object that has been uploaded last. -/
def expected (s₀ : Store) (e : Execution) : Store :=
  match e.handler with
  | .record _ file _ _ =>
    s₀.put (Handler.storageKey file.filename) (e.store.bucket (Handler.storageKey file.filename))
  | _ => s₀

/-- The files of the batch have their records, and the one that is being stored is another one. -/
structure Distinct (e : Execution) : Prop where
  recorded : ∀ file ∈ e.handler.batchFiles,
    (e.store.downloaded.get? (e.command.taskId, file.filename)).isSome = true
  fresh : ∀ name, e.handler.storing = some name →
    ∀ file ∈ e.handler.batchFiles, file.filename ≠ name

/-- The batch can be undone. -/
structure Cleanable (s₀ : Store) (c : String) (e : Execution) : Prop where
  sound : Sound c e
  distinct : e.handler.batching.isSome = true → Distinct e
  traces : e.handler.batching.isSome = true → e.cleaned.traces = (e.expected s₀).traces

/-- A file of the batch has replaced an object. -/
structure Spoiled (s₀ : Store) (c : String) (e : Execution) : Prop where
  sound : Sound c e
  replaced : e.handler.batching.isSome = true →
    ∃ file ∈ e.handler.batchFiles, s₀.bucket (Handler.storageKey file.filename) ≠ none

variable {sha256 : Bytes → Digest} {e e' e₁ e₂ : Execution} {ev : Event} {c : String} {f : Frame}
  {x : Exn} {evs : List Event} {s₀ : Store}

theorem Distinct.keys (h : Distinct e) {name : String} (hn : e.handler.storing = some name) :
    ∀ file ∈ e.handler.batchFiles, Handler.storageKey file.filename ≠ Handler.storageKey name :=
  fun file hfile hk => h.fresh name hn file hfile (Handler.storageKey_injective hk)

theorem expected_of_not_recording (hr : e.handler.recording = false) : e.expected s₀ = s₀ := by
  unfold expected
  split
  · next hk => rw [hk] at hr; cases hr
  · rfl

/-- A call of the batch that stores nothing. -/
theorem Cleanable.idle (h : Cleanable s₀ c e) (hb : e.handler.batching.isSome = true)
    (hs : e.handler.storing = none) (hst : (executions sha256).step e ev = some e') {a : Answer}
    (ha : ev.reply = .done a) : Cleanable s₀ c e' := by
  have hans := h.sound.answered hst ha
  obtain ⟨call, hcall, -⟩ := calls_step hst
  have happly := (store_answered hst ha hcall).2
  obtain ⟨f, hf⟩ := Option.isSome_iff_exists.mp hb
  have htraces := Handler.call_traces hf hs hcall happly
  have hdownloaded : e'.store.downloaded = e.store.downloaded := by
    simp only [Store.traces, Prod.mk.injEq] at htraces; exact htraces.2.1
  have hcommand := (command_step hst).1
  have hdistinct := h.distinct hb
  refine ⟨h.sound.step hst, fun hb' => ⟨fun file hfile => ?_, fun name hn => ?_⟩, fun hb' => ?_⟩
  · obtain ⟨hfiles, -, -⟩ := hans.idle hs hb hb'
    rw [hdownloaded, hcommand]
    exact hdistinct.recorded file (hfiles ▸ hfile)
  · obtain ⟨hfiles, -, hmissed⟩ := hans.idle hs hb hb'
    obtain ⟨f, extracted, rest, hk, rfl, rfl⟩ := hmissed name hn
    intro file hfile hname
    have hrec := hdistinct.recorded file (hfiles ▸ hfile)
    rw [hname] at hrec
    exact Bool.false_ne_true ((h.sound.found hst hk ha).1.trans hrec)
  · obtain ⟨hfiles, hrecording, -⟩ := hans.idle hs hb hb'
    have hold := h.traces hb
    rw [expected_of_not_recording (Handler.recording_of_storing hs)] at hold
    rw [expected_of_not_recording hrecording, ← hold, cleaned, cleaned, hfiles, hcommand]
    exact Store.foldl_cleanUp_congr htraces _

/-- The object of a file is put. -/
theorem Cleanable.uploaded (h : Cleanable s₀ c e) {extracted : ExtractedFile}
    {rest : List ExtractedFile} (hk : e.handler = .upload f extracted rest)
    (hst : (executions sha256).step e ev = some e') {a : Answer} (ha : ev.reply = .done a) :
    Cleanable s₀ c e' := by
  have hans := h.sound.answered hst ha
  have hb : e.handler.batching.isSome = true := by rw [hk]; rfl
  have hcall : e.handler.call e.command =
      some (.uploadStream (Handler.storageKey extracted.filename) extracted.content) := by
    rw [hk]; rfl
  have hstore : e'.store = e.store.put (Handler.storageKey extracted.filename)
      (some extracted.content) := (Option.some.inj (store_answered hst ha hcall).2).symm
  have hcommand := (command_step hst).1
  have hdistinct := h.distinct hb
  have hname : e.handler.storing = some extracted.filename := by rw [hk]; rfl
  obtain ⟨fileId, -, hk'⟩ := (hk ▸ hans).of_upload
  have hfiles : e'.handler.batchFiles = e.handler.batchFiles := by rw [hk, hk']; rfl
  refine ⟨h.sound.step hst, fun _ => ⟨fun file hfile => ?_, fun name hn => ?_⟩, fun _ => ?_⟩
  · rw [hstore, hcommand]
    exact hdistinct.recorded file (hfiles ▸ hfile)
  · rw [hk'] at hn; cases hn
    rw [hfiles]
    exact hdistinct.fresh _ hname
  · have hold := h.traces hb
    rw [expected_of_not_recording (by rw [hk]; rfl)] at hold
    have hexpected : e'.expected s₀ =
        s₀.put (Handler.storageKey extracted.filename) (some extracted.content) := by
      simp only [expected, hk', hstore, Store.put, Handler.storedFile, Function.update_self]
    rw [hexpected, cleaned, hfiles, hcommand, hstore,
      Store.foldl_cleanUp_put (hdistinct.keys hname)]
    exact Store.traces_put hold ..

/-- The rows of a file are added. -/
theorem Cleanable.recorded (h : Cleanable s₀ c e) {file : File} {fileHash : FileHash}
    {rest : List ExtractedFile} (hk : e.handler = .record f file fileHash rest)
    (hst : (executions sha256).step e ev = some e') {a : Answer} (ha : ev.reply = .done a) :
    Distinct e' ∧ e'.handler.batchFiles = e.handler.batchFiles ++ [file] ∧
      e'.expected s₀ = s₀ ∧
      e'.cleaned.traces = (s₀.put (Handler.storageKey file.filename) none).traces := by
  have hans := h.sound.answered hst ha
  have hb : e.handler.batching.isSome = true := by rw [hk]; rfl
  have happly := (store_answered hst ha (h.sound.call_record hk)).2
  obtain ⟨files, downloaded, -, hdown, hstore⟩ := Store.apply_addFile happly
  have hcommand := (command_step hst).1
  have hdistinct := h.distinct hb
  have hname : e.handler.storing = some file.filename := by rw [hk]; rfl
  obtain ⟨-, hk'⟩ := (hk ▸ hans).of_record
  have hfiles : e'.handler.batchFiles = e.handler.batchFiles ++ [file] := by rw [hk, hk']; rfl
  refine ⟨⟨fun x hx => ?_, fun name hn => by rw [hk'] at hn; cases hn⟩, hfiles,
    expected_of_not_recording (by rw [hk']; rfl), ?_⟩
  · have hget : e'.store.downloaded.get? (e.command.taskId, x.filename) =
        if (e.command.taskId, x.filename) = (e.command.taskId, file.filename) then
          some ⟨e.command.taskId, file.filename, some fileHash.value⟩
        else e.store.downloaded.get? (e.command.taskId, x.filename) := by
      rw [hstore]; exact Table.get?_insert hdown _
    rw [hcommand, hget]
    split
    · rfl
    · next hne =>
      rw [hfiles, List.mem_append, List.mem_singleton] at hx
      rcases hx with hx | rfl
      · exact hdistinct.recorded x hx
      · exact absurd rfl hne
  · rw [cleaned, hfiles, hcommand, List.foldl_append, List.foldl_cons, List.foldl_nil,
      ← Store.foldl_cleanUp_comm, Store.foldl_cleanUp_congr (Store.cleanUp_addFile happly),
      Store.foldl_cleanUp_put (hdistinct.keys hname)]
    have hexpected : e.expected s₀ = s₀.put (Handler.storageKey file.filename)
        (e.store.bucket (Handler.storageKey file.filename)) := by
      simp only [expected, hk]
    have hold := Store.traces_put (h.traces hb) (Handler.storageKey file.filename) none
    rwa [hexpected, Store.put_put] at hold

/-- **A call of the batch that succeeds** and can be undone. -/
theorem Cleanable.step (h : Cleanable s₀ c e) (hok : InBatch e ev) (hu : Undone s₀ e ev)
    (hst : (executions sha256).step e ev = some e') : Cleanable s₀ c e' := by
  obtain ⟨a, ha⟩ := Reply.of_not_failed hok.2
  cases hk : e.handler with
  | upload f extracted rest => exact h.uploaded hk hst ha
  | record f file fileHash rest =>
    obtain ⟨hdistinct, -, hexpected, htraces⟩ := h.recorded hk hst ha
    have hnone : s₀.bucket (Handler.storageKey file.filename) = none := by
      simpa only [Undone, hk, ha] using hu
    refine ⟨h.sound.step hst, fun _ => hdistinct, fun _ => ?_⟩
    rw [htraces, hexpected, ← hnone, Store.put_eq_self]
  | _ => exact h.idle hok.1 (by rw [hk]; rfl) hst ha

/-- A call of the batch that cannot be undone. -/
theorem Cleanable.spoiled (h : Cleanable s₀ c e) (hok : InBatch e ev) (hu : ¬ Undone s₀ e ev)
    (hst : (executions sha256).step e ev = some e') : Spoiled s₀ c e' := by
  obtain ⟨a, ha⟩ := Reply.of_not_failed hok.2
  obtain ⟨f, file, fileHash, rest, hk, hsome⟩ : ∃ f file fileHash rest,
      e.handler = .record f file fileHash rest ∧
      s₀.bucket (Handler.storageKey file.filename) ≠ none := by
    unfold Undone at hu
    split at hu
    · next hr => rw [ha] at hr; cases hr
    · next f file fileHash rest answer hk hr => exact ⟨f, file, fileHash, rest, hk, hu⟩
    · next hr => rw [ha] at hr; cases hr
    · next hr => rw [ha] at hr; cases hr
    · exact absurd trivial hu
  obtain ⟨-, hfiles, -⟩ := h.recorded hk hst ha
  exact ⟨h.sound.step hst, fun _ => ⟨file, by simp [hfiles], hsome⟩⟩

theorem Spoiled.step (h : Spoiled s₀ c e) (hok : InBatch e ev)
    (hst : (executions sha256).step e ev = some e') : Spoiled s₀ c e' := by
  obtain ⟨a, ha⟩ := Reply.of_not_failed hok.2
  refine ⟨h.sound.step hst, fun hb' => ?_⟩
  obtain ⟨file, hfile, hsome⟩ := h.replaced hok.1
  exact ⟨file, (h.sound.answered hst ha).batchFiles hok.1 hb' hfile, hsome⟩

/-! ## The exception -/

/-- The stores after the cleanup. -/
theorem Sound.traces_closing (h : Sound c e₁) (hb : e₁.handler.batching.isSome = true)
    (hfail : ev.reply.failed = true) (hst : (executions sha256).step e₁ ev = some e₂)
    (hg : (executions sha256).Guarded CleansUp e₂ evs)
    (hrun : (executions sha256).run e₂ evs = some e) (hcl : e.handler.isClosing = true) :
    e.store = e₁.handler.batchFiles.foldl (Store.cleanUp e₁.command.taskId) e₂.store := by
  obtain ⟨x, hx⟩ := Reply.seen_failed hfail
  have hfailed := h.failed hst hx
  rw [← (command_step hst).2] at hfailed
  obtain ⟨f, hc⟩ : ∃ f, Handler.Cleaning e₂.now f x e₁.handler.batchFiles e₂.handler := by
    generalize e₁.handler = k at hb hfailed ⊢
    generalize e₂.handler = k' at hfailed ⊢
    cases hfailed with
    | batch f k hk x k' hc => exact ⟨f, by cases k <;> cases hk <;> exact hc⟩
    | storing f k hk => rcases hk with rfl | rfl <;> cases hb
    | closing f k hk => rcases hk with rfl | rfl <;> cases hb
    | _ => cases hb
  rw [((h.step hst).cleans_up hc hg hrun hcl).2.2, (command_step hst).1]

/-- The upload of an object raises. -/
theorem Cleanable.upload_fails (h : Cleanable s₀ c e₁) {extracted : ExtractedFile}
    {rest : List ExtractedFile} (hk : e₁.handler = .upload f extracted rest)
    (hfail : ev.reply.failed = true) (hst : (executions sha256).step e₁ ev = some e₂) :
    (e₁.handler.batchFiles.foldl (Store.cleanUp e₁.command.taskId) e₂.store).traces = s₀.traces ↔
      Undone s₀ e₁ ev := by
  have hb : e₁.handler.batching.isSome = true := by rw [hk]; rfl
  have hold := h.traces hb
  rw [expected_of_not_recording (by rw [hk]; rfl), cleaned] at hold
  have hcall : e₁.handler.call e₁.command =
      some (.uploadStream (Handler.storageKey extracted.filename) extracted.content) := by
    rw [hk]; rfl
  rcases store_failed hst hfail hcall with ⟨x, hx, hs⟩ | ⟨x, hx, ha⟩
  · exact ⟨fun _ => by simp only [Undone, hk, hx], fun _ => by rw [hs, hold]⟩
  · have hs : e₂.store = e₁.store.put (Handler.storageKey extracted.filename)
        (some extracted.content) := (Option.some.inj ha).symm
    have hname : e₁.handler.storing = some extracted.filename := by rw [hk]; rfl
    rw [hs, Store.foldl_cleanUp_put ((h.distinct hb).keys hname), Store.traces_put hold,
      Store.traces_put_iff]
    simp only [Undone, hk, hx]

/-- The transaction that adds a file raises. -/
theorem Cleanable.record_fails (h : Cleanable s₀ c e₁) {file : File} {fileHash : FileHash}
    {rest : List ExtractedFile} (hk : e₁.handler = .record f file fileHash rest)
    (hfail : ev.reply.failed = true) (hst : (executions sha256).step e₁ ev = some e₂) :
    (e₁.handler.batchFiles.foldl (Store.cleanUp e₁.command.taskId) e₂.store).traces = s₀.traces ↔
      Undone s₀ e₁ ev := by
  have hb : e₁.handler.batching.isSome = true := by rw [hk]; rfl
  have hold := h.traces hb
  have hexpected : e₁.expected s₀ = s₀.put (Handler.storageKey file.filename)
      (e₁.store.bucket (Handler.storageKey file.filename)) := by
    simp only [expected, hk]
  rw [hexpected, cleaned] at hold
  rcases store_failed hst hfail (h.sound.call_record hk) with ⟨x, hx, hs⟩ | ⟨x, hx, ha⟩
  · rw [hs, hold, Store.traces_put_iff]
    simp only [Undone, hk, hx]
  · -- the record of the file stays
    have hfresh := (h.distinct hb).fresh file.filename (by rw [hk]; rfl)
    obtain ⟨files, downloaded, -, hdown, hstore⟩ := Store.apply_addFile ha
    have hnone : s₀.downloaded.get? (e₁.command.taskId, file.filename) = none := by
      have hd : s₀.downloaded = (e₁.handler.batchFiles.foldl
          (Store.cleanUp e₁.command.taskId) e₁.store).downloaded := by
        simp only [Store.traces, Prod.mk.injEq] at hold
        exact hold.2.1.symm
      rw [hd, Store.foldl_cleanUp_record hfresh]
      exact (Table.insert?_eq_some hdown).1
    have hsome : e₂.store.downloaded.get? (e₁.command.taskId, file.filename) ≠ none := by
      rw [hstore]
      show downloaded.get? (e₁.command.taskId, file.filename) ≠ none
      rw [Table.get?_insert hdown]
      simp [DownloadedFileModel.key]
    refine ⟨fun heq => absurd ?_ hsome, fun hu => by simp only [Undone, hk, hx] at hu⟩
    rw [← Store.foldl_cleanUp_record (s := e₂.store) hfresh]
    simp only [Store.traces, Prod.mk.injEq] at heq
    rw [heq.2.1, hnone]

/-- Another call of the batch raises. -/
theorem Cleanable.idle_fails (h : Cleanable s₀ c e₁) (hb : e₁.handler.batching.isSome = true)
    (hs : e₁.handler.storing = none) (hfail : ev.reply.failed = true)
    (hst : (executions sha256).step e₁ ev = some e₂) :
    (e₁.handler.batchFiles.foldl (Store.cleanUp e₁.command.taskId) e₂.store).traces =
      s₀.traces := by
  have hold := h.traces hb
  rw [expected_of_not_recording (Handler.recording_of_storing hs), cleaned] at hold
  obtain ⟨f, hf⟩ := Option.isSome_iff_exists.mp hb
  obtain ⟨call, hcall, -⟩ := calls_step hst
  have htraces : e₂.store.traces = e₁.store.traces := by
    rcases store_failed hst hfail hcall with ⟨x, -, hs⟩ | ⟨x, -, ha⟩
    · rw [hs]
    · exact Handler.call_traces hf hs hcall ha
  rw [Store.foldl_cleanUp_congr htraces, hold]

/-- **The exception of a batch** that could be undone up to it. -/
theorem Cleanable.traces_iff (h : Cleanable s₀ c e₁) (hb : e₁.handler.batching.isSome = true)
    (hfail : ev.reply.failed = true) (hst : (executions sha256).step e₁ ev = some e₂) :
    (e₁.handler.batchFiles.foldl (Store.cleanUp e₁.command.taskId) e₂.store).traces = s₀.traces ↔
      Undone s₀ e₁ ev := by
  cases hk : e₁.handler with
  | upload f extracted rest => exact hk ▸ h.upload_fails hk hfail hst
  | record f file fileHash rest => exact hk ▸ h.record_fails hk hfail hst
  | _ =>
    have hs : e₁.handler.storing = none := by rw [hk]; rfl
    refine ⟨fun _ => ?_, fun _ => hk ▸ h.idle_fails hb hs hfail hst⟩
    simp only [Undone, hk]

/-- The object that was replaced is gone. -/
theorem Spoiled.traces_ne (h : Spoiled s₀ c e₁) (hb : e₁.handler.batching.isSome = true)
    (s : Store) : (e₁.handler.batchFiles.foldl (Store.cleanUp e₁.command.taskId) s).traces ≠
      s₀.traces := by
  obtain ⟨file, hfile, hsome⟩ := h.replaced hb
  intro heq
  simp only [Store.traces, Prod.mk.injEq] at heq
  refine hsome ?_
  rw [← heq.2.2]
  exact (Store.without_foldl_cleanUp hfile).object

/-- **A batch that fails**, in any run on a `RUNNING` row and with any stores before it: its calls
succeed up to the one that raises, and so do the ones of the cleanup. -/
theorem no_trace_iff (sha256 : Bytes → Digest) (command : ProcessFilesCommand) (now : Time)
    (store : Store) (s : DownloadTask) (hs : store.tasks.getById command.taskId = some s)
    (hr : s.status = .running) (evs₀ evs evs' : List Event) (e₀ e₁ e₂ e : Execution) (ev : Event)
    (f : Frame) (hrun₀ : (executions sha256).run (start command now store) evs₀ = some e₀)
    (hk : e₀.handler = .download f) (hg : (executions sha256).Guarded InBatch e₀ evs)
    (hrun : (executions sha256).run e₀ evs = some e₁) (hb : e₁.handler.batching.isSome = true)
    (hfail : ev.reply.failed = true) (hst : (executions sha256).step e₁ ev = some e₂)
    (hg' : (executions sha256).Guarded CleansUp e₂ evs')
    (hrun' : (executions sha256).run e₂ evs' = some e) (hcl : e.handler.isClosing = true) :
    e.store.traces = e₀.store.traces ↔
      (executions sha256).Guarded (Undone e₀.store) e₀ evs ∧ Undone e₀.store e₁ ev := by
  have h₀ := sound_run hs hr hrun₀
  have hempty : e₀.handler.batchFiles = [] := by
    rw [hk]; exact download_empty hrun₀ hk
  have hstart : Cleanable e₀.store s.candidateId e₀ := by
    refine ⟨h₀, fun _ => ⟨fun file hfile => ?_, fun name hn => ?_⟩, fun _ => ?_⟩
    · rw [hempty] at hfile; cases hfile
    · rw [hk] at hn; cases hn
    · rw [expected_of_not_recording (by rw [hk]; rfl), cleaned, hempty]; rfl
  rcases System.guarded_or_trapped (Undone e₀.store) (Cleanable e₀.store s.candidateId)
      (Spoiled e₀.store s.candidateId)
      (fun e ev e' h hok hst hu => h.step hok hu hst)
      (fun e ev e' h hok hst hu => h.spoiled hok hu hst)
      (fun e ev e' h hok hst => h.step hok hst) hstart hg hrun with ⟨hu, h₁⟩ | ⟨hu, h₁⟩
  · rw [h₁.sound.traces_closing hb hfail hst hg' hrun' hcl, h₁.traces_iff hb hfail hst]
    exact ⟨fun h => ⟨hu, h⟩, And.right⟩
  · rw [h₁.sound.traces_closing hb hfail hst hg' hrun' hcl]
    exact ⟨fun h => absurd h (h₁.traces_ne hb _), fun h => absurd h.1 hu⟩

/-- The batch of one name is about to be downloaded. -/
def oneName : List Event := [taskRead, ⟨1, .done (.names ["x"])⟩, ⟨1, .done .done⟩]

/-- The archive has the file, and its object is uploaded. -/
def oneUpload : List Event :=
  [⟨1, .done (.archive [⟨"x", [1]⟩])⟩, ⟨1, .done .next⟩, ⟨1, .done .done⟩,
    ⟨1, .done (.found false)⟩, ⟨1, .done (.stored 1)⟩]

/-- The download raises. -/
theorem download_leaves_no_trace : ∃ e₀ e,
    (executions fun _ => 0).run (start ⟨"t", none⟩ 0 claimedStore) oneName = some e₀ ∧
    (executions fun _ => 0).step e₀ ⟨1, .refused (.other "")⟩ = some e ∧
    e.store.traces = e₀.store.traces := by
  obtain ⟨e₀, hrun, hp⟩ := (Option.any_eq_true ..).mp
    (by decide +kernel : ((executions fun _ => 0).run (start ⟨"t", none⟩ 0 claimedStore)
      oneName).any (fun e₀ => e₀.handler.downloading &&
        ((executions fun _ => 0).step e₀ ⟨1, .refused (.other "")⟩).any fun e =>
          e.handler.isClosing) = true)
  rw [Bool.and_eq_true, Option.any_eq_true] at hp
  obtain ⟨hd, e, hst, hcl⟩ := hp
  obtain ⟨f, hk⟩ := Handler.eq_download hd
  have hiff := no_trace_iff (fun _ => 0) ⟨"t", none⟩ 0 claimedStore _ rfl rfl oneName [] [] e₀ e₀
    e e ⟨1, .refused (.other "")⟩ f hrun hk trivial rfl (by rw [hk]; rfl) rfl hst trivial rfl hcl
  exact ⟨e₀, e, hrun, hst, hiff.mpr ⟨trivial, by simp only [Undone, hk]⟩⟩

/-- `InBatch`, checked. -/
def inBatchCheck (e : Execution) (ev : Event) : Bool :=
  e.handler.batching.isSome && !ev.reply.failed

theorem inBatch_of_check (e : Execution) (ev : Event) (h : inBatchCheck e ev = true) :
    InBatch e ev := by
  simpa [inBatchCheck, InBatch] using h

/-- The transaction that would add the uploaded file is rolled back: its object stays. -/
theorem object_stays : ¬ ∀ (command : ProcessFilesCommand) (now : Time) (store : Store)
    (s : DownloadTask), store.tasks.getById command.taskId = some s → s.status = .running →
    ∀ (evs₀ evs evs' : List Event) (e₀ e₁ e₂ e : Execution) (ev : Event) (f : Frame),
      (executions fun _ => 0).run (start command now store) evs₀ = some e₀ →
      e₀.handler = .download f → (executions fun _ => 0).Guarded InBatch e₀ evs →
      (executions fun _ => 0).run e₀ evs = some e₁ → e₁.handler.batching.isSome = true →
      ev.reply.failed = true → (executions fun _ => 0).step e₁ ev = some e₂ →
      (executions fun _ => 0).Guarded CleansUp e₂ evs' →
      (executions fun _ => 0).run e₂ evs' = some e → e.handler.isClosing = true →
      e.store.traces = e₀.store.traces := by
  intro hclaim
  obtain ⟨e₀, hrun₀, hp⟩ := (Option.any_eq_true ..).mp
    (by decide +kernel : ((executions fun _ => 0).run (start ⟨"t", none⟩ 0 claimedStore)
      oneName).any (fun e₀ => e₀.handler.downloading &&
        (e₀.store.bucket "files/x").isNone &&
        ((executions fun _ => 0).runIf inBatchCheck e₀ oneUpload).any fun e₁ =>
          e₁.handler.batching.isSome &&
          ((executions fun _ => 0).step e₁ ⟨1, .refused (.other "")⟩).any fun e =>
            e.handler.isClosing && (e.store.bucket "files/x").isSome) = true)
  simp only [Bool.and_eq_true] at hp
  obtain ⟨⟨hd, hnone⟩, hp⟩ := hp
  obtain ⟨f, hk⟩ := Handler.eq_download hd
  obtain ⟨hg, e₁, hrun, hp⟩ := System.guarded_of_runIf inBatch_of_check oneUpload _ hp
  rw [Bool.and_eq_true, Option.any_eq_true] at hp
  obtain ⟨hb, e, hst, hp⟩ := hp
  rw [Bool.and_eq_true] at hp
  have heq := hclaim _ _ _ _ rfl rfl oneName oneUpload [] e₀ e₁ e e _ f hrun₀ hk hg hrun hb rfl hst
    trivial rfl hp.1
  simp only [Store.traces, Prod.mk.injEq] at heq
  rw [heq.2.2, Option.isSome_iff_ne_none] at hp
  exact hp.2 (Option.isNone_iff_eq_none.mp hnone)

end Execution

end FileExtractor
