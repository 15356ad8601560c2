import FileExtractor.Properties.Marks
import FileExtractor.Worker.Batches
import Mathlib.Data.List.Dedup

/-!
# The files that a task has obtained

A run whose calls succeed on a task that is claimed for the first time. `processed_files` counts the
names of every batch, `downloaded_files` has a row for each different name that is a file: the two
are equal exactly when no name is got twice and none is the name of a directory
(`processed_obtained_iff`).

A task without a claim has no records, no handler and a row without processed names
(`World.Unclaimed`). From there on a name of a finished batch is recorded, and one of the current
batch is recorded or still to come in its archive (`Collected`).
-/

namespace FileExtractor

open Rel Lts World

/-- The rows of `downloaded_files` of a task. -/
def DownloadedTable.ofTask (downloaded : DownloadedTable) (taskId : TaskId) :
    List DownloadedFileModel :=
  downloaded.rows.filter fun m => m.taskId = taskId

/-! ## Counting the records -/

/-- The members of `names` that satisfy `p`, each once, are as many as `names` exactly when these
have no duplicates and all satisfy `p`. -/
theorem length_eq_iff {α : Type} [DecidableEq α] {l names : List α} {p : α → Bool} (hl : l.Nodup)
    (hmem : ∀ n, n ∈ l ↔ n ∈ names ∧ p n = true) :
    l.length = names.length ↔ names.Nodup ∧ ∀ n ∈ names, p n = true := by
  have hnodup : (names.dedup.filter p).Nodup := (List.nodup_dedup names).filter p
  have hperm : l.Perm (names.dedup.filter p) :=
    (List.perm_ext_iff_of_nodup hl hnodup).mpr fun n => by
      rw [hmem, List.mem_filter, List.mem_dedup]
  have hsub : (names.dedup.filter p).Sublist names :=
    List.filter_sublist.trans (List.dedup_sublist names)
  rw [hperm.length_eq]
  constructor
  · intro hlen
    have heq := hsub.eq_of_length hlen
    refine ⟨heq ▸ hnodup, fun n hn => ?_⟩
    rw [← heq] at hn
    exact (List.mem_filter.mp hn).2
  · rintro ⟨hn, hp⟩
    rw [hn.dedup, List.filter_eq_self.mpr hp]

namespace Store

variable {s : Store} {taskId : TaskId} {n : String}

theorem mem_ofTask : n ∈ (s.downloaded.ofTask taskId).map DownloadedFileModel.fileName ↔
    s.Recorded taskId n := by
  unfold Recorded DownloadedTable.exists_ DownloadedTable.ofTask
  rw [Option.isSome_iff_exists, List.mem_map]
  constructor
  · rintro ⟨m, hm, rfl⟩
    obtain ⟨hm, ht⟩ := List.mem_filter.mp hm
    exact ⟨m, Table.get?_eq_some.mpr ⟨hm, by rw [← of_decide_eq_true ht]; rfl⟩⟩
  · rintro ⟨m, hm⟩
    obtain ⟨hmem, hk⟩ := Table.get?_eq_some.mp hm
    obtain ⟨ht, hname⟩ := Prod.mk.inj hk
    exact ⟨m, List.mem_filter.mpr ⟨hmem, decide_eq_true ht⟩, hname⟩

/-- The names of the rows of a task are different. -/
theorem nodup_ofTask (s : Store) (taskId : TaskId) :
    ((s.downloaded.ofTask taskId).map DownloadedFileModel.fileName).Nodup := by
  have hkeys : ((s.downloaded.ofTask taskId).map DownloadedFileModel.key).Nodup :=
    s.downloaded.nodup.sublist (List.filter_sublist.map _)
  refine (List.nodup_map_iff_inj_on hkeys.of_map).mpr fun m hm m' hm' hname => ?_
  refine List.inj_on_of_nodup_map hkeys hm hm' (Prod.ext ?_ hname)
  exact (of_decide_eq_true (List.mem_filter.mp hm).2).trans
    (of_decide_eq_true (List.mem_filter.mp hm').2).symm

end Store

/-! ## A task without a claim -/

/-- No handler has had the task. -/
structure World.Unclaimed (w : World) (id : TaskId) : Prop where
  row : ∀ m, w.store.tasks.get? id = some m → m.processedFiles = 0
  records : ∀ n, ¬ w.store.Recorded id n
  handlers : ∀ pid k, w.procs pid = .handling k → k.message.taskId ≠ id

namespace World.Unclaimed

variable {sha256 : Bytes → Digest} {w w' : World} {l : Label} {id : TaskId}
  (hu : w.Unclaimed id) (hid : w.CopiesOfMessage)
include hu hid

theorem step_row (h : Step sha256 w l w') (hn : w'.claims id = 0) {m' : DownloadTaskModel}
    (hm' : w'.store.tasks.get? id = some m') : m'.processedFiles = 0 := by
  have hr := h.rowStep hm'
  generalize hg : w.store.tasks.get? id = g at hr
  cases hr with
  | kept m hc => exact hu.row m' hg
  | added pid candidateId fate hl hc => rfl
  | claimed m pid msg workerId fate hl hf hp hm hs hc => rw [hn] at hc; cases hc
  | written m pid reply k t hl hp hc ht hcl =>
    have hk : t.id = k.message.taskId :=
      ((hid pid k hp).stored (.identity fun i _ _ => i = k.message.taskId) hc).1
    exact absurd (hk.symm.trans ht) (hu.handlers pid k hp)
  | releasedStuck m pid ids fate hl hf hmem hs hc => exact hu.row m hg
  | releasedBlocked m pid ids fate hl hf hmem hs hc => exact hu.row m hg

theorem step_records (h : Step sha256 w l w') (n : String) : ¬ w'.store.Recorded id n := by
  rcases h.effect with same | ⟨pid, reply, k, c, rfl, hp, hc, -, ha⟩
  · rw [Store.recorded_of_eq same.downloaded]; exact hu.records n
  · intro hr
    obtain ⟨file, fileHash, rfl, -⟩ := Store.apply_newly_recorded ha (hu.records n) hr
    obtain ⟨f, rest, hk, ht⟩ := Handler.call_addFile hc
    have htask : f.task.id = k.message.taskId := hid.taskId hp (by rw [hk]; rfl)
    exact hu.handlers pid k hp (htask.symm.trans ht.symm)

omit hid in
theorem step_handlers (h : Step sha256 w l w') (hn : w'.claims id = 0) {pid : Pid} {k' : Worker}
    (hp' : w'.procs pid = .handling k') : k'.message.taskId ≠ id := by
  cases h.handling hp' with
  | kept k lost hp hl hlost => exact hu.handlers pid k hp
  | begun m workerId row hl hp hrow hs hrow' =>
    rintro rfl
    have hr := h.rowStep hrow'
    rw [hrow] at hr
    generalize hm : row.claimed workerId w.now = m' at hr
    have hst : m'.status = .running := by rw [← hm]; rfl
    cases hr with
    | kept m hc => rw [hs] at hst; cases hst
    | claimed m pid' msg workerId' fate hl' hf hp' hm' hs' hc => rw [hn] at hc; cases hc
    | written m pid' reply k t hl' => rw [hl] at hl'; cases hl'
    | releasedStuck m pid' ids fate hl' => rw [hl] at hl'; cases hl'
    | releasedBlocked m pid' ids fate hl' => rw [hl] at hl'; cases hl'
  | resumed k reply c handler hl hp hc hs hr => exact hu.handlers pid k hp

end World.Unclaimed

/-- Claims are never taken back. -/
theorem Step.claims_mono {sha256 : Bytes → Digest} {w w' : World} {l : Label}
    (h : Step sha256 w l w') (id : TaskId) : w.claims id ≤ w'.claims id := by
  cases h with
  | claimed pid m workerId fate row hp hf hrow hs =>
    show w.claims id ≤ Function.update w.claims m.taskId (w.claims m.taskId + 1) id
    by_cases he : id = m.taskId
    · rw [he, Function.update_self]; exact Nat.le_succ _
    · rw [Function.update_of_ne he]
  | _ => exact Nat.le_refl _

/-- **A task that was never claimed** has no handler, no record and no processed names. -/
theorem unclaimed_of_claims (sha256 : Bytes → Digest) :
    (system sha256).Invariant System.free fun w => ∀ id, w.claims id = 0 → w.Unclaimed id := by
  refine System.Reach.induct ?_ fun w l w' hr hw _ hst id hn => ?_
  · rintro w ⟨now, bucket, rfl⟩ id -
    refine ⟨fun m hm => ?_, fun n hr => ?_, fun pid k hp => ?_⟩
    · cases hm
    · cases hr
    · cases hp
  · have h := Step.of_step hst
    have hu := hw id (Nat.le_zero.mp (hn ▸ h.claims_mono id))
    have hid := copies_of_message sha256 w hr
    exact ⟨fun m hm => hu.step_row hid h hn hm, hu.step_records hid h,
      fun pid k hp => hu.step_handlers h hn hp⟩

/-! ## The names of a run -/

namespace Handler

/-- The names of the batch that is downloaded. -/
def fetching : Handler → List String
  | download f => f.batch
  | _ => []

/-- The names that are not downloaded yet. -/
def ahead : Handler → List String
  | names f | storeReceived f | storeProcessed f => f.pending
  | download f => f.batch ++ f.pending
  | extract f _ | storeHeartbeat f _ _ | checkExists f _ _ | upload f _ _ => f.pending
  | record f _ _ _ | mark f | deleteObject f _ _ _ _ | deleteRows f _ _ _ => f.pending
  | getTask | storeBlocked _ | storeSuccess _ | storeFailed _ | ended _ => []

/-- The names of the entries that are still to be stored. -/
def coming : Handler → List String
  | extract _ rest => rest.map ExtractedFile.filename
  | storeHeartbeat _ extracted rest | checkExists _ extracted rest | upload _ extracted rest =>
    extracted.filename :: rest.map ExtractedFile.filename
  | record _ file _ rest => file.filename :: rest.map ExtractedFile.filename
  | _ => []

variable {sha256 : Bytes → Digest} {now : Time} {h h' : Handler} {a : Answer} {R : String → Prop}
  {n : String}

/-- The names of an answer are ahead, and those of a batch no more after its download. -/
theorem Answered.ahead (ha : Answered sha256 now h a h') (hr : h.recovering = false) :
    h.ahead ++ a.fileNames = h.fetching ++ h'.ahead := by
  cases ha with
  | leftover f hp => exact (List.append_nil _).trans (List.take_append_drop 3 f.pending).symm
  | received f => exact (List.append_nil _).trans (List.take_append_drop 3 f.pending).symm
  | again f hp => exact (List.append_nil _).trans (List.take_append_drop 3 f.pending).symm
  | completed f hp => simp [Handler.ahead, Answer.fileNames, fetching, hp]
  | closed f h hh =>
    rcases hh with rfl | rfl | rfl
    · cases hr
    · rfl
    · cases hr
  | objectDeleted | rowsDeleted => cases hr
  | _ => simp [Handler.ahead, Answer.fileNames, fetching, Frame.start, countEntry]

/-- **What is recorded or still to come** after an answer: in addition the files of a batch that is
downloaded. -/
theorem Answered.coming (ha : Answered sha256 now h a h') (hr : h.recovering = false)
    (hrec : h.recording = false)
    (hfound : ∀ f extracted rest, h = checkExists f extracted rest → a = .found true →
      R extracted.filename)
    (hexact : ∀ f archive, h = download f → a = .archive archive →
      ∀ n, n ∈ archive.map ZipInfo.filename ↔ n ∈ f.batch) (n : String) :
    R n ∨ n ∈ h'.coming ↔ (R n ∨ n ∈ h.coming) ∨ n ∈ h.fetching ∧ isDirectory n = false := by
  cases ha with
  | downloaded f archive =>
    show R n ∨ n ∈ (extractStream archive).map ExtractedFile.filename ↔ _
    rw [mem_extractStream, hexact f archive rfl rfl]
    simp [Handler.coming, fetching]
  | skipped f extracted rest =>
    have hR := hfound f extracted rest rfl rfl
    constructor
    · rintro (hn | hn)
      · exact .inl (.inl hn)
      · exact .inl (.inr (List.mem_cons_of_mem _ hn))
    · rintro ((hn | hn) | ⟨hn, -⟩)
      · exact .inl hn
      · rcases List.mem_cons.mp hn with rfl | hn
        · exact .inl hR
        · exact .inr hn
      · cases hn
  | recorded => cases hrec
  | closed f h hh =>
    rcases hh with rfl | rfl | rfl
    · cases hr
    · simp [Handler.coming, fetching]
    · cases hr
  | objectDeleted | rowsDeleted => cases hr
  | _ => simp [Handler.coming, fetching, countEntry, nextBatch, storedFile]

end Handler

namespace Execution

/-- All calls succeed, and the archive of a batch has one entry for each of its different names. -/
def Exact (e : Execution) (ev : Event) : Prop :=
  ev.reply.failed = false ∧
  ∀ f archive, e.handler = .download f → ev.reply = .done (.archive archive) →
    (archive.map ZipInfo.filename).Nodup ∧ ∀ n, n ∈ archive.map ZipInfo.filename ↔ n ∈ f.batch

/-- The task has a record of the name. -/
def Recorded (e : Execution) (n : String) : Prop := e.store.Recorded e.command.taskId n

/-- A run whose batches so far, with the names `taken`, are recorded or still to come. -/
structure Collected (s : DownloadTask) (e : Execution) : Prop where
  batched : Batched s e
  names : ∃ taken, taken ++ e.handler.ahead = e.got ∧
    ∀ n, e.Recorded n ∨ n ∈ e.handler.coming ↔ n ∈ taken ∧ isDirectory n = false

variable {sha256 : Bytes → Digest} {e e' : Execution} {ev : Event} {s : DownloadTask}

/-- The records after an answer. -/
theorem recorded_kept (hst : (executions sha256).step e ev = some e')
    (hok : ev.reply.failed = false) (hr : e.handler.recovering = false)
    (hrec : e.handler.recording = false) (n : String) : e'.Recorded n ↔ e.Recorded n := by
  obtain ⟨a, ha⟩ := Reply.of_not_failed hok
  obtain ⟨call, hcall, -⟩ := calls_step hst
  have happly := (store_answered hst ha hcall).2
  have hdown : e'.store.downloaded = e.store.downloaded := by
    refine (Store.apply_files happly (fun tid file fileHash hc => ?_) fun tid file hc => ?_).2.1
    · obtain ⟨f, rest, hk, -⟩ := Handler.call_addFile (hc ▸ hcall)
      rw [hk] at hrec; cases hrec
    · obtain ⟨f, x, todo, hk, -⟩ := Handler.call_deleteFile (hc ▸ hcall)
      rw [hk] at hr; cases hr
  rw [Recorded, Recorded, (command_step hst).1]
  exact Store.recorded_of_eq hdown

/-- A file whose rows are added is recorded. -/
theorem recorded_added (h : Sound s.candidateId e)
    (hst : (executions sha256).step e ev = some e') {f : Frame} {file : File}
    {fileHash : FileHash} {rest : List ExtractedFile}
    (hk : e.handler = .record f file fileHash rest) (hr : ev.reply = .done .done) (n : String) :
    e'.Recorded n ↔ e.Recorded n ∨ n = file.filename := by
  have happly := (store_answered hst hr (h.call_record hk)).2
  rw [Recorded, Recorded, (command_step hst).1]
  constructor
  · intro hn
    by_cases hold : e.store.Recorded e.command.taskId n
    · exact .inl hold
    · obtain ⟨file', fileHash', hc, rfl⟩ := Store.apply_newly_recorded happly hold hn
      cases hc; exact .inr rfl
  · rintro (hold | rfl)
    · exact Store.apply_keeps_recorded happly hold nofun
    · exact (Store.apply_addFile_recorded happly).1

/-- The names that are recorded or still to come. -/
theorem Collected.coming (h : Collected s e) (hok : Exact e ev)
    (hst : (executions sha256).step e ev = some e') (n : String) :
    e'.Recorded n ∨ n ∈ e'.handler.coming ↔
      (e.Recorded n ∨ n ∈ e.handler.coming) ∨ n ∈ e.handler.fetching ∧ isDirectory n = false := by
  obtain ⟨a, ha⟩ := Reply.of_not_failed hok.1
  have hsound := h.batched.sound
  have hans := hsound.answered hst ha
  cases hrec : e.handler.recording with
  | true =>
    obtain ⟨f, file, fileHash, rest, hk⟩ : ∃ f file fileHash rest,
        e.handler = .record f file fileHash rest := by
      generalize e.handler = k at hrec
      cases k <;> first | exact ⟨_, _, _, _, rfl⟩ | cases hrec
    obtain ⟨rfl, hk'⟩ := (hk ▸ hans).of_record
    rw [recorded_added hsound hst hk ha, hk, hk']
    simp only [Handler.coming, Handler.fetching, List.mem_cons, List.not_mem_nil, false_and,
      or_false]
    exact or_assoc
  | false =>
    rw [recorded_kept hst hok.1 h.batched.going hrec]
    refine hans.coming h.batched.going hrec (fun f extracted rest hk hf => ?_)
      (fun f archive hk hx => (hok.2 f archive hk (hx ▸ ha)).2) n
    exact (hsound.found hst hk (hf ▸ ha)).1.symm

/-- **Every exact event keeps it.** -/
theorem Collected.step (h : Collected s e) (hok : Exact e ev)
    (hst : (executions sha256).step e ev = some e') : Collected s e' := by
  obtain ⟨taken, hahead, hnames⟩ := h.names
  obtain ⟨a, ha⟩ := Reply.of_not_failed hok.1
  have hans := h.batched.sound.answered hst ha
  refine ⟨h.batched.step hok.1 hst, taken ++ e.handler.fetching, ?_, fun n => ?_⟩
  · rw [got_step hst ha, ← hahead, List.append_assoc, List.append_assoc, hans.ahead h.batched.going]
  · rw [h.coming hok hst, hnames, List.mem_append, or_and_right]

/-- The world after the first claim of the task of `m`, before its handler has run. -/
def FirstClaim (sha256 : Bytes → Digest) (m : Message) (w' : World) : Prop :=
  ∃ w pid workerId, (system sha256).Reach System.free w ∧ w.procs pid = .received m workerId ∧
    w.claims m.taskId = 0 ∧ (system sha256).step w (.claim pid .done) = some w' ∧
    w'.procs pid = .handling ⟨m, workerId, .getTask, false⟩

/-- Its row is `RUNNING` and has no processed names, and there are no records. -/
theorem FirstClaim.row {m : Message} {w' : World} (h : FirstClaim sha256 m w') :
    ∃ s, w'.store.tasks.getById m.taskId = some s ∧ s.status = .running ∧ s.processedFiles = 0 ∧
      ∀ n, ¬ w'.store.Recorded m.taskId n := by
  obtain ⟨w, pid, workerId, hr, hp, hclaims, hst, hk⟩ := h
  have hu := unclaimed_of_claims sha256 w hr m.taskId hclaims
  have hstep : Step sha256 w (.claim pid .done) w' := Step.of_step hst
  obtain ⟨row, hrow, hrow'⟩ : ∃ row, w.store.tasks.get? m.taskId = some row ∧
      w'.store.tasks.get? m.taskId = some (row.claimed workerId w.now) := by
    generalize Worker.mk m workerId .getTask false = k at hk
    cases hstep.handling hk with
    | kept k lost hp' hl hlost => rw [hp] at hp'; cases hp'
    | begun m' workerId' row hl hp' hrow hs hrow' =>
      rw [hp] at hp'; cases hp'
      exact ⟨row, hrow, hrow'⟩
    | resumed k reply c handler hl => cases hl
  refine ⟨(row.claimed workerId w.now).toDomain, ?_, rfl, hu.row row hrow, fun n => ?_⟩
  · rw [TaskTable.getById, hrow']; rfl
  · exact hu.step_records (copies_of_message sha256 w hr) hstep n

/-- **Processed names and obtained files.** A task that is claimed for the first time runs to a
success if no call fails. Where each archive has one entry for each different name of its batch, the
processed names are as many as the records of the task exactly when no name has been got twice and
none is the name of a directory. -/
theorem processed_obtained_iff (sha256 : Bytes → Digest) (m : Message) (w : World)
    (hw : FirstClaim sha256 m w) (evs : List Event) (e : Execution)
    (hg : (executions sha256).Guarded Exact (start m w.now w.store) evs)
    (hrun : (executions sha256).run (start m w.now w.store) evs = some e)
    (he : e.handler.isEnded = true) :
    ∃ t, e.stored = some t ∧ t.status = .success ∧
      (t.processedFiles = (e.store.downloaded.ofTask m.taskId).length ↔
        e.got.Nodup ∧ ∀ n ∈ e.got, isDirectory n = false) := by
  obtain ⟨s, hs, hrunning, hzero, hrecords⟩ := hw.row
  have hstart : Collected s (start m w.now w.store) :=
    ⟨batched_start hs hrunning, [], rfl,
      fun n => by simp [Recorded, start, Handler.coming, hrecords]⟩
  obtain ⟨hbatched, taken, hahead, hnames⟩ := System.run_keeps (I := Collected s)
    (fun e ev e' h hok hst => h.step hok hst) hstart hg hrun
  obtain ⟨hend, t, ht, hst, -, hprocessed⟩ := hbatched.ended he
  rw [hend] at hahead hnames
  obtain rfl : taken = e.got := (List.append_nil taken).symm.trans hahead
  have hmem : ∀ n, n ∈ (e.store.downloaded.ofTask m.taskId).map DownloadedFileModel.fileName ↔
      n ∈ e.got ∧ (!isDirectory n) = true := by
    intro n
    have hn := hnames n
    rw [Recorded, command_run hrun] at hn
    rw [Store.mem_ofTask, Bool.not_eq_true', ← hn]
    exact (or_iff_left (List.not_mem_nil)).symm
  have hcount := length_eq_iff (Store.nodup_ofTask e.store m.taskId) hmem
  rw [List.length_map] at hcount
  refine ⟨t, ht, hst, ?_⟩
  simp only [Bool.not_eq_true'] at hcount
  rw [← hcount]
  omega

/-! ## A name that is got twice -/

/-- `Exact`, checked. -/
def exactCheck (e : Execution) (ev : Event) : Bool :=
  !ev.reply.failed &&
  match e.handler, ev.reply with
  | .download f, .done (.archive archive) =>
    let fileNames := archive.map ZipInfo.filename
    decide fileNames.Nodup && fileNames.all (f.batch.contains ·) &&
      f.batch.all (fileNames.contains ·)
  | _, _ => true

theorem exact_of_check (e : Execution) (ev : Event) (h : exactCheck e ev = true) :
    Exact e ev := by
  rw [exactCheck, Bool.and_eq_true, Bool.not_eq_true'] at h
  refine ⟨h.1, fun f archive hk hr => ?_⟩
  have harchive := h.2
  rw [hk, hr] at harchive
  simp only [Bool.and_eq_true, decide_eq_true_eq, List.all_eq_true, List.contains_iff_mem]
    at harchive
  exact ⟨harchive.1.1, fun n => ⟨harchive.1.2 n, harchive.2 n⟩⟩

/-- Some world after a first claim. -/
theorem first_claim : ∃ w, FirstClaim (fun _ => 0) ⟨"t", some "c"⟩ w ∧ w.now = 0 ∧
    w.store = claimedStore := by
  have hrun : (system fun _ => 0).run (fresh 0 fun _ => none)
      [.start 0 "t" (some "c") .done, .send 0, .deliver 1 ⟨"t", some "c"⟩ "a"] = some _ := rfl
  exact ⟨_, ⟨_, 1, "a", System.reach_of_run ⟨0, fun _ => none, rfl⟩ hrun, rfl, rfl, rfl, rfl⟩,
    rfl, rfl⟩

/-- An entry is stored, of which no heartbeat is due. -/
def storesEntry (fileId : FileId) : List Event :=
  [⟨1, .done .next⟩, ⟨1, .done (.found false)⟩, ⟨1, .done (.stored fileId)⟩, ⟨1, .done .done⟩]

/-- The first entry of the run is stored. -/
def storesFirst (fileId : FileId) : List Event :=
  [⟨1, .done .next⟩, ⟨1, .done .done⟩] ++ (storesEntry fileId).tail

/-- The archive is at its end, and its batch is marked. -/
def marksBatch : List Event := [⟨1, .done .next⟩, ⟨1, .done .done⟩, ⟨1, .done .done⟩]

/-- A single name is got and stored. -/
def obtainsOne : List Event :=
  [taskRead, ⟨1, .done (.names ["x"])⟩, ⟨1, .done .done⟩, ⟨1, .done (.archive [⟨"x", []⟩])⟩] ++
    storesFirst 0 ++ marksBatch ++ [⟨1, .done (.names [])⟩, ⟨1, .done .done⟩]

/-- Four names are got and three of them marked. The fourth, which is not marked yet, is got again;
the two are one batch, with one entry. -/
def fourthTwice : List Event :=
  [taskRead, ⟨1, .done (.names ["w", "x", "y", "z"])⟩, ⟨1, .done .done⟩,
    ⟨1, .done (.archive [⟨"w", []⟩, ⟨"x", []⟩, ⟨"y", []⟩])⟩] ++
    storesFirst 0 ++ storesEntry 1 ++ storesEntry 2 ++ marksBatch ++
    [⟨1, .done (.names ["z"])⟩, ⟨1, .done .done⟩, ⟨1, .done (.archive [⟨"z", []⟩])⟩] ++
    storesEntry 3 ++ marksBatch ++ [⟨1, .done (.names [])⟩, ⟨1, .done .done⟩]

/-- The run of `obtainsOne`. -/
theorem one_name_obtained : ∃ w e t, FirstClaim (fun _ => 0) ⟨"t", some "c"⟩ w ∧
    (executions fun _ => 0).run (start ⟨"t", some "c"⟩ w.now w.store) obtainsOne = some e ∧
    e.stored = some t ∧ t.status = .success ∧
    (t.processedFiles = (e.store.downloaded.ofTask "t").length ↔
      e.got.Nodup ∧ ∀ n ∈ e.got, isDirectory n = false) := by
  obtain ⟨w, hw, hnow, hstore⟩ := first_claim
  obtain ⟨hg, e, hrun, he⟩ := System.guarded_of_runIf (S := executions fun _ => 0)
    (s := start ⟨"t", some "c"⟩ 0 claimedStore) exact_of_check obtainsOne
    (fun e => e.handler.isEnded) (by decide +kernel)
  rw [← hnow, ← hstore] at hg hrun
  obtain ⟨t, ht⟩ := processed_obtained_iff _ _ w hw obtainsOne e hg hrun he
  exact ⟨w, e, t, hw, hrun, ht⟩

/-- Five names are processed, and four files are recorded. -/
theorem fourth_name_counted_twice : ¬ ∀ (m : Message) (w : World),
    FirstClaim (fun _ => 0) m w → ∀ (evs : List Event) (e : Execution),
      (executions fun _ => 0).Guarded Exact (start m w.now w.store) evs →
      (executions fun _ => 0).run (start m w.now w.store) evs = some e →
      e.handler.isEnded = true → ∀ t, e.stored = some t → t.status = .success →
      t.processedFiles = (e.store.downloaded.ofTask m.taskId).length := by
  intro hclaim
  obtain ⟨w, hw, hnow, hstore⟩ := first_claim
  obtain ⟨hg, e, hrun, he⟩ := System.guarded_of_runIf (S := executions fun _ => 0)
    (s := start ⟨"t", some "c"⟩ 0 claimedStore) exact_of_check fourthTwice
    (fun e => e.handler.isEnded &&
      (e.stored.any fun t => t.status = .success && t.processedFiles = 5) &&
      (e.store.downloaded.ofTask "t").length = 4) (by decide +kernel)
  rw [← hnow, ← hstore] at hg hrun
  simp only [Bool.and_eq_true, Option.any_eq_true, decide_eq_true_eq] at he
  obtain ⟨⟨he, t, ht, hs, hcount⟩, hlen⟩ := he
  have heq := hclaim _ w hw fourthTwice e hg hrun he t ht hs
  rw [hcount, hlen] at heq
  cases heq

end Execution

end FileExtractor
