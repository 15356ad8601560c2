import FileExtractor.Lib.Pairing
import FileExtractor.Lib.Tokens
import FileExtractor.Properties.TaskInvariant

/-!
# Files and download records stay paired

A `File` row and its record in `downloaded_files` are written in one transaction and deleted in
one transaction, each by its own key. The partner of a row is the record of its owner and its file
name (`Store.recordKey`, over the ghost `owner`), and `Store.FilesPaired` is the pairing.

The existence check is no part of the argument: the unique constraint is, and that the files which
the handlers may still clean up are tokens that are held exclusively. A handler gets such a token
only for a row that it has inserted itself, so it never deletes the row of another one.
-/

namespace FileExtractor

open Rel Lts World

/-! ## The stores -/

namespace Store

/-- The key of the record of a row. -/
def recordKey (s : Store) (m : FileModel) : Option (TaskId × String) :=
  (s.owner m.id).map fun taskId => (taskId, m.filename)

/-- A row and its record. -/
structure Matches (m : FileModel) (d : DownloadedFileModel) : Prop where
  filename : m.filename = d.fileName
  hash : m.hash = d.hash
  status : m.status = .uploaded
  storageKey : m.storageKey = some (Handler.storageKey m.filename)

def FilesPaired (s : Store) : Prop := Paired s.files s.downloaded s.recordKey Matches

/-- The row of the file is stored, for the task. -/
def Stores (s : Store) (taskId : TaskId) (file : File) : Prop :=
  file.toModel ∈ s.files ∧ s.owner file.id = some taskId

variable {s s' : Store} {taskId tid : TaskId} {file : File} {fileHash : FileHash}

theorem files_paired_of_same (hp : s.FilesPaired) (hf : s'.files = s.files)
    (hd : s'.downloaded = s.downloaded) (ho : s'.owner = s.owner) : s'.FilesPaired := by
  have hk : s'.recordKey = s.recordKey := by
    funext m
    simp only [recordKey, ho]
  unfold FilesPaired
  rw [hf, hd, hk]; exact hp

/-- The insertion of a file and of its record. -/
theorem apply_addFile_paired (hp : s.FilesPaired)
    (h : s.apply taskId (.addFile tid file fileHash) = some s') (hh : file.hash = some fileHash)
    (hs : file.status = .uploaded)
    (hk : file.storageKey = some (Handler.storageKey file.filename)) : s'.FilesPaired := by
  obtain ⟨files, downloaded, hf, hd, rfl⟩ := apply_addFile h
  have hnew := Table.get?_eq_none.mp (Table.insert?_eq_some hf).1
  -- the owners of the rows so far are as before
  have hold : Paired s.files s.downloaded
      (recordKey { s with
        files := files, downloaded := downloaded
        owner := Function.update s.owner file.id (some tid) }) Matches := by
    refine hp.relink fun m hm => ?_
    show (Function.update s.owner file.id (some tid) m.id).map _ = _
    have hne : m.id ≠ file.id := hnew m hm
    rw [Function.update_of_ne hne]; rfl
  refine hold.insert hf hd ?_ ⟨rfl, ?_, hs, hk⟩
  · simp [recordKey, File.toModel, DownloadedFileModel.key]
  · simp [File.toModel, hh]

theorem apply_addFile_stores (h : s.apply taskId (.addFile tid file fileHash) = some s') :
    s'.Stores tid file ∧ ∀ tid' file', s.Stores tid' file' →
      s'.Stores tid' file' ∧ file'.id ≠ file.id := by
  obtain ⟨files, downloaded, hf, hd, rfl⟩ := apply_addFile h
  have hnew := Table.get?_eq_none.mp (Table.insert?_eq_some hf).1
  refine ⟨⟨(Table.mem_insert hf).mpr (.inr rfl), Function.update_self ..⟩, fun tid' file' hst => ?_⟩
  have hne : file'.id ≠ file.id := hnew _ hst.1
  exact ⟨⟨(Table.mem_insert hf).mpr (.inl hst.1), (Function.update_of_ne hne _ _).trans hst.2⟩, hne⟩

/-- The deletion of a stored file removes the row and its own record. -/
theorem apply_deleteFile_paired (hp : s.FilesPaired)
    (h : s.apply taskId (.deleteFile tid file) = some s') (hst : s.Stores tid file) :
    s'.FilesPaired := by
  cases h
  refine hp.delete hst.1 ?_
  show (s.owner file.id).map _ = _
  rw [hst.2]; rfl

theorem apply_deleteFile_stores (h : s.apply taskId (.deleteFile tid file) = some s')
    {tid' : TaskId} {file' : File} (hst : s.Stores tid' file') (hne : file'.id ≠ file.id) :
    s'.Stores tid' file' := by
  cases h
  exact ⟨Table.mem_delete.mpr ⟨hst.1, decide_eq_false_iff_not.mpr hne⟩, hst.2⟩

end Store

/-! ## The files that are recorded -/

/-- The file of a `record` is an uploaded one, with the hash of its content. -/
def World.RecordsUploaded (sha256 : Bytes → Digest) (w : World) : Prop :=
  ∀ pid k f file fileHash rest, w.procs pid = .handling k →
    k.handler = .record f file fileHash rest →
    ∃ now fileId extracted, file = Handler.storedFile sha256 now fileId extracted ∧
      fileHash = FileHash.compute sha256 extracted.content

theorem records_uploaded (sha256 : Bytes → Digest) :
    (system sha256).Invariant System.free (World.RecordsUploaded sha256) := by
  refine System.Reach.induct ?_ fun w l w' _ hw _ hst pid k' f file fileHash rest hk hr => ?_
  · rintro w ⟨now, bucket, rfl⟩ pid k f file fileHash rest hk
    cases hk
  · cases (Step.of_step hst).handling hk with
    | kept k lost hp hl hlost => exact hw pid k f file fileHash rest hp hr
    | begun m workerId row hl hp hrow hs hrow' => cases hr
    | resumed k reply c h hl hp hc hs hres =>
      subst hr
      obtain ⟨extracted, fileId, -, -, rfl, rfl⟩ := (Handler.resume_next hres).record
      exact ⟨w.now, fileId, extracted, rfl, rfl⟩

/-! ## The invariant -/

/-- The files that the handlers may still clean up. -/
def World.tokens (w : World) (pid : Pid) : List FileId := (w.procs pid).batchFiles.map File.id

structure World.FilesInvariant (w : World) : Prop where
  paired : w.store.FilesPaired
  stored : ∀ {pid k file}, w.procs pid = .handling k → file ∈ k.handler.batchFiles →
    w.store.Stores k.message.taskId file
  exclusive : Tokens.Exclusive w.tokens
  keys : ∀ {pid k f e key file todo}, w.procs pid = .handling k →
    k.handler = .deleteObject f e key file todo → key = Handler.storageKey file.filename

section Step

variable {sha256 : Bytes → Digest} {w w' : World} {l : Label}

/-- A stored file stays, if no cleanup deletes it in this step. -/
theorem Step.keeps_stores (h : Step sha256 w l w') {taskId : TaskId} {file : File}
    (hst : w.store.Stores taskId file)
    (hne : ∀ {pid reply k f e file' todo}, l = .call pid reply → w.procs pid = .handling k →
      k.handler = .deleteRows f e file' todo → file.id ≠ file'.id) :
    w'.store.Stores taskId file := by
  cases h.filesStep with
  | kept hf hd ho => exact ⟨by rw [hf]; exact hst.1, by rw [ho]; exact hst.2⟩
  | added pid reply k f file' fileHash rest hl hp hk ha =>
    exact ((Store.apply_addFile_stores ha).2 _ _ hst).1
  | deleted pid reply k f e file' todo hl hp hk ha =>
    exact Store.apply_deleteFile_stores ha hst (hne hl hp hk)

end Step

namespace World.FilesInvariant

variable {sha256 : Bytes → Digest} {w w' : World} {l : Label} (hw : w.FilesInvariant)
include hw

/-- Nobody holds the token of a file that is inserted. -/
theorem not_held {taskId tid : TaskId} {file : File} {fileHash : FileHash} {s : Store}
    (h : w.store.apply taskId (.addFile tid file fileHash) = some s) (pid : Pid) :
    file.id ∉ w.tokens pid := by
  intro hmem
  obtain ⟨file', hf, he⟩ := List.mem_map.mp hmem
  cases hp : w.procs pid with
  | handling k =>
    rw [hp] at hf
    exact ((Store.apply_addFile_stores h).2 _ _ (hw.stored hp hf)).2 he
  | _ => rw [hp] at hf; cases hf

theorem step_paired (hid : w.CopiesOfMessage) (hup : w.RecordsUploaded sha256)
    (h : Step sha256 w l w') : w'.store.FilesPaired := by
  cases h.filesStep with
  | kept hf hd ho => exact Store.files_paired_of_same hw.paired hf hd ho
  | added pid reply k f file fileHash rest hl hp hk ha =>
    obtain ⟨now, fileId, extracted, rfl, rfl⟩ := hup pid k _ _ _ _ hp hk
    exact Store.apply_addFile_paired hw.paired ha rfl rfl rfl
  | deleted pid reply k f e file todo hl hp hk ha =>
    refine Store.apply_deleteFile_paired hw.paired ha ?_
    rw [hid.taskId hp (by rw [hk]; rfl)]
    exact hw.stored hp (by rw [hk]; exact List.mem_cons_self)

theorem step_exclusive (h : Step sha256 w l w') : Tokens.Exclusive w'.tokens := by
  by_cases hg : ∀ pid, (w'.procs pid).batchFiles.Sublist (w.procs pid).batchFiles
  · exact hw.exclusive.shrink fun pid => (hg pid).map File.id
  -- the one process that gets more has recorded its file
  obtain ⟨pid, hpid⟩ := not_forall.mp hg
  obtain ⟨k, f, file, fileHash, rest, rfl, hp, hk, hb⟩ := (h.batchFiles pid).resolve_left hpid
  have ha : w.store.apply k.message.taskId (.addFile f.task.id file fileHash) = some w'.store := by
    obtain ⟨c, handler, hc, hs, -⟩ := h.called hp
    rw [hk] at hc; cases hc
    exact (Store.serve_done hs).2
  refine hw.exclusive.grow (hw.not_held ha) (i := pid) ?_ fun q hq => ?_
  · have := hb.map File.id
    rwa [List.map_append] at this
  · refine List.Sublist.map File.id ((h.batchFiles q).resolve_right ?_)
    rintro ⟨k', f', file', fileHash', rest', hl, -⟩
    cases hl
    exact hq rfl

theorem step_stored (hid : w.CopiesOfMessage) (h : Step sha256 w l w') {pid : Pid} {k' : Worker}
    {file : File} (hp' : w'.procs pid = .handling k') (hf : file ∈ k'.handler.batchFiles) :
    w'.store.Stores k'.message.taskId file := by
  -- a file that the handler held before, and that no cleanup deletes now
  have old : ∀ {k}, w.procs pid = .handling k → k.message = k'.message →
      file ∈ k.handler.batchFiles → (∀ {reply f e file' todo}, l = .call pid reply →
        k.handler = .deleteRows f e file' todo → file ∈ todo) →
      w'.store.Stores k'.message.taskId file := by
    intro k hp hm hmem htodo
    have htok : file.id ∈ w.tokens pid := by
      refine List.mem_map_of_mem ?_
      rw [hp]; exact hmem
    rw [← hm]
    refine h.keeps_stores (hw.stored hp hmem) fun {q reply k₀ f e file' todo} hl hq hk₀ => ?_
    have htokens : w.tokens q = file'.id :: todo.map File.id := by
      show (w.procs q).batchFiles.map File.id = _
      rw [hq]
      show k₀.handler.batchFiles.map File.id = _
      rw [hk₀]; rfl
    refine hw.exclusive.head_ne htokens htok fun hqp => ?_
    subst hqp
    rw [hp] at hq; cases hq
    exact List.mem_map_of_mem (htodo hl hk₀)
  cases h.handling hp' with
  | kept k lost hp hl hlost => exact old hp rfl hf fun hl' _ => absurd hl' (hl _)
  | begun m workerId row hl hp hrow hs hrow' => cases hf
  | resumed k reply c handler hl hp hc hs hr =>
    rcases h.batchFiles pid with hb | ⟨k₀, f, file₀, fileHash, rest, hl', hp₀, hk₀, hb⟩
    · rw [hp, hp'] at hb
      refine old hp rfl (hb.subset hf) fun _ hk => ?_
      rw [hk] at hr
      exact (Handler.resume_next hr).deleteRows.subset hf
    · rw [hp] at hp₀; cases hp₀
      rw [hp, hp'] at hb
      rcases List.mem_append.mp (hb.subset hf) with hf | hf
      · exact old hp rfl hf fun _ hk => by rw [hk₀] at hk; cases hk
      · rw [List.mem_singleton.mp hf]
        rw [hl] at hl'; cases hl'
        rw [hk₀] at hc; cases hc
        have hst := (Store.apply_addFile_stores (Store.serve_done hs).2).1
        rwa [hid.taskId hp (by rw [hk₀]; rfl)] at hst

/-- A cleanup deletes the object of its file. -/
theorem step_keys (h : Step sha256 w l w') {pid : Pid} {k' : Worker}
    {f : Frame} {e : Exn} {key : String} {file : File} {todo : List File}
    (hp' : w'.procs pid = .handling k') (hk' : k'.handler = .deleteObject f e key file todo) :
    key = Handler.storageKey file.filename := by
  cases h.handling hp' with
  | kept k lost hp hl hlost => exact hw.keys hp hk'
  | begun m workerId row hl hp hrow hs hrow' => cases hk'
  | resumed k reply c handler hl hp hc hs hr =>
    subst hk'
    obtain ⟨hkey, hmem⟩ := (Handler.resume_next hr).deleteObject
    obtain ⟨d, hd, hlink, hmatch⟩ := hw.paired.linked (hw.stored hp hmem).1
    have : some key = some (Handler.storageKey file.filename) := hkey.symm.trans hmatch.storageKey
    exact Option.some.inj this

end World.FilesInvariant

/-- **The pairing and the tokens**, in every reachable state. -/
theorem files_invariant (sha256 : Bytes → Digest) :
    (system sha256).Invariant System.free World.FilesInvariant := by
  refine System.Reach.induct ?_ fun w l w' hr hw _ hst => ?_
  · rintro w ⟨now, bucket, rfl⟩
    exact ⟨Paired.empty, fun h => (by cases h), ⟨fun _ => List.nodup_nil, fun h => by cases h⟩,
      fun h => by cases h⟩
  · have h := Step.of_step hst
    have hid := copies_of_message sha256 w hr
    exact ⟨hw.step_paired hid (records_uploaded sha256 w hr) h, hw.step_stored hid h,
      hw.step_exclusive h, hw.step_keys h⟩

instance : Nonempty FileModel := ⟨⟨0, "", 0, none, none, .created, 0, none⟩⟩

/-- **Files and records are paired.** In every reachable state a bijection from the records onto
the `File` rows takes each record to a row of its own task with the same file name and hash; and
no two rows have one task and file name. -/
theorem files_paired_with_records (sha256 : Bytes → Digest) :
    (system sha256).Invariant System.free fun w =>
      (∃ row : DownloadedFileModel → FileModel,
        Set.BijOn row {d | d ∈ w.store.downloaded} {m | m ∈ w.store.files} ∧
        ∀ d ∈ w.store.downloaded, w.store.owner (row d).id = some d.taskId ∧
          (row d).filename = d.fileName ∧ (row d).hash = d.hash) ∧
      ∀ m ∈ w.store.files, ∀ m' ∈ w.store.files,
        w.store.owner m.id = w.store.owner m'.id → m.filename = m'.filename → m = m' := by
  intro w hw
  have hp := (files_invariant sha256 w hw).paired
  refine ⟨?_, fun m hm m' hm' ho hn => ?_⟩
  · obtain ⟨row, hbij, hrow⟩ := hp.exists_bijOn
    refine ⟨row, hbij, fun d hd => ?_⟩
    obtain ⟨hl, hmatch⟩ := hrow d hd
    obtain ⟨taskId, ho, hk⟩ := Option.map_eq_some_iff.mp hl
    have htask : taskId = d.taskId := congrArg Prod.fst hk
    exact ⟨htask ▸ ho, hmatch.filename, hmatch.hash⟩
  · refine hp.injective hm hm' ?_
    simp only [Store.recordKey, ho, hn]

end FileExtractor
