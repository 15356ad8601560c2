import FileExtractor.Worker.Execution

/-!
# The cleanup of a batch

`Store.cleanUp` is what `_cleanup_batch_files` does to one file. A cleanup whose calls succeed does
it to the files of its list, one after the other, and then the exception makes the run end
(`Sound.cleans_up`); and it does come to that (`Sound.leads_to_closing`).
-/

namespace FileExtractor

open Rel Lts

namespace Store

/-- The object, the row and the record of a file are deleted. -/
def cleanUp (taskId : TaskId) (s : Store) (file : File) : Store :=
  { s with
    bucket := Function.update s.bucket (Handler.storageKey file.filename) none
    files := s.files.deleteById file.id
    downloaded := s.downloaded.deleteRecord taskId file.filename }

/-- What a batch may leave in the stores. -/
def traces (s : Store) : FileTable × DownloadedTable × (String → Option Bytes) :=
  (s.files, s.downloaded, s.bucket)

variable {taskId : TaskId} {s : Store} {file : File} {files : List File}

theorem cleanUp_comm (a b : File) :
    (s.cleanUp taskId a).cleanUp taskId b = (s.cleanUp taskId b).cleanUp taskId a := by
  have hbucket : ∀ k l : String, Function.update (Function.update s.bucket k none) l none =
      Function.update (Function.update s.bucket l none) k none := by
    intro k l
    by_cases h : k = l
    · rw [h]
    · exact Function.update_comm h ..
  simp only [cleanUp, hbucket (Handler.storageKey a.filename), FileTable.deleteById,
    DownloadedTable.deleteRecord, Table.delete_comm s.files fun m => m.id = a.id,
    Table.delete_comm s.downloaded fun m => m.key = (taskId, a.filename)]

/-- The files can be cleaned up in any order. -/
theorem foldl_cleanUp_comm (a : File) (files : List File) :
    files.foldl (cleanUp taskId) (s.cleanUp taskId a) =
      (files.foldl (cleanUp taskId) s).cleanUp taskId a := by
  induction files generalizing s with
  | nil => rfl
  | cons b files ih => rw [List.foldl_cons, cleanUp_comm, ih, List.foldl_cons]

theorem foldl_cleanUp_tasks (files : List File) :
    (files.foldl (cleanUp taskId) s).tasks = s.tasks := by
  induction files generalizing s with
  | nil => rfl
  | cons a files ih => rw [List.foldl_cons, ih]; rfl

theorem foldl_cleanUp_congr {s' : Store} (h : s.traces = s'.traces) (files : List File) :
    (files.foldl (cleanUp taskId) s).traces = (files.foldl (cleanUp taskId) s').traces := by
  induction files generalizing s s' with
  | nil => exact h
  | cons a files ih =>
    refine ih ?_
    simp only [traces, Prod.mk.injEq] at h ⊢
    obtain ⟨hf, hd, hb⟩ := h
    exact ⟨by simp only [cleanUp, hf], by simp only [cleanUp, hd], by simp only [cleanUp, hb]⟩

/-- The store with this content of an object. -/
def put (s : Store) (key : String) (content : Option Bytes) : Store :=
  { s with bucket := Function.update s.bucket key content }

theorem traces_put {s' : Store} (h : s.traces = s'.traces) (key : String)
    (content : Option Bytes) : (s.put key content).traces = (s'.put key content).traces := by
  simp only [traces, put, Prod.mk.injEq] at h ⊢
  exact ⟨h.1, h.2.1, by rw [h.2.2]⟩

@[simp] theorem put_put (key : String) (v w : Option Bytes) :
    (s.put key v).put key w = s.put key w := by
  simp only [put, Function.update_idem]

@[simp] theorem put_eq_self (key : String) : s.put key (s.bucket key) = s := by
  simp only [put, Function.update_eq_self]

theorem traces_put_iff {key : String} {content : Option Bytes} :
    (s.put key content).traces = s.traces ↔ s.bucket key = content := by
  simp only [traces, put, Prod.mk.injEq, true_and]
  constructor
  · intro h
    rw [← h, Function.update_self]
  · rintro rfl
    exact Function.update_eq_self ..

/-- The records of other files stay. -/
theorem foldl_cleanUp_record {name : String} (h : ∀ file ∈ files, file.filename ≠ name) :
    (files.foldl (cleanUp taskId) s).downloaded.get? (taskId, name) =
      s.downloaded.get? (taskId, name) := by
  induction files generalizing s with
  | nil => rfl
  | cons a files ih =>
    rw [List.foldl_cons, ih fun file hfile => h file (List.mem_cons_of_mem _ hfile)]
    show (s.downloaded.delete fun m => m.key = (taskId, a.filename)).get? (taskId, name) = _
    rw [Table.get?_delete]
    cases hm : s.downloaded.get? (taskId, name) with
    | none => rfl
    | some m =>
      have hne := h a List.mem_cons_self
      simp [Option.filter, (Table.get?_eq_some.mp hm).2, Ne.symm hne]

/-- Another object does not matter. -/
theorem foldl_cleanUp_put {key : String} {content : Option Bytes}
    (h : ∀ file ∈ files, Handler.storageKey file.filename ≠ key) :
    files.foldl (cleanUp taskId) (s.put key content) =
      (files.foldl (cleanUp taskId) s).put key content := by
  induction files generalizing s with
  | nil => rfl
  | cons a files ih =>
    have hcomm : (s.put key content).cleanUp taskId a = (s.cleanUp taskId a).put key content := by
      simp only [put, cleanUp, Function.update_comm (h a List.mem_cons_self)]
    rw [List.foldl_cons, hcomm, ih fun file hfile => h file (List.mem_cons_of_mem _ hfile)]
    rfl

/-- The cleanup of a file undoes its transaction and deletes the object. -/
theorem cleanUp_addFile {s' : Store} {fileHash : FileHash}
    (h : s.apply taskId (.addFile taskId file fileHash) = some s') :
    (s'.cleanUp taskId file).traces =
      (s.put (Handler.storageKey file.filename) none).traces := by
  obtain ⟨files, downloaded, hf, hd, rfl⟩ := apply_addFile h
  have hfiles : files.deleteById file.id = s.files :=
    Table.delete_insert hf fun m => by simp [File.toModel]
  have hdownloaded : downloaded.deleteRecord taskId file.filename = s.downloaded :=
    Table.delete_insert hd fun m => by simp [DownloadedFileModel.key]
  simp only [traces, cleanUp, put, hfiles, hdownloaded]

/-- Nothing of the file is there. -/
structure Without (s : Store) (taskId : TaskId) (file : File) : Prop where
  row : s.files.get? file.id = none
  record : s.downloaded.get? (taskId, file.filename) = none
  object : s.bucket (Handler.storageKey file.filename) = none

theorem without_cleanUp : (s.cleanUp taskId file).Without taskId file where
  row := by
    show (s.files.delete fun m => m.id = file.id).get? file.id = none
    rw [Table.get?_delete, Option.filter_eq_none_iff]
    intro m hm
    simp [(Table.get?_eq_some.mp hm).2]
  record := by
    show (s.downloaded.delete fun m => m.key = (taskId, file.filename)).get? _ = none
    rw [Table.get?_delete, Option.filter_eq_none_iff]
    intro m hm
    simp [(Table.get?_eq_some.mp hm).2]
  object := Function.update_self ..

theorem without_foldl_cleanUp (h : file ∈ files) :
    (files.foldl (cleanUp taskId) s).Without taskId file := by
  induction files generalizing s with
  | nil => cases h
  | cons a files ih =>
    rw [List.foldl_cons]
    rcases List.mem_cons.mp h with rfl | h
    · rw [foldl_cleanUp_comm]; exact without_cleanUp
    · exact ih h

end Store

namespace Execution

variable {sha256 : Bytes → Digest} {e e' : Execution} {ev : Event} {c : String} {f : Frame}
  {x : Exn} {files : List File} {evs : List Event}

/-- The run has not left its cleanup, and the call succeeds. -/
def CleansUp (e : Execution) (ev : Event) : Prop :=
  e.handler.isClosing = false ∧ ev.reply.failed = false

end Execution

theorem Handler.ending_closing {now : Time} {f : Frame} {x : Exn} {h : Handler}
    (hE : Ending now f x h) : h.isClosing = true := by
  cases hE <;> rfl

namespace Execution

/-- A cleanup that has not come to its end goes on with an answer. -/
theorem CleansUp.next (hg : (executions sha256).Guarded CleansUp e evs)
    (hrun : (executions sha256).run e evs = some e') (hcl : e'.handler.isClosing = true)
    (hne : e.handler.isClosing = false) : ∃ ev a evs₁ e₁, ev.reply = .done a ∧
      (executions sha256).step e ev = some e₁ ∧ (executions sha256).Guarded CleansUp e₁ evs₁ ∧
      (executions sha256).run e₁ evs₁ = some e' := by
  cases evs with
  | nil => cases hrun; rw [hne] at hcl; cases hcl
  | cons ev evs =>
    obtain ⟨e₁, hst, hrun⟩ := System.run_cons_eq_some.mp hrun
    obtain ⟨a, ha⟩ := Reply.of_not_failed hg.1.2
    exact ⟨ev, a, evs, e₁, ha, hst, hg.2 e₁ hst, hrun⟩

/-- The object of a file is deleted. -/
theorem Sound.object_deleted (h : Sound c e) {key : String} {file : File} {a : Answer}
    (hk : e.handler = .deleteObject f x key file files)
    (hst : (executions sha256).step e ev = some e')
    (ha : ev.reply = .done a) : e'.handler = .deleteRows f x file files ∧
      e'.store = { e.store with bucket := Function.update e.store.bucket key none } := by
  have hcall : e.handler.call e.command = some (.deleteObject key) := by rw [hk]; rfl
  have hstore := (store_answered hst ha hcall).2
  have hans := h.answered hst ha
  rw [hk] at hans
  refine ⟨?_, (Option.some.inj hstore).symm⟩
  generalize e'.handler = h' at hans
  cases hans with
  | objectDeleted => rfl
  | closed f h hh => simp at hh

/-- And then its row and its record. -/
theorem Sound.rows_deleted (h : Sound c e) {file : File} {a : Answer}
    (hk : e.handler = .deleteRows f x file files) (hst : (executions sha256).step e ev = some e')
    (ha : ev.reply = .done a) : Handler.Cleaning e'.now f x files e'.handler ∧
      e'.store = { e.store with
        files := e.store.files.deleteById file.id
        downloaded := e.store.downloaded.deleteRecord e.command.taskId file.filename } := by
  have hid : f.task.id = e.command.taskId := h.taskId (by rw [hk]; rfl)
  have hcall : e.handler.call e.command = some (.deleteFile f.task.id file) := by rw [hk]; rfl
  have hstore := (store_answered hst ha hcall).2
  have hans := h.answered hst ha
  rw [← (command_step hst).2, hk] at hans
  refine ⟨?_, by rw [← hid]; exact (Option.some.inj hstore).symm⟩
  generalize e'.handler = h' at hans
  cases hans with
  | rowsDeleted f x file files h hc => exact hc
  | closed f h hh => simp at hh

/-- **A cleanup whose calls succeed.** -/
theorem Sound.cleans_up (h : Sound c e) (hc : Handler.Cleaning e.now f x files e.handler)
    (hg : (executions sha256).Guarded CleansUp e evs)
    (hrun : (executions sha256).run e evs = some e') (hcl : e'.handler.isClosing = true) :
    Sound c e' ∧ Handler.Ending e'.now (Handler.giveBack f) x e'.handler ∧
      e'.store = files.foldl (Store.cleanUp e.command.taskId) e.store := by
  induction files generalizing e evs with
  | nil =>
    cases hc with
    | finished h' hE =>
      cases evs with
      | nil => cases hrun; exact ⟨h, hE, rfl⟩
      | cons ev evs =>
        have := hg.1.1
        rw [Handler.ending_closing hE] at this; cases this
  | cons file files ih =>
    generalize hk : e.handler = h' at hc
    cases hc
    obtain ⟨ev₁, a₁, evs₁, e₁, ha₁, hst₁, hg₁, hrun₁⟩ := CleansUp.next hg hrun hcl (hk ▸ rfl)
    obtain ⟨hk₁, hs₁⟩ := h.object_deleted hk hst₁ ha₁
    have h₁ := h.step hst₁
    obtain ⟨ev₂, a₂, evs₂, e₂, ha₂, hst₂, hg₂, hrun₂⟩ := CleansUp.next hg₁ hrun₁ hcl (hk₁ ▸ rfl)
    obtain ⟨hc₂, hs₂⟩ := h₁.rows_deleted hk₁ hst₂ ha₂
    obtain ⟨hsound, hE, hs⟩ := ih (h₁.step hst₂) hc₂ hg₂ hrun₂
    refine ⟨hsound, hE, ?_⟩
    rw [hs, List.foldl_cons, (command_step hst₂).1, (command_step hst₁).1, hs₂, hs₁,
      (command_step hst₁).1]
    rfl

/-- A deletion may succeed. -/
theorem exists_deletion {file : File} (hk : e.handler = .deleteRows f x file files ∨
      ∃ key, e.handler = .deleteObject f x key file files) :
    ∃ ev e', CleansUp e ev ∧ (executions sha256).step e ev = some e' := by
  have hkinds : e.handler.isClosing = false ∧ e.handler.recording = false := by
    rcases hk with hk | ⟨key, hk⟩ <;> rw [hk] <;> exact ⟨rfl, rfl⟩
  obtain ⟨a, e', he'⟩ := exists_step sha256 (Handler.isEnded_of_not_closing hkinds.1) hkinds.2
  exact ⟨_, e', ⟨hkinds.1, rfl⟩, he'⟩

/-- **A cleanup comes to its end.** -/
theorem Sound.leads_to_closing (h : Sound c e)
    (hc : Handler.Cleaning e.now f x files e.handler) :
    (executions sha256).Leads CleansUp (fun e => e.handler.isClosing = true) e := by
  induction files generalizing e with
  | nil =>
    cases hc with
    | finished h' hE => exact .now (Handler.ending_closing hE)
  | cons file files ih =>
    generalize hk : e.handler = h' at hc
    cases hc
    refine .later (exists_deletion (.inr ⟨_, hk⟩)) fun ev₁ e₁ hok₁ hst₁ => ?_
    obtain ⟨a₁, ha₁⟩ := Reply.of_not_failed hok₁.2
    obtain ⟨hk₁, -⟩ := h.object_deleted hk hst₁ ha₁
    have h₁ := h.step hst₁
    refine .later (exists_deletion (.inl hk₁)) fun ev₂ e₂ hok₂ hst₂ => ?_
    obtain ⟨a₂, ha₂⟩ := Reply.of_not_failed hok₂.2
    exact ih (h₁.step hst₂) (h₁.rows_deleted hk₁ hst₂ ha₂).1

end Execution

end FileExtractor
