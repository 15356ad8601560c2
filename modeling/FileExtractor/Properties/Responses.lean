import FileExtractor.Presentation.Routes
import FileExtractor.Properties.DigitCounts

/-!
# When the routes of the files answer

In every reachable store each row can be read (`files_written`), so the only errors are those of a
request: `get_files` with arguments that the database does not take, and `calculate_stats` with a
text that is no UUID, wherever in the list it is.
-/

namespace FileExtractor

open Lts Fallible

variable {files : FileTable} {rows : List FileModel} {page perPage : Int} {status : Option String}

namespace FileTable

theorem Written.toDomain (h : files.Written) {m : FileModel} (hm : m ∈ files) :
    ∃ file, m.toDomain = .ok file := by
  obtain ⟨file, rfl⟩ := h m hm
  exact ⟨_, File.toDomain_toModel file⟩

end FileTable

/-- `get_files` answers when the database takes its arguments. -/
theorem getFiles_ok_iff (h : files.Written) (hrows : ∀ m ∈ rows, m ∈ files) :
    (∃ res, getFiles files rows page perPage status = .ok res) ↔
      FileTable.Accepted (some { status := status }) page perPage := by
  constructor
  · rintro ⟨res, hres⟩
    obtain ⟨result, hl, -⟩ := bind_eq_ok.mp hres
    exact (FileTable.list_eq_ok.mp hl).1
  · intro ha
    obtain ⟨items, hitems⟩ := exists_mapM_ok fun m hm =>
      h.toDomain (hrows m (List.mem_of_mem_drop (List.mem_of_mem_take hm)))
    exact ⟨_, bind_eq_ok.mpr ⟨_, FileTable.list_eq_ok.mpr ⟨ha, items, hitems, rfl⟩, rfl⟩⟩

/-- What `Accepted` says of the arguments of `get_files`. -/
theorem accepted_getFiles_iff :
    FileTable.Accepted (some { status := status }) page perPage ↔
      (∀ value ∈ status, FileTable.hasNul value = false) ∧
        (0 ≤ (page - 1) * perPage ∧ (page - 1) * perPage < 2 ^ 63) ∧
        0 ≤ perPage ∧ perPage < 2 ^ 63 := by
  refine ⟨fun h => ⟨fun value hv => h.texts value ?_, h.offset, h.limit⟩,
    fun h => ⟨?_, h.2.1, h.2.2⟩⟩
  · simpa [FileFilters.texts] using hv
  · simpa [FileFilters.texts] using h.1

namespace CalculateStats

/-- The first loop ends when every text is the one of an id. -/
theorem foldlM_listText_ok_iff (h : files.Written) (fileIds : List String)
    (listed : List Listed) :
    (∃ listed', fileIds.foldlM (listText files) listed = .ok listed') ↔
      ∀ value ∈ fileIds, ∃ id, FileId.ofText value = .ok id := by
  induction fileIds generalizing listed with
  | nil => exact ⟨fun _ _ hv => (by cases hv), fun _ => ⟨listed, rfl⟩⟩
  | cons value fileIds ih =>
    rw [List.foldlM_cons, List.forall_mem_cons]
    cases hv : FileId.ofText value with
    | error e =>
      have herr : listText files listed value = .error e := by rw [listText, hv]; rfl
      rw [herr]
      constructor
      · rintro ⟨_, he⟩; cases he
      · rintro ⟨⟨_, he⟩, -⟩; cases he
    | ok id =>
      obtain ⟨file, hfile⟩ := h.getById id
      have hone : listText files listed value = .ok (listed ++ (file.bind entry).toList) := by
        rw [listText, hv]
        show list files listed id = _
        rw [list, hfile]; rfl
      rw [hone]
      refine (ih _).trans ⟨fun hids => ⟨⟨id, rfl⟩, hids⟩, fun hc => hc.2⟩

/-- `calculate_stats` answers when every id is one. -/
theorem calculateStats_ok_iff (h : files.Written) (bucket : String → Option Bytes)
    (fileIds : List String) : (∃ r, calculateStats files bucket fileIds = .ok r) ↔
      ∀ value ∈ fileIds, ∃ id, FileId.ofText value = .ok id := by
  rw [← foldlM_listText_ok_iff h fileIds []]
  unfold calculateStats
  cases fileIds.foldlM (listText files) [] with
  | ok listed => exact ⟨fun _ => ⟨listed, rfl⟩, fun _ => ⟨_, rfl⟩⟩
  | error e => exact ⟨fun ⟨_, he⟩ => (by cases he), fun ⟨_, he⟩ => (by cases he)⟩

end CalculateStats

/-- **The routes answer.** In every reachable state, for any order of the rows that the query may
give: `get_files` answers exactly when the status has no NUL and the offset `(page - 1) * per_page`
and `per_page` are neither negative nor beyond the range of a `bigint`, and `calculate_stats`
exactly when every text of the request is accepted as a UUID, also if there is no such file or no
object. -/
theorem routes_answer_iff (sha256 : Bytes → Digest) :
    (World.system sha256).Invariant System.free fun w =>
      (∀ (rows : List FileModel) (page perPage : Int) (status : Option String),
        (∀ m ∈ rows, m ∈ w.store.files) →
        ((∃ res, getFiles w.store.files rows page perPage status = .ok res) ↔
          (∀ value ∈ status, FileTable.hasNul value = false) ∧
            (0 ≤ (page - 1) * perPage ∧ (page - 1) * perPage < 2 ^ 63) ∧
            0 ≤ perPage ∧ perPage < 2 ^ 63)) ∧
      ∀ fileIds : List String,
        (∃ r, CalculateStats.calculateStats w.store.files w.store.bucket fileIds = .ok r) ↔
          ∀ value ∈ fileIds, ∃ id, FileId.ofText value = .ok id := by
  intro w hw
  have hfiles := files_written sha256 w hw
  exact ⟨fun rows page perPage status hrows =>
      (getFiles_ok_iff hfiles hrows).trans accepted_getFiles_iff,
    CalculateStats.calculateStats_ok_iff hfiles w.store.bucket⟩

end FileExtractor
