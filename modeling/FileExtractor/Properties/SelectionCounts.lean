import FileExtractor.Lib.Inevitable
import FileExtractor.Frontend.FilesSession
import FileExtractor.Properties.Responses
import FileExtractor.Properties.Selection

/-!
# The counts of a selection

From the page to the counts: `get_files` gives the ids of its rows as texts, the user selects some
of them, also over several pages, and `calculate_stats` reads the texts again. No id is lost or
refused on the way, and each selected file is counted once. What the selection holds are texts of
ids in every state of a session whose answers are those of `get_files` (`FilesPage.Known`).
-/

namespace FileExtractor

open Lts Fallible

/-- The text of a `FileId`. -/
def IsFileId (value : String) : Prop := ∃ id : FileId, id < 2 ^ 128 ∧ value = Uuid.text id

/-- The items of a response are those of the rows that are found. -/
theorem isFileId_of_getFiles {files : FileTable} {rows : List FileModel} {page perPage : Int}
    {status : Option String} {res : GetFilesResponse} (hrows : ∀ m ∈ rows, m.id < 2 ^ 128)
    (h : getFiles files rows page perPage status = .ok res) : ∀ f ∈ res.items, IsFileId f.id := by
  obtain ⟨result, hl, h⟩ := bind_eq_ok.mp h
  cases h
  obtain ⟨-, items, hitems, rfl⟩ := FileTable.list_eq_ok.mp hl
  intro f hf
  obtain ⟨file, hfile, rfl⟩ := List.mem_map.mp hf
  obtain ⟨m, hm, hd⟩ := (mem_of_mapM_ok hitems).2 file hfile
  have hmem : m ∈ rows := List.mem_of_mem_drop (List.mem_of_mem_take hm)
  exact ⟨file.id, FileModel.toDomain_id hd ▸ hrows m hmem, rfl⟩

namespace FilesPage

/-- The files and the selection have ids. -/
structure Known (p : FilesPage) : Prop where
  files : ∀ f ∈ p.files, IsFileId f.id
  page : ∀ id ∈ p.selection.page, IsFileId id
  individual : ∀ id ∈ p.selection.individual, IsFileId id
  all : p.selection.all = false

variable {p : FilesPage}

theorem known_initial : initial.Known where
  files _ h := by cases h
  page id h := absurd h (OrderedSet.not_mem_empty id)
  individual id h := absurd h (OrderedSet.not_mem_empty id)
  all := rfl

theorem Known.step (h : p.Known) (e : Event) (hres : ∀ res, e = .loaded res → ∀ f ∈ res.items,
    IsFileId f.id) (hone : ∀ id checked, e = .selectOne id checked → IsFileId id) :
    (p.step e).Known := by
  cases e with
  | loadStarted => exact ⟨h.files, h.page, h.individual, h.all⟩
  | loaded res =>
    exact ⟨hres res rfl, fun id hid => absurd hid (OrderedSet.not_mem_empty id), h.individual, rfl⟩
  | loadFailed message => exact ⟨h.files, h.page, h.individual, h.all⟩
  | selectPage checked =>
    refine ⟨h.files, fun id hid => ?_, h.individual, rfl⟩
    cases checked with
    | true =>
      rcases OrderedSet.mem_insertAll.mp hid with hid | hid
      · exact absurd hid (OrderedSet.not_mem_empty id)
      · obtain ⟨f, hf, rfl⟩ := List.mem_map.mp hid
        exact h.files f hf
    | false => exact absurd hid (OrderedSet.not_mem_empty id)
  | selectOne fileId checked =>
    have hfile := hone fileId checked rfl
    cases checked with
    | true =>
      refine ⟨h.files, fun id hid => ?_, fun id hid => ?_, rfl⟩
      · exact (OrderedSet.mem_insert.mp hid).elim (h.page id) fun he => he ▸ hfile
      · exact (OrderedSet.mem_insert.mp hid).elim (h.individual id) fun he => he ▸ hfile
    | false =>
      exact ⟨h.files, fun id hid => h.page id (OrderedSet.mem_erase.mp hid).2,
        fun id hid => h.individual id (OrderedSet.mem_erase.mp hid).2, rfl⟩
  | pageChange newPage =>
    show (p.handlePageChange newPage).Known
    unfold handlePageChange
    split
    · exact ⟨h.files, h.page, h.individual, h.all⟩
    · exact h
  | perPageChange newPerPage => exact ⟨h.files, h.page, h.individual, h.all⟩

theorem Known.selected (h : p.Known) : ∀ id ∈ p.selectedFileIds, IsFileId id := by
  intro id hid
  rw [mem_selectedFileIds p h.all] at hid
  simp only [isFileSelected, h.all, Bool.false_or, Bool.or_eq_true, decide_eq_true_eq] at hid
  exact hid.elim (h.page id) (h.individual id)

end FilesPage

namespace FilesSession

variable {s s' : FilesSession} {ev : Event}

/-- The answers are those of `get_files`, with any rows, and the user has only the rows that are
shown. -/
def FromBackend (s : FilesSession) : Event → Prop
  | .answer load items total => ∃ files rows, (∀ m ∈ rows, m.id < 2 ^ 128) ∧
    getFiles files rows load.page load.perPage none =
      .ok ⟨items, total, load.page, load.perPage⟩
  | .selectOne fileId _ => ∃ f ∈ s.page.files, f.id = fileId
  | _ => True

theorem known_render (s : FilesSession) {page : FilesPage} (h : page.Known) :
    (s.render page).page.Known := by
  unfold render
  dsimp only
  split
  · exact h
  · exact h.step .loadStarted (fun _ e => by cases e) (fun _ _ e => by cases e)

theorem known_step (h : s.page.Known) (hg : FromBackend s ev)
    (hst : sessions.step s ev = some s') : s'.page.Known := by
  have kept : ∀ e : FilesPage.Event, (∀ res, e ≠ .loaded res) →
      (∀ id checked, e ≠ .selectOne id checked) → (s.page.step e).Known :=
    fun e hl ho => h.step e (fun res he => absurd he (hl res))
      (fun id checked he => absurd he (ho id checked))
  cases ev with
  | answer load items total =>
    simp only [sessions, FilesSession.step] at hst
    split at hst
    · cases hst
      obtain ⟨files, rows, hrows, hget⟩ := hg
      refine known_render _ (h.step _ (fun res he => ?_) (fun _ _ e => by cases e))
      cases he
      exact isFileId_of_getFiles hrows hget
    · cases hst
  | fail load message =>
    simp only [sessions, FilesSession.step] at hst
    split at hst
    · cases hst
      exact known_render _ (kept _ (fun _ e => by cases e) (fun _ _ e => by cases e))
    · cases hst
  | selectPage checked =>
    cases hst
    exact known_render _ (kept _ (fun _ e => by cases e) (fun _ _ e => by cases e))
  | selectOne fileId checked =>
    cases hst
    obtain ⟨f, hf, hid⟩ := hg
    refine known_render _ (h.step _ (fun _ e => by cases e) (fun id c he => ?_))
    cases he
    exact hid ▸ h.files f hf
  | pageChange newPage =>
    cases hst
    exact known_render _ (kept _ (fun _ e => by cases e) (fun _ _ e => by cases e))
  | perPageChange newPerPage =>
    simp only [sessions, FilesSession.step] at hst
    split at hst
    · cases hst
      exact known_render _ (kept _ (fun _ e => by cases e) (fun _ _ e => by cases e))
    · cases hst

/-- In every state of a session the page has ids only. -/
theorem known_run {evs : List Event} (hg : sessions.Guarded FromBackend mount evs)
    (hrun : sessions.run mount evs = some s) : s.page.Known :=
  System.run_keeps (I := fun s => s.page.Known) (fun _ _ _ h hok hst => known_step h hok hst)
    (FilesPage.known_initial.step .loadStarted (fun _ e => by cases e) (fun _ _ e => by cases e))
    hg hrun

end FilesSession

/-- Texts of ids are those of some ids, each once if the texts are. -/
theorem exists_fileIds {values : List String} (h : ∀ value ∈ values, IsFileId value)
    (hn : values.Nodup) :
    ∃ ids : List FileId, ids.Nodup ∧ (∀ id ∈ ids, id < 2 ^ 128) ∧ values = ids.map Uuid.text := by
  induction values with
  | nil => exact ⟨[], .nil, fun _ h => (by cases h), rfl⟩
  | cons value values ih =>
    obtain ⟨hmem, hn⟩ := List.nodup_cons.mp hn
    obtain ⟨ids, hids, hlt, rfl⟩ := ih (fun v hv => h v (List.mem_cons_of_mem _ hv)) hn
    obtain ⟨id, hid, rfl⟩ := h value List.mem_cons_self
    refine ⟨id :: ids, List.nodup_cons.mpr ⟨fun hc => hmem (List.mem_map_of_mem hc), hids⟩,
      fun x hx => ?_, rfl⟩
    rcases List.mem_cons.mp hx with rfl | hx
    · exact hid
    · exact hlt x hx

/-- A response for texts of ids is exact for these ids. -/
theorem exact_of_known {values : List String} (h : ∀ value ∈ values, IsFileId value)
    (hn : values.Nodup) {files : FileTable} {bucket : String → Option Bytes}
    {r : CalculateStatsResult} (hr : CalculateStats.calculateStats files bucket values = .ok r) :
    ∃ ids : List FileId, ids.Nodup ∧ values = ids.map Uuid.text ∧
      CalculateStats.Exact (CalculateStats.concatenation files bucket ids) r := by
  obtain ⟨ids, hnodup, hlt, rfl⟩ := exists_fileIds h hn
  rw [CalculateStats.calculateStats_texts files bucket hlt] at hr
  exact ⟨ids, hnodup, rfl, CalculateStats.execute_exact hr⟩

/-- **The selection is counted, each file once.** In every state of a session whose answers come
from `get_files`, whatever pages were loaded and in whichever order the answers came: the selected
ids are the texts of different UUIDs, and `calculate_stats` with them, on any table whose rows
`_to_model` has written, returns the digit counts of the contents of these files. -/
theorem selection_counted (evs : List FilesSession.Event) (s : FilesSession)
    (hg : FilesSession.sessions.Guarded FilesSession.FromBackend FilesSession.mount evs)
    (hrun : FilesSession.sessions.run FilesSession.mount evs = some s) (files : FileTable)
    (bucket : String → Option Bytes) (hfiles : files.Written) :
    ∃ ids : List FileId, ids.Nodup ∧ s.page.selectedFileIds = ids.map Uuid.text ∧
      ∃ r, CalculateStats.calculateStats files bucket s.page.selectedFileIds = .ok r ∧
        CalculateStats.Exact (CalculateStats.concatenation files bucket ids) r := by
  have hknown := FilesSession.known_run hg hrun
  have haccepted : ∀ value ∈ s.page.selectedFileIds, ∃ id, FileId.ofText value = .ok id := by
    intro value hv
    obtain ⟨id, hid, rfl⟩ := hknown.selected value hv
    exact ⟨id, by rw [FileId.ofText, Uuid.ofText_text hid]⟩
  obtain ⟨r, hr⟩ := (CalculateStats.calculateStats_ok_iff hfiles bucket _).mpr haccepted
  obtain ⟨ids, hnodup, hids, hexact⟩ :=
    exact_of_known hknown.selected (FilesPage.nodup_selectedFileIds s.page hknown.all) hr
  exact ⟨ids, hnodup, hids, r, hr, hexact⟩

/-- The answer with the two files, then both are selected. -/
def selectBoth : List FilesSession.Event :=
  [.answer ⟨1, 20⟩ [⟨Uuid.text 1⟩, ⟨Uuid.text 2⟩] 2, .selectPage true]

theorem both_counted : ∃ s, FilesSession.sessions.run .mount selectBoth = some s ∧
    s.page.selectedFileIds = [Uuid.text 1, Uuid.text 2] ∧
    ∃ r, CalculateStats.calculateStats CalculateStats.twoFiles CalculateStats.twoContents
      s.page.selectedFileIds = .ok r := by
  have hids : ∀ m ∈ CalculateStats.twoFiles.rows, m.id < 2 ^ 128 := by decide
  have hget : getFiles CalculateStats.twoFiles CalculateStats.twoFiles.rows (1 : Nat) (20 : Nat)
      none = .ok ⟨[⟨Uuid.text 1⟩, ⟨Uuid.text 2⟩], 2, (1 : Nat), (20 : Nat)⟩ := rfl
  obtain ⟨ids, -, -, r, hr, -⟩ := selection_counted selectBoth _
    ⟨⟨_, _, hids, hget⟩, fun s _ => ⟨trivial, fun _ _ => trivial⟩⟩ rfl CalculateStats.twoFiles
    CalculateStats.twoContents CalculateStats.twoFiles_written
  exact ⟨_, rfl, by decide +kernel, r, hr⟩

end FileExtractor
