import Mathlib.Data.List.Induction
import FileExtractor.Frontend.FilesPage

/-!
# The selection of files

The selection is coherent along a sequence of events exactly when the header is never unchecked on a
page with a file whose last row action was a check: `handleSelectPage` clears the set of the page
alone, and the file stays in the other one.
-/

namespace FileExtractor

namespace FilesPage

/-! ## What the events say -/

/-- The files of the current page: those of the last answer. -/
def shown (events : List Event) : List FileItem :=
  events.foldl (fun files e => match e with | .loaded res => res.items | _ => files) []

/-- The last row action on a file: whether it was a check. -/
def lastRow (events : List Event) (fileId : String) : Option Bool :=
  events.foldl (fun last e => match e with
    | .selectOne id checked => if id = fileId then some checked else last
    | _ => last) none

theorem shown_append (events : List Event) (e : Event) : shown (events ++ [e]) =
    match e with | .loaded res => res.items | _ => shown events := List.foldl_concat ..

theorem lastRow_append (events : List Event) (e : Event) (fileId : String) :
    lastRow (events ++ [e]) fileId = match e with
      | .selectOne id checked => if id = fileId then some checked else lastRow events fileId
      | _ => lastRow events fileId := List.foldl_concat ..

/-- Only an uncheck of its row ends the choice of a file. -/
theorem lastRow_checked {events : List Event} {e : Event} {fileId : String}
    (h : lastRow events fileId = some true) (he : e ≠ .selectOne fileId false) :
    lastRow (events ++ [e]) fileId = some true := by
  rw [lastRow_append]
  cases e with
  | selectOne id checked =>
    by_cases hid : id = fileId
    · subst hid
      cases checked with
      | true => simp
      | false => exact absurd rfl he
    · simpa [hid] using h
  | _ => exact h

/-- The selection after `events`. -/
structure Coherent (events : List Event) : Prop where
  /-- The ids are those of the selected files, each once. -/
  exact : ∀ pre, pre <+: events → (run pre).selectedFileIds.Nodup ∧
    ∀ id, id ∈ (run pre).selectedFileIds ↔ (run pre).isFileSelected id = true
  /-- A check of the header selects the page. -/
  checked : ∀ pre, pre ++ [.selectPage true] <+: events → ∀ f ∈ shown pre,
    (run (pre ++ [.selectPage true])).isFileSelected f.id = true
  /-- An uncheck of the header leaves nothing of the page. -/
  unchecked : ∀ pre, pre ++ [.selectPage false] <+: events → ∀ f ∈ shown pre,
    (run (pre ++ [.selectPage false])).isFileSelected f.id = false
  /-- A file of another page that was chosen by its row stays selected. -/
  kept : ∀ pre e, pre ++ [e] <+: events → ∀ id, id ∉ (shown pre).map FileItem.id →
    lastRow pre id = some true → e ≠ .selectOne id false →
    (run (pre ++ [e])).isFileSelected id = true

/-! ## Invariants of a run -/

/-- What each state of the page holds after `events`. -/
structure Inv (events : List Event) (p : FilesPage) : Prop where
  files : p.files = shown events
  all : p.selection.all = false
  individual : ∀ id, id ∈ p.selection.individual ↔ lastRow events id = some true

theorem Inv.step {events : List Event} {p : FilesPage} (h : Inv events p) (e : Event) :
    Inv (events ++ [e]) (p.step e) := by
  obtain ⟨hfiles, hall, hind⟩ := h
  cases e with
  | loadStarted => exact ⟨by rw [shown_append]; exact hfiles, hall, fun id => by
      rw [lastRow_append]; exact hind id⟩
  | loaded res => exact ⟨by rw [shown_append]; rfl, rfl, fun id => by
      rw [lastRow_append]; exact hind id⟩
  | loadFailed message => exact ⟨by rw [shown_append]; exact hfiles, hall, fun id => by
      rw [lastRow_append]; exact hind id⟩
  | selectPage checked => exact ⟨by rw [shown_append]; exact hfiles, rfl, fun id => by
      rw [lastRow_append]; exact hind id⟩
  | selectOne fileId checked =>
    refine ⟨by rw [shown_append]; exact hfiles, rfl, fun id => ?_⟩
    rw [lastRow_append]
    simp only [FilesPage.step, handleSelectOne]
    by_cases hid : fileId = id
    · subst hid
      cases checked <;> simp
    · have hid' : id ≠ fileId := fun e => hid e.symm
      cases checked <;> simp [hid, hid', hind id]
  | pageChange newPage =>
    have hstep : p.step (.pageChange newPage) = p ∨
        p.step (.pageChange newPage) = { p with page := newPage.toNat } := by
      simp only [FilesPage.step, handlePageChange]
      split
      · exact .inr rfl
      · exact .inl rfl
    rcases hstep with hs | hs <;> rw [hs] <;>
      exact ⟨by rw [shown_append]; exact hfiles, hall, fun id => by
        rw [lastRow_append]; exact hind id⟩
  | perPageChange newPerPage => exact ⟨by rw [shown_append]; exact hfiles, hall, fun id => by
      rw [lastRow_append]; exact hind id⟩

theorem inv (events : List Event) : Inv events (run events) := by
  induction events using List.reverseRecOn with
  | nil => exact ⟨rfl, rfl, fun id => by simp [run, initial, lastRow]⟩
  | append_singleton events e ih => rw [run_append]; exact ih.step e

theorem mem_selectedFileIds (p : FilesPage) (h : p.selection.all = false) (id : String) :
    id ∈ p.selectedFileIds ↔ p.isFileSelected id = true := by
  simp only [selectedFileIds, isFileSelected, h]
  simp [OrderedSet.mem_items, or_comm]

theorem nodup_selectedFileIds (p : FilesPage) (h : p.selection.all = false) :
    p.selectedFileIds.Nodup := by
  simp only [selectedFileIds, h]
  exact OrderedSet.nodup _

theorem isFileSelected_of_individual {p : FilesPage} {id : String}
    (h : id ∈ p.selection.individual) : p.isFileSelected id = true := by
  simp [isFileSelected, h]

/-- After a change of the header a file is selected by the header or by its row. -/
theorem isFileSelected_selectPage (events : List Event) (checked : Bool) (id : String) :
    (run (events ++ [.selectPage checked])).isFileSelected id = true ↔
      (checked = true ∧ id ∈ (shown events).map FileItem.id) ∨ lastRow events id = some true := by
  have h := inv events
  rw [run_append, ← h.files, ← h.individual]
  cases checked <;> simp [step, handleSelectPage, isFileSelected]

/-! ## Coherence -/

/-- The header is unchecked only where no file of the page was chosen by its row. -/
def HeaderClears (events : List Event) : Prop :=
  ∀ pre, pre ++ [.selectPage false] <+: events → ∀ f ∈ shown pre, lastRow pre f.id ≠ some true

/-- **The selection is coherent** exactly when the header clears. -/
theorem coherent_iff (events : List Event) : Coherent events ↔ HeaderClears events := by
  constructor
  · intro h pre hpre f hf hrow
    have hsel := (isFileSelected_selectPage pre false f.id).mpr (.inr hrow)
    rw [h.unchecked pre hpre f hf] at hsel
    cases hsel
  · intro h
    refine ⟨fun pre _ => ⟨?_, ?_⟩, fun pre _ f hf => ?_, fun pre hpre f hf => ?_,
      fun pre e _ id hid hrow he => ?_⟩
    · exact nodup_selectedFileIds _ (inv pre).all
    · exact mem_selectedFileIds _ (inv pre).all
    · exact (isFileSelected_selectPage pre true f.id).mpr
        (.inl ⟨rfl, List.mem_map_of_mem hf⟩)
    · rw [Bool.eq_false_iff]
      intro hsel
      rcases (isFileSelected_selectPage pre false f.id).mp hsel with ⟨hc, -⟩ | hrow
      · cases hc
      · exact h pre hpre f hf hrow
    · exact isFileSelected_of_individual
        (((inv (pre ++ [e])).individual id).mpr (lastRow_checked hrow he))

/-- A row is checked, then the header is checked and unchecked: the row stays selected. -/
theorem row_stays_selected :
    let events : List Event := [.loaded ⟨[⟨"a"⟩, ⟨"b"⟩], 2, 1, 20⟩, .selectOne "a" true,
      .selectPage true, .selectPage false]
    (run events).selectedFileIds = ["a"] ∧ ¬ Coherent events := by
  intro events
  have hids : (run events).selectedFileIds = ["a"] := by decide +kernel
  refine ⟨hids, fun h => ?_⟩
  have hsel : (run events).isFileSelected "a" = false :=
    h.unchecked (events.take 3) (List.prefix_refl events) ⟨"a"⟩ (by decide)
  have := (mem_selectedFileIds (run events) (by decide +kernel) "a").mp (by rw [hids]; simp)
  rw [hsel] at this
  cases this

end FilesPage

end FileExtractor
