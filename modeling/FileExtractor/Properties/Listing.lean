import Mathlib.Algebra.Order.Ring.Unbundled.Rat
import FileExtractor.Infrastructure.Queries
import FileExtractor.Properties.HashFormat

/-!
# The pages of the list of files

Each page is the result of a query of its own, whose order leaves files with one `created_at` in any
order. The pages are a partition of the matching files, for every arrangement of every page, exactly
when the database takes the arguments of each page's queries, each row can be read and no group of
files with one `created_at` lies across the end of a page.
-/

namespace FileExtractor

open Paging Fallible

/-! ## Rows that can be read -/

namespace FileModel

/-- A row is read exactly when its hash is accepted. -/
theorem toDomain_isOk_iff (m : FileModel) : (∃ f, m.toDomain = .ok f) ↔ m.hashAccepted = true := by
  unfold toDomain hashAccepted
  split
  · next h => rw [h]; exact ⟨fun _ => rfl, fun _ => ⟨_, rfl⟩⟩
  · next h => rw [h]; exact ⟨fun _ => rfl, fun _ => ⟨_, rfl⟩⟩
  · next value hne h =>
    have hv : value ≠ "" := fun e => hne e
    rw [h, Option.all_some, decide_eq_false hv, Bool.false_or]
    by_cases ha : sha256HexPattern value.toList = true
    · rw [FileHash.ofString_of_match ha]
      exact ⟨fun _ => ha, fun _ => ⟨_, rfl⟩⟩
    · rw [FileHash.ofString_of_not_match ha]
      refine ⟨fun ⟨f, hf⟩ => ?_, fun h => absurd h ha⟩
      cases hf

theorem toDomain_id {m : FileModel} {f : File} (h : m.toDomain = .ok f) : f.id = m.id := by
  unfold toDomain at h
  split at h
  · cases h; rfl
  · cases h; rfl
  · next value _ _ =>
    cases hv : FileHash.ofString value with
    | error e => rw [hv] at h; cases h
    | ok hash => rw [hv] at h; cases h; rfl

/-- The file of a row that can be read. -/
def file? (m : FileModel) : Option File := m.toDomain.toOption

theorem mapM_toDomain {rows : List FileModel} (h : ∀ m ∈ rows, m.hashAccepted = true) :
    rows.mapM toDomain = .ok (rows.filterMap file?) := by
  induction rows with
  | nil => rfl
  | cons m rows ih =>
    obtain ⟨f, hf⟩ := (toDomain_isOk_iff m).mpr (h m List.mem_cons_self)
    have hfile : m.file? = some f := by rw [file?, hf]; rfl
    rw [List.mapM_cons, hf, ih fun m' hm' => h m' (List.mem_cons_of_mem m hm'),
      List.filterMap_cons_some hfile]
    rfl

end FileModel

/-! ## The pages -/

namespace FileTable

variable {files : FileTable} {filters : Option FileFilters}

theorem list_eq {rows : List FileModel} (h : ∀ m ∈ rows, m.hashAccepted = true) {n k : Nat}
    (ha : Accepted filters (k + 1) n) :
    files.list rows filters (k + 1) n = .ok
      { items := (page n k rows).filterMap FileModel.file?
        total := files.total filters
        page := k + 1
        perPage := n } := by
  have hpage : ∀ m ∈ page n k rows, m.hashAccepted = true := fun m hm =>
    h m (List.mem_of_mem_drop (List.mem_of_mem_take hm))
  refine list_eq_ok.mpr ⟨ha, _, ?_, rfl⟩
  rw [window_page, FileModel.mapM_toDomain hpage]

/-- A file on a page is that of a row of the page. -/
theorem mem_list {rows : List FileModel} {n k : Nat} {result : PaginatedFiles}
    (h : files.list rows filters (k + 1) n = .ok result) :
    (∀ f ∈ result.items, ∃ m ∈ page n k rows, m.toDomain = .ok f) := by
  obtain ⟨-, items, hitems, rfl⟩ := list_eq_ok.mp h
  rw [window_page] at hitems
  exact (mem_of_mapM_ok hitems).2

/-- `ceil(total / per_page)`. -/
def pageCount (total perPage : Nat) : Nat := (total + perPage - 1) / perPage

theorem le_pageCount_mul (total : Nat) {perPage : Nat} (h : 0 < perPage) :
    total ≤ pageCount total perPage * perPage := by
  have := Nat.lt_div_mul_add (a := total + perPage - 1) h
  rw [pageCount]
  omega

/-- All pages, each with an arrangement of its own, give every matching file exactly once, and as
many items as the total that each page reports. -/
def Partitioned (files : FileTable) (filters : Option FileFilters) (perPage : Nat) : Prop :=
  ∀ arrangement : Nat → List FileModel,
    (∀ k, Arranges FileModel.createdAt (files.matching filters) (arrangement k)) →
    ∃ pages all,
      (List.range (pageCount (files.total filters) perPage)).mapM
        (fun k => files.list (arrangement k) filters (k + 1) perPage) = .ok pages ∧
      (files.matching filters).mapM FileModel.toDomain = .ok all ∧
      (pages.flatMap PaginatedFiles.items).Perm all ∧
      (pages.flatMap PaginatedFiles.items).length = files.total filters ∧
      ∀ page ∈ pages, page.total = files.total filters

/-- The database takes the arguments of the queries of all pages. -/
def AllAccepted (files : FileTable) (filters : Option FileFilters) (perPage : Nat) : Prop :=
  ∀ k < pageCount (files.total filters) perPage, Accepted filters (k + 1) perPage

instance (files : FileTable) (filters : Option FileFilters) (perPage : Nat) :
    Decidable (files.AllAccepted filters perPage) :=
  inferInstanceAs (Decidable (∀ k < _, _))

theorem partitioned_of {perPage : Nat} (hpos : 0 < perPage)
    (hacc : files.AllAccepted filters perPage)
    (hread : ∀ m ∈ files.matching filters, m.hashAccepted = true)
    (hu : Undivided FileModel.createdAt perPage (files.matching filters)) :
    files.Partitioned filters perPage := by
  intro arrangement harr
  have hpage : ∀ k ∈ List.range (pageCount (files.total filters) perPage),
      files.list (arrangement k) filters (k + 1) perPage = .ok _ := fun k hk =>
    list_eq (fun m hm => hread m ((harr k).perm.subset hm)) (hacc k (List.mem_range.mp hk))
  have hpages := mapM_ok hpage
  have hall := FileModel.mapM_toDomain hread
  have hlen :
      ((files.matching filters).filterMap FileModel.file?).length = files.total filters := by
    rw [total_eq, List.filterMap_length_eq_length]
    intro m hm
    obtain ⟨f, hf⟩ := (FileModel.toDomain_isOk_iff m).mpr (hread m hm)
    rw [FileModel.file?, hf]
    rfl
  have hperm : (((List.range (pageCount (files.total filters) perPage)).map fun k =>
      ({ items := (page perPage k (arrangement k)).filterMap FileModel.file?
         total := files.total filters
         page := k + 1
         perPage := perPage } : PaginatedFiles)).flatMap PaginatedFiles.items).Perm
      ((files.matching filters).filterMap FileModel.file?) := by
    have hc : (files.matching filters).length ≤
        pageCount (files.total filters) perPage * perPage := by
      rw [← total_eq]; exact le_pageCount_mul _ hpos
    have := (flatMap_page_perm hpos hu harr hc).filterMap FileModel.file?
    rw [List.filterMap_flatMap] at this
    rw [List.flatMap_map]
    exact this
  refine ⟨_, _, hpages, hall, hperm, hperm.length_eq.trans hlen, fun page hpage => ?_⟩
  obtain ⟨k, -, rfl⟩ := List.mem_map.mp hpage
  rfl

theorem Partitioned.accepted {perPage : Nat} (h : files.Partitioned filters perPage) :
    files.AllAccepted filters perPage := by
  obtain ⟨rows, hrows⟩ := exists_arranges FileModel.createdAt (files.matching filters)
  obtain ⟨pages, all, hpages, -⟩ := h (fun _ => rows) fun _ => hrows
  intro k hk
  obtain ⟨result, -, hresult⟩ := (mem_of_mapM_ok hpages).1 k (List.mem_range.mpr hk)
  exact (list_eq_ok.mp hresult).1

theorem Partitioned.read {perPage : Nat} (h : files.Partitioned filters perPage) :
    ∀ m ∈ files.matching filters, m.hashAccepted = true := by
  obtain ⟨rows, hrows⟩ := exists_arranges FileModel.createdAt (files.matching filters)
  obtain ⟨pages, all, -, hall, -⟩ := h (fun _ => rows) fun _ => hrows
  intro m hm
  obtain ⟨f, -, hf⟩ := (mem_of_mapM_ok hall).1 m hm
  exact (FileModel.toDomain_isOk_iff m).mp ⟨f, hf⟩

theorem Partitioned.undivided {perPage : Nat} (h : files.Partitioned filters perPage) :
    Undivided FileModel.createdAt perPage (files.matching filters) := by
  by_contra hu
  obtain ⟨arrangement, harr, b, hb, hunseen⟩ := exists_unseen hu (nodup_matching files filters)
  obtain ⟨pages, all, hpages, hall, hperm, -⟩ := h arrangement harr
  -- the file of `b` is on some page, and the row of that page is `b`
  obtain ⟨f, hf, hbf⟩ := (mem_of_mapM_ok hall).1 b hb
  obtain ⟨result, hresult, hfr⟩ := List.mem_flatMap.mp (hperm.symm.subset hf)
  obtain ⟨k, -, hk⟩ := (mem_of_mapM_ok hpages).2 result hresult
  obtain ⟨m, hm, hmf⟩ := mem_list hk f hfr
  have hmem : m ∈ files.matching filters :=
    (harr k).perm.subset (List.mem_of_mem_drop (List.mem_of_mem_take hm))
  have hmb : m = b := by
    refine Rel.Table.eq_of_key (t := files) (List.mem_of_mem_filter hmem)
      (List.mem_of_mem_filter hb) ?_
    rw [← FileModel.toDomain_id hmf, FileModel.toDomain_id hbf]
  exact hunseen k (hmb ▸ hm)

/-- **The pages are a partition** exactly when the database takes the arguments of each page, each
matching row can be read and the files with one `created_at` are on one page. -/
theorem partitioned_iff (files : FileTable) (filters : Option FileFilters) (perPage : Nat)
    (hpos : 0 < perPage) :
    files.Partitioned filters perPage ↔
      files.AllAccepted filters perPage ∧
      (∀ m ∈ files.matching filters, m.hashAccepted = true) ∧
        Undivided FileModel.createdAt perPage (files.matching filters) :=
  ⟨fun h => ⟨h.accepted, h.read, h.undivided⟩, fun h => partitioned_of hpos h.1 h.2.1 h.2.2⟩

/-- A file without content that was created at 0. -/
def untimed (id : FileId) : File where
  id := id
  filename := "a"
  size := 0
  hash := none
  storageKey := none
  status := .created
  createdAt := 0
  uploadedAt := none

/-- Two files with one `created_at`. -/
def twins : FileTable := ⟨[(untimed 1).toModel, (untimed 2).toModel], by decide⟩

/-- They are on one page of two. -/
theorem twins_partitioned : twins.Partitioned none 2 :=
  (partitioned_iff twins none 2 (by decide)).mpr (by decide +kernel)

/-- On two pages of one, the first may be shown twice and the second never. -/
theorem twins_not_partitioned :
    (twins.list [(untimed 1).toModel, (untimed 2).toModel] none 1 1).map PaginatedFiles.items =
        .ok [untimed 1] ∧
      (twins.list [(untimed 2).toModel, (untimed 1).toModel] none 2 1).map PaginatedFiles.items =
        .ok [untimed 1] ∧
      ¬ twins.Partitioned none 1 :=
  ⟨by decide +kernel, by decide +kernel, fun h => absurd h.undivided (by decide +kernel)⟩

end FileTable

end FileExtractor
