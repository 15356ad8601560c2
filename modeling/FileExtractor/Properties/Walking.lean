import FileExtractor.Properties.DigitCounts
import FileExtractor.Properties.Listing
import FileExtractor.Worker.Runs

/-!
# Reading page after page while tasks run

Each page of the list of files is a query of its own, and between two of them the handlers go on: a
file that is stored shifts the files behind it to later places, and a cleanup shifts them to earlier
ones. The places move in one direction only as long as rows are only added or only deleted
(`before_mono`), whatever the `created_at` of the new rows is.
-/

namespace FileExtractor

open Lts World Paging

namespace FileTable

/-- The file with the id is on the page `k`, counted from zero, when the query finds the rows in the
order `rows`. -/
def Shows (files : FileTable) (rows : List FileModel) (filters : Option FileFilters)
    (perPage k : Nat) (id : FileId) : Prop :=
  ∃ result, files.list rows filters (k + 1) perPage = .ok result ∧ ∃ f ∈ result.items, f.id = id

/-- The matching files with the `created_at` of the file are on one page. -/
def OnOnePage (files : FileTable) (filters : Option FileFilters) (perPage : Nat) (id : FileId) :
    Prop :=
  ∀ m ∈ files.matching filters, m.id = id →
    before FileModel.createdAt (files.matching filters) m / perPage =
      (upTo FileModel.createdAt (files.matching filters) m - 1) / perPage

instance (files : FileTable) (filters : Option FileFilters) (perPage : Nat) (id : FileId) :
    Decidable (files.OnOnePage filters perPage id) :=
  inferInstanceAs (Decidable (∀ m ∈ files.matching filters, _ → _))

variable {files files' : FileTable} {rows : List FileModel} {filters : Option FileFilters}
  {perPage k : Nat} {id : FileId}

/-- Rows that `_to_model` has written can be read. -/
theorem Written.hashAccepted (h : files.Written) {m : FileModel} (hm : m ∈ files) :
    m.hashAccepted = true := by
  obtain ⟨file, rfl⟩ := h m hm
  exact (FileModel.toDomain_isOk_iff _).mp ⟨_, File.toDomain_toModel file⟩

theorem Shows.row (h : files.Shows rows filters perPage k id) :
    ∃ m ∈ page perPage k rows, m.id = id := by
  obtain ⟨result, hresult, f, hf, rfl⟩ := h
  obtain ⟨m, hm, hmf⟩ := mem_list hresult f hf
  exact ⟨m, hm, (FileModel.toDomain_id hmf).symm⟩

theorem shows_of_row (h : files.Written)
    (hrows : Arranges FileModel.createdAt (files.matching filters) rows)
    (ha : Accepted filters (k + 1) perPage) {m : FileModel} (hm : m ∈ page perPage k rows) :
    files.Shows rows filters perPage k m.id := by
  have hread : ∀ m ∈ rows, m.hashAccepted = true := fun m hm =>
    h.hashAccepted (List.mem_of_mem_filter (hrows.perm.subset hm))
  have hmem : m ∈ rows := List.mem_of_mem_drop (List.mem_of_mem_take hm)
  obtain ⟨f, hf⟩ := (FileModel.toDomain_isOk_iff m).mpr (hread m hmem)
  refine ⟨_, list_eq hread ha, f, List.mem_filterMap.mpr ⟨m, hm, ?_⟩, FileModel.toDomain_id hf⟩
  rw [FileModel.file?, hf]
  rfl

/-- The queries of a page are accepted if those of a later page are. -/
theorem Accepted.mono {j k : Nat} (h : Accepted filters (k + 1) perPage) (hjk : j ≤ k) :
    Accepted filters (j + 1) perPage := by
  have hle : ((j * perPage : Nat) : Int) ≤ ((k * perPage : Nat) : Int) :=
    Int.ofNat_le.mpr (Nat.mul_le_mul_right perPage hjk)
  have hk := h.offset.2
  rw [Int.add_sub_cancel, ← Int.natCast_mul] at hk
  refine ⟨h.texts, ?_, h.limit⟩
  rw [Int.add_sub_cancel, ← Int.natCast_mul]
  exact ⟨Int.natCast_nonneg _, Int.lt_of_le_of_lt hle hk⟩

theorem mem_matching_mono (h : ∀ m ∈ files, m ∈ files') {m : FileModel}
    (hm : m ∈ files.matching filters) : m ∈ files'.matching filters := by
  obtain ⟨hmem, hc⟩ := List.mem_filter.mp hm
  exact List.mem_filter.mpr ⟨h m hmem, hc⟩

end FileTable

/-! ## What happens between two pages -/

/-- No deletion of rows takes effect. -/
def KeepsFiles (w : World) : Label → Prop
  | .call pid reply => ∀ k, w.procs pid = .handling k → (∀ e, reply ≠ .refused e) →
      ∀ f e file todo, k.handler ≠ .deleteRows f e file todo
  | _ => True

/-- No insertion of rows takes effect. -/
def AddsNoFiles (w : World) : Label → Prop
  | .call pid reply => ∀ k, w.procs pid = .handling k → (∀ e, reply ≠ .refused e) →
      ∀ f file fileHash rest, k.handler ≠ .record f file fileHash rest
  | _ => True

/-- The states in which one page after the other is read: between two of them the system takes any
steps that meet the guard. -/
structure Turns (sha256 : Bytes → Digest) (ok : World → Label → Prop) (w : Nat → World) : Prop where
  reach : (system sha256).Reach System.free (w 0)
  runs : ∀ k, ∃ ls, (system sha256).Guarded ok (w k) ls ∧
    (system sha256).run (w k) ls = some (w (k + 1))

variable {sha256 : Bytes → Digest} {w w' : World} {l : Label} {ls : List Label}

theorem Step.files_kept (h : Step sha256 w l w') (hok : KeepsFiles w l) {m : FileModel}
    (hm : m ∈ w.store.files) : m ∈ w'.store.files := by
  rcases h.effect with same | ⟨pid, reply, k, c, rfl, hp, hc, heff, ha⟩
  · rw [same.files]; exact hm
  cases c with
  | addFile tid file fileHash =>
    obtain ⟨files, downloaded, hf, -, he⟩ := Store.apply_addFile ha
    rw [he]; exact (Rel.Table.mem_insert hf).mpr (.inl hm)
  | deleteFile tid file =>
    obtain ⟨f, e, todo, hk, -⟩ := Handler.call_deleteFile hc
    exact absurd hk (hok k hp heff f e file todo)
  | _ => rw [← Option.some.inj ha]; exact hm

theorem Step.files_not_added (h : Step sha256 w l w') (hok : AddsNoFiles w l) {m : FileModel}
    (hm : m ∈ w'.store.files) : m ∈ w.store.files := by
  rcases h.effect with same | ⟨pid, reply, k, c, rfl, hp, hc, heff, ha⟩
  · rw [same.files] at hm; exact hm
  cases c with
  | addFile tid file fileHash =>
    obtain ⟨f, rest, hk, -⟩ := Handler.call_addFile hc
    exact absurd hk (hok k hp heff f file fileHash rest)
  | deleteFile tid file =>
    rw [← Option.some.inj ha] at hm
    exact (Rel.Table.mem_delete.mp hm).1
  | _ => rw [← Option.some.inj ha] at hm; exact hm

theorem files_kept_run (hg : (system sha256).Guarded KeepsFiles w ls)
    (hrun : (system sha256).run w ls = some w') : ∀ m ∈ w.store.files, m ∈ w'.store.files :=
  System.run_keeps (I := fun v => ∀ m ∈ w.store.files, m ∈ v.store.files)
    (fun _ _ _ hv hok hst m hm => (Step.of_step hst).files_kept hok (hv m hm)) (fun _ hm => hm)
    hg hrun

theorem files_not_added_run (hg : (system sha256).Guarded AddsNoFiles w ls)
    (hrun : (system sha256).run w ls = some w') : ∀ m ∈ w'.store.files, m ∈ w.store.files :=
  System.run_keeps (I := fun v => ∀ m ∈ v.store.files, m ∈ w.store.files)
    (fun _ _ _ hv hok hst m hm => hv m ((Step.of_step hst).files_not_added hok hm)) (fun _ hm => hm)
    hg hrun

theorem Turns.written {ok : World → Label → Prop} {w : Nat → World} (h : Turns sha256 ok w)
    (k : Nat) : (w k).store.files.Written := by
  have hreach : ∀ k, (system sha256).Reach System.free (w k) := fun k => by
    induction k with
    | zero => exact h.reach
    | succ k ih =>
      obtain ⟨ls, -, hrun⟩ := h.runs k
      exact ih.run System.guarded_free hrun
  exact files_written sha256 _ (hreach k)

/-! ## The pages -/

section Pages

variable {ok : World → Label → Prop} {w : Nat → World} {filters : Option FileFilters}
  {perPage : Nat} {order : Nat → List FileModel} {id : FileId}

/-- A reader of page after page meets every file that was there, while files are only added. -/
theorem Turns.meets (h : Turns sha256 KeepsFiles w) (hpos : 0 < perPage)
    (horder : ∀ k, Arranges FileModel.createdAt ((w k).store.files.matching filters) (order k))
    (hone : ∀ k, (w k).store.files.OnOnePage filters perPage id)
    {m : FileModel} (hm : m ∈ (w 0).store.files.matching filters) (hid : m.id = id) {last : Nat}
    (hacc : FileTable.Accepted filters (last + 1) perPage)
    (hlast : (w last).store.files.total filters ≤ (last + 1) * perPage) :
    ∃ k, k ≤ last ∧ (w k).store.files.Shows (order k) filters perPage k id := by
  rw [FileTable.total_eq] at hlast
  have hgrow : ∀ k, ∀ y ∈ (w k).store.files.matching filters,
      y ∈ (w (k + 1)).store.files.matching filters := by
    intro k y hy
    obtain ⟨ls, hg, hrun⟩ := h.runs k
    exact FileTable.mem_matching_mono (files_kept_run hg hrun) hy
  obtain ⟨k, hk, hmem⟩ := exists_mem_page horder (fun k => FileTable.nodup_matching _ filters) hpos
    (fun k hx => hone k m hx hid) hgrow hm hlast
  exact ⟨k, hk, hid ▸ FileTable.shows_of_row (h.written k) (horder k) (hacc.mono hk) hmem⟩

/-- A reader of page after page meets no file twice, while files are only deleted. -/
theorem Turns.meets_once (h : Turns sha256 AddsNoFiles w) (hpos : 0 < perPage)
    (horder : ∀ k, Arranges FileModel.createdAt ((w k).store.files.matching filters) (order k))
    (hone : ∀ k, (w k).store.files.OnOnePage filters perPage id) {j k : Nat}
    (hj : (w j).store.files.Shows (order j) filters perPage j id)
    (hk : (w k).store.files.Shows (order k) filters perPage k id) : j = k := by
  have hshrink : ∀ k, ∀ y ∈ (w (k + 1)).store.files, y ∈ (w k).store.files := by
    intro k
    obtain ⟨ls, hg, hrun⟩ := h.runs k
    exact files_not_added_run hg hrun
  have hfirst : ∀ k, ∀ y ∈ (w k).store.files, y ∈ (w 0).store.files := by
    intro k
    induction k with
    | zero => exact fun y hy => hy
    | succ k ih => exact fun y hy => ih y (hshrink k y hy)
  have hrow : ∀ {k m}, m ∈ page perPage k (order k) → m ∈ (w 0).store.files := by
    intro k m hm
    have hmem := (horder k).perm.subset (List.mem_of_mem_drop (List.mem_of_mem_take hm))
    exact hfirst k m (List.mem_of_mem_filter hmem)
  obtain ⟨m, hmj, hid⟩ := hj.row
  obtain ⟨m', hmk, hid'⟩ := hk.row
  obtain rfl : m = m' := Rel.Table.eq_of_key (hrow hmj) (hrow hmk) (hid.trans hid'.symm)
  exact mem_page_unique horder (fun k => FileTable.nodup_matching _ filters) hpos
    (fun k hx => hone k m hx hid)
    (fun k y hy => FileTable.mem_matching_mono (hshrink k) hy) hmj hmk

end Pages

/-- **Page after page while tasks run.** The pages are read in turn, each by a query of its own with
an order of its own, and between two of them the system takes any steps. A file whose `created_at`
is on one page at each query is met if it was there at the first one and no rows are deleted, by the
time the pages read are as many as the last one reports, if the database takes the arguments of the
last page; and it is met at most once if no rows are added. -/
theorem pages_read_in_turn (sha256 : Bytes → Digest) (filters : Option FileFilters) (perPage : Nat)
    (hpos : 0 < perPage) (w : Nat → World) (order : Nat → List FileModel)
    (horder : ∀ k, Arranges FileModel.createdAt ((w k).store.files.matching filters) (order k))
    (id : FileId) (hone : ∀ k, (w k).store.files.OnOnePage filters perPage id) :
    (Turns sha256 KeepsFiles w → ∀ m ∈ (w 0).store.files.matching filters, m.id = id →
      ∀ last : Nat, FileTable.Accepted filters (last + 1) perPage →
        (w last).store.files.total filters ≤ (last + 1) * perPage →
        ∃ k, k ≤ last ∧ (w k).store.files.Shows (order k) filters perPage k id) ∧
    (Turns sha256 AddsNoFiles w → ∀ j k, (w j).store.files.Shows (order j) filters perPage j id →
      (w k).store.files.Shows (order k) filters perPage k id → j = k) :=
  ⟨fun h _ hm hid _ hacc hlast => h.meets hpos horder hone hm hid hacc hlast,
    fun h _ _ hj hk => h.meets_once hpos horder hone hj hk⟩

/-- No process is about to delete rows when it is called. -/
def keepsCheck (w : World) : Label → Bool
  | .call pid _ =>
    match w.procs pid with
    | .handling k =>
      match k.handler with
      | .deleteRows _ _ _ _ => false
      | _ => true
    | _ => true
  | _ => true

theorem keepsFiles_of_check (h : keepsCheck w l = true) : KeepsFiles w l := by
  cases l with
  | call pid reply =>
    intro k hp _ f e file todo hk
    simp [keepsCheck, hp, hk] at h
  | _ => trivial

/-- A handler stores two files, and then a third one. -/
def twoStored : List Label :=
  let m : Message := ⟨"t", none⟩
  let task := ((DownloadTask.new "t" "").toModel.claimed "a" 0).toDomain
  [.start 0 "t" none .done, .send 0, .deliver 1 m "a", .claim 1 .done,
    .call 1 (.done (.task (some task))), .call 1 (.done (.names ["x", "y", "z"])),
    .call 1 (.done .done), .call 1 (.done (.archive [⟨"x", [1]⟩, ⟨"y", [2]⟩, ⟨"z", [3]⟩])),
    .call 1 (.done .next), .call 1 (.done .done), .call 1 (.done (.found false)),
    .call 1 (.done (.stored 7)), .call 1 (.done .done), .tick 1, .call 1 (.done .next),
    .call 1 (.done (.found false)), .call 1 (.done (.stored 8)), .call 1 (.done .done)]

def thirdStored : List Label :=
  [.tick 1, .call 1 (.done .next), .call 1 (.done (.found false)), .call 1 (.done (.stored 9)),
    .call 1 (.done .done)]

/-- The order of the newest first, and one file on each page. -/
def newestFirst (w : World) : Bool :=
  decide ((w.store.files.matching none).reverse.Pairwise fun a b => b.createdAt ≤ a.createdAt) &&
    decide (w.store.files.OnOnePage none 1 7)

/-- With one file on a page, the first file is met on the third page, behind the new one. -/
theorem third_page_met : ∃ (w : Nat → World) (order : Nat → List FileModel),
    Turns (fun _ => 0) KeepsFiles w ∧ (w 0).store.files.total none = 2 ∧
    (w 2).store.files.total none = 3 ∧
    ∃ k, k ≤ 2 ∧ (w k).store.files.Shows (order k) none 1 k 7 := by
  obtain ⟨v, hv, hp⟩ := (Option.any_eq_true ..).mp
    (by decide +kernel : ((system fun _ => 0).run (fresh 0 fun _ => none) twoStored).any (fun v =>
      newestFirst v && (v.store.files.matching none).any (fun m => m.id = 7) &&
        decide (v.store.files.total none = 2) &&
        ((system fun _ => 0).runIf keepsCheck v thirdStored).any fun v' =>
          newestFirst v' && decide (v'.store.files.total none = 3)) = true)
  simp only [Bool.and_eq_true, decide_eq_true_eq, newestFirst] at hp
  obtain ⟨⟨⟨⟨hsorted, hone⟩, hfirst⟩, htotal⟩, hrun⟩ := hp
  obtain ⟨m, hm, hid⟩ := List.any_eq_true.mp hfirst
  obtain ⟨hg, v', hv', hp'⟩ := System.guarded_of_runIf
    (fun _ _ => keepsFiles_of_check) thirdStored _ hrun
  simp only [Bool.and_eq_true, decide_eq_true_eq] at hp'
  obtain ⟨⟨hsorted', hone'⟩, htotal'⟩ := hp'
  let w : Nat → World := fun k => if k = 0 then v else v'
  have hturns : Turns (fun _ => 0) KeepsFiles w := by
    refine ⟨System.reach_of_run ⟨0, _, rfl⟩ hv, fun k => ?_⟩
    cases k with
    | zero => exact ⟨thirdStored, hg, hv'⟩
    | succ k => exact ⟨[], trivial, rfl⟩
  have horder : ∀ k, Arranges FileModel.createdAt ((w k).store.files.matching none)
      ((w k).store.files.matching none).reverse := by
    intro k
    refine ⟨List.reverse_perm _, ?_⟩
    cases k with
    | zero => exact hsorted
    | succ k => exact hsorted'
  have hones : ∀ k, (w k).store.files.OnOnePage none 1 7 := by
    intro k
    cases k with
    | zero => exact hone
    | succ k => exact hone'
  refine ⟨w, fun k => ((w k).store.files.matching none).reverse, hturns, htotal, htotal', ?_⟩
  exact (pages_read_in_turn (fun _ => 0) none 1 Nat.one_pos w _ horder 7 hones).1 hturns m hm
    (of_decide_eq_true hid) 2 (by decide) (Nat.le_of_eq htotal')

end FileExtractor
