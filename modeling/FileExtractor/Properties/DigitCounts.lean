import FileExtractor.Properties.DigitTables
import FileExtractor.Properties.Listing
import FileExtractor.Worker.Effects

/-!
# The overall digit counts

On a table whose rows `_to_model` has written, as in every reachable store (`files_written`),
`CalculateStatsHandler` returns; its tables have the ten digits as keys and no other
(`OnlyDigits`), and the overall table counts the digits of all contents together. The counts of a
permutation are the same.
-/

namespace FileExtractor

open Dict Lts

/-! ## The rows of a store -/

/-- Each row is that of a file. -/
def FileTable.Written (files : FileTable) : Prop := ∀ m ∈ files, ∃ file : File, m = file.toModel

theorem FileTable.Written.getById {files : FileTable} (h : files.Written) (id : FileId) :
    ∃ file, files.getById id = .ok file := by
  unfold FileTable.getById
  cases hm : files.get? id with
  | none => exact ⟨none, rfl⟩
  | some m =>
    obtain ⟨file, rfl⟩ := h m (Rel.Table.get?_eq_some.mp hm).1
    rw [Option.mapM_some, File.toDomain_toModel]
    exact ⟨_, rfl⟩

/-- **The rows of `files` are written by `_to_model`**, in every reachable store. -/
theorem files_written (sha256 : Bytes → Digest) :
    (World.system sha256).Invariant System.free fun w => w.store.files.Written := by
  refine System.Reach.induct (fun w hw m hm => ?_) fun w l w' _ ih _ hst m hm => ?_
  · obtain ⟨now, bucket, rfl⟩ := hw
    exact absurd hm (Rel.Table.not_mem_empty m)
  · cases (Step.of_step hst : Step sha256 w l w').filesStep with
    | kept hf hd ho => rw [hf] at hm; exact ih m hm
    | added pid reply k f file fileHash rest hl hp hk ha =>
      obtain ⟨files, downloaded, hf, -, hs'⟩ := Store.apply_addFile ha
      rw [hs'] at hm
      rcases (Rel.Table.mem_insert hf).mp hm with hm | rfl
      · exact ih m hm
      · exact ⟨file, rfl⟩
    | deleted pid reply k f e file todo hl hp hk ha =>
      simp only [Store.apply, Option.some.injEq] at ha
      rw [← ha] at hm
      exact ih m (Rel.Table.mem_delete.mp hm).1

namespace CalculateStats

variable {files : FileTable} {bucket : String → Option Bytes} {fileIds : List FileId}

theorem execute_returns (h : files.Written) (bucket : String → Option Bytes)
    (fileIds : List FileId) : ∃ r, execute files bucket fileIds = .ok r := by
  have hlist : ∀ listed, ∃ listed', fileIds.foldlM (list files) listed = .ok listed' := by
    induction fileIds with
    | nil => exact fun listed => ⟨listed, rfl⟩
    | cons fileId fileIds ih =>
      intro listed
      obtain ⟨file, hfile⟩ := h.getById fileId
      rw [List.foldlM_cons, list, hfile]
      exact ih _
  obtain ⟨listed, hl⟩ := hlist []
  rw [execute, hl]
  exact ⟨_, rfl⟩

/-! ## The keys -/

theorem mem_digits {c : Char} (h : '0' ≤ c ∧ c ≤ '9') : c ∈ digits := by
  have hall : ∀ n < 58, 48 ≤ n → Char.ofNat n ∈ digits := by decide
  have hc := hall c.toNat (Nat.lt_succ_of_le h.2) h.1
  rwa [Char.ofNat_toNat] at hc

/-- No key is anything but a digit. -/
structure OnlyDigits (r : CalculateStatsResult) : Prop where
  total : ∀ k ∈ r.total, k ∈ digits
  byFile : ∀ name t, r.byFile.lookup name = some t → ∀ k ∈ t, k ∈ digits

theorem mem_increment {t : Dict Char Nat} {c k : Char} : k ∈ increment t c ↔ k = c ∨ k ∈ t :=
  AList.mem_insert t

theorem onlyDigits_countChar {r : CalculateStatsResult} (h : OnlyDigits r) (filename : String)
    (char : Char) : OnlyDigits (countChar filename r char) := by
  unfold countChar
  split
  · next hd =>
    refine ⟨fun k hk => ?_, fun name t ht k hk => ?_⟩
    · rcases mem_increment.mp hk with rfl | hk
      · exact mem_digits hd
      · exact h.total k hk
    · by_cases hname : name = filename
      · subst hname
        rw [AList.lookup_insert] at ht
        cases ht
        rcases mem_increment.mp hk with rfl | hk
        · exact mem_digits hd
        · cases hl : r.byFile.lookup name with
          | none => rw [hl] at hk; cases hk
          | some u => rw [hl] at hk; exact h.byFile name u hl k hk
      · rw [AList.lookup_insert_ne hname] at ht
        exact h.byFile name t ht k hk
  · exact h

theorem onlyDigits_foldl {α : Type} {f : CalculateStatsResult → α → CalculateStatsResult}
    {xs : List α} (hf : ∀ r, ∀ x ∈ xs, OnlyDigits r → OnlyDigits (f r x))
    {r : CalculateStatsResult} (h : OnlyDigits r) : OnlyDigits (xs.foldl f r) := by
  induction xs generalizing r with
  | nil => exact h
  | cons x xs ih =>
    exact ih (fun r y hy => hf r y (List.mem_cons_of_mem x hy)) (hf r x List.mem_cons_self h)

theorem onlyDigits_countFile {r : CalculateStatsResult} (h : OnlyDigits r)
    (bucket : String → Option Bytes) (x : Listed) : OnlyDigits (countFile bucket r x) := by
  obtain ⟨fileId, filename, key⟩ := x
  simp only [countFile]
  split
  · exact h
  split
  · exact h
  split
  · exact h
  refine onlyDigits_foldl (fun r c _ hr => onlyDigits_countChar hr filename c)
    ⟨h.total, fun name t ht k hk => ?_⟩
  -- the table of the file starts without keys
  by_cases hname : name = filename
  · subst hname
    rw [AList.lookup_insert] at ht
    cases ht
    cases hk
  · rw [AList.lookup_insert_ne hname] at ht
    exact h.byFile name t ht k hk

theorem onlyDigits_fill {r : CalculateStatsResult} (h : OnlyDigits r) {d : Char}
    (hd : d ∈ digits) : OnlyDigits (fill r d) where
  total k hk := by
    rcases mem_setDefault.mp hk with rfl | hk
    · exact hd
    · exact h.total k hk
  byFile name t ht k hk := by
    replace ht : (fillByFile d r.byFile).lookup name = some t := ht
    rw [lookup_fillByFile, Option.map_eq_some_iff] at ht
    obtain ⟨t₀, ht₀, rfl⟩ := ht
    rcases mem_setDefault.mp hk with rfl | hk
    · exact hd
    · exact h.byFile name t₀ ht₀ k hk

theorem execute_onlyDigits {r : CalculateStatsResult}
    (h : execute files bucket fileIds = .ok r) : OnlyDigits r := by
  obtain ⟨listed, -, h⟩ := Fallible.bind_eq_ok.mp h
  have hempty : OnlyDigits ⟨∅, ∅⟩ := ⟨fun _ hk => (by cases hk), fun _ _ ht => (by cases ht)⟩
  have hcount : OnlyDigits (listed.foldl (countFile bucket) ⟨∅, ∅⟩) :=
    onlyDigits_foldl (fun r x _ hr => onlyDigits_countFile hr bucket x) hempty
  have hr : digits.foldl fill (listed.foldl (countFile bucket) ⟨∅, ∅⟩) = r := Except.ok.inj h
  exact hr ▸ onlyDigits_foldl (fun r d hd hr => onlyDigits_fill hr hd) hcount

/-! ## The counts -/

/-- The contents of the listed files, one after the other; a file that is listed twice is there
twice. -/
def concatenation (files : FileTable) (bucket : String → Option Bytes) (fileIds : List FileId) :
    List Char :=
  (fileIds.filterMap (readable files bucket)).flatMap fun p => p.2.toList

/-- The tables have the ten digits as keys, and the overall one counts them in the text. -/
structure Exact (text : List Char) (r : CalculateStatsResult) : Prop where
  keys : ∀ k, k ∈ r.total ↔ k ∈ digits
  total : ∀ d ∈ digits, r.total.lookup d = some (text.count d)
  byFile : ∀ name t, r.byFile.lookup name = some t → ∀ k, k ∈ t ↔ k ∈ digits

theorem execute_exact {r : CalculateStatsResult} (h : execute files bucket fileIds = .ok r) :
    Exact (concatenation files bucket fileIds) r := by
  obtain ⟨hfilled, htotal, -, -⟩ := execute_ok h
  have honly := execute_onlyDigits h
  refine ⟨fun k => ⟨honly.total k, fun hk => (hfilled k hk).1⟩, fun d hd => ?_,
    fun name t ht k => ⟨honly.byFile name t ht k, fun hk => (hfilled k hk).2 name t ht⟩⟩
  rw [lookup_of_mem (hfilled d hd).1, htotal d hd, concatenation, List.count_flatMap]
  rfl

theorem Exact.lookup_eq {text text' : List Char} {r r' : CalculateStatsResult} (h : Exact text r)
    (h' : Exact text' r') (hp : text'.Perm text) (k : Char) :
    r'.total.lookup k = r.total.lookup k := by
  by_cases hk : k ∈ digits
  · rw [h.total k hk, h'.total k hk, hp.count_eq]
  · rw [AList.lookup_eq_none.mpr ((h.keys k).not.mpr hk),
      AList.lookup_eq_none.mpr ((h'.keys k).not.mpr hk)]

/-- **The overall counts are exact**, and those of a permutation of the ids are the same. -/
theorem counts_exact (files : FileTable) (bucket : String → Option Bytes) (fileIds : List FileId)
    (hfiles : files.Written) :
    ∃ r, execute files bucket fileIds = .ok r ∧ Exact (concatenation files bucket fileIds) r ∧
      ∀ fileIds' : List FileId, fileIds'.Perm fileIds →
        ∃ r', execute files bucket fileIds' = .ok r' ∧
          ∀ k, r'.total.lookup k = r.total.lookup k := by
  obtain ⟨r, hr⟩ := execute_returns hfiles bucket fileIds
  refine ⟨r, hr, execute_exact hr, fun fileIds' hp => ?_⟩
  obtain ⟨r', hr'⟩ := execute_returns hfiles bucket fileIds'
  refine ⟨r', hr', (execute_exact hr).lookup_eq (execute_exact hr') ?_⟩
  exact (hp.filterMap _).flatMap_right _

theorem twoFiles_written : twoFiles.Written := by
  intro m hm
  let hash : FileHash := ⟨hexdigest 0, hexdigest_matches 0⟩
  rcases List.mem_pair.mp hm with rfl | rfl
  · exact ⟨⟨1, "a.txt", 2, some hash, some "k1", .uploaded, 0, none⟩, rfl⟩
  · exact ⟨⟨2, "a.txt", 1, some hash, some "k2", .uploaded, 0, none⟩, rfl⟩

/-- The contents `12` and `3`, and `12` again. -/
theorem counts_exact_two : ∃ r, execute twoFiles twoContents [1, 2, 1] = .ok r ∧
    r.total.lookup '1' = some 2 := by
  obtain ⟨r, hr, hexact, -⟩ := counts_exact twoFiles twoContents [1, 2, 1] twoFiles_written
  have htext : concatenation twoFiles twoContents [1, 2, 1] = ['1', '2', '3', '1', '2'] := by
    decide +kernel
  rw [htext] at hexact
  exact ⟨r, hr, hexact.total '1' (by decide)⟩

end CalculateStats

end FileExtractor
