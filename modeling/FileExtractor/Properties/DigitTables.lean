import FileExtractor.Lib.Fallible
import FileExtractor.Application.CalculateStats

/-!
# The digit tables

What `CalculateStatsHandler` computes, from the names and contents of the listed files that are
readable and not empty (`readable`): the overall table counts the digits of all of them
(`Tables.total`), and `by_file` is the dictionary of the assignments `name ↦ table of the content`
(`Tables.byFile`), so the last file of a name wins. The two agree exactly when no content with a
digit shares its name with another position of the list.
-/

namespace FileExtractor

open Dict Fallible

namespace CalculateStats

/-- The name and the content of a file that is readable and not empty. -/
def readable (files : FileTable) (bucket : String → Option Bytes) (fileId : FileId) :
    Option (String × String) := do
  let m ← files.get? fileId
  let hash ← m.hash
  let key ← m.storageKey
  let content ← download bucket key
  if hash ≠ "" ∧ key ≠ "" ∧ content ≠ "" then some (m.filename, content) else none

/-- How often the content has the character. -/
def count (d : Char) (content : String) : Nat := content.toList.count d

/-- The overall table is the sum of the tables of the files, and each file has the table of its own
content. -/
structure Consistent (contents : List (String × String)) (r : CalculateStatsResult) : Prop where
  sums : ∀ d ∈ digits, r.total.lookup d = some (total (get · d) r.byFile)
  represented : ∀ p ∈ contents, ∃ t, r.byFile.lookup p.1 = some t ∧
    ∀ d ∈ digits, t.lookup d = some (count d p.2)

/-! ## The contents -/

/-- The name and the content of a listed file. -/
def contentOf (bucket : String → Option Bytes) : Listed → Option (String × String)
  | (_, filename, key) =>
    if key = "" then none
    else ((download bucket key).filter (· ≠ "")).map fun content => (filename, content)

variable {files : FileTable} {bucket : String → Option Bytes} {fileIds : List FileId}

/-- The content of a file is that of its row. -/
theorem contentOf_entry {m : FileModel} {file : File} {fileId : FileId}
    (hm : files.get? fileId = some m) (hd : m.toDomain = .ok file) :
    (entry file).bind (contentOf bucket) = readable files bucket fileId := by
  obtain ⟨hname, hkey, hhash⟩ := FileModel.toDomain_ok hd
  simp only [readable, hm, entry, Option.bind_eq_bind, Option.bind_some]
  cases hh : m.hash with
  | none =>
    have : file.hash = none := by simpa [hh] using hhash
    simp [this]
  | some hash =>
    by_cases hne : hash = ""
    · have : file.hash = none := by simpa [hh, hne] using hhash
      simp [this, hne]
    obtain ⟨value, hvalue⟩ : ∃ value, file.hash = some value :=
      Option.isSome_iff_exists.mp (by simp [hhash, hh, hne])
    rw [hvalue, hkey]
    cases hk : m.storageKey with
    | none => simp
    | some key =>
      by_cases hke : key = ""
      · simp [hke, Option.filter]
      · cases hc : download bucket key with
        | none => simp [contentOf, hke, hc, Option.filter]
        | some content =>
          by_cases hce : content = "" <;> simp [contentOf, hke, hc, hce, hne, hname, Option.filter]

theorem list_ok {listed listed' : List Listed} {fileId : FileId}
    (h : list files listed fileId = .ok listed') :
    listed'.filterMap (contentOf bucket) =
      listed.filterMap (contentOf bucket) ++ (readable files bucket fileId).toList := by
  obtain ⟨file, hg, h⟩ := bind_eq_ok.mp h
  cases h
  rcases FileTable.getById_ok hg with ⟨hm, rfl⟩ | ⟨m, f, hm, hd, rfl⟩
  · simp [readable, hm]
  · rw [List.filterMap_append, ← contentOf_entry hm hd]
    congr 1
    cases he : entry f with
    | none => simp [he]
    | some x => cases hx : contentOf bucket x <;> simp [he, hx]

theorem foldlM_list_ok (bucket : String → Option Bytes) {listed listed' : List Listed}
    (h : fileIds.foldlM (list files) listed = .ok listed') :
    listed'.filterMap (contentOf bucket) =
      listed.filterMap (contentOf bucket) ++ fileIds.filterMap (readable files bucket) := by
  induction fileIds generalizing listed with
  | nil => cases h; simp
  | cons fileId fileIds ih =>
    rw [List.foldlM_cons] at h
    obtain ⟨l, hl, h⟩ := bind_eq_ok.mp h
    rw [ih h, list_ok hl, List.append_assoc]
    cases hr : readable files bucket fileId <;> simp [hr]

/-! ## Counting -/

/-- One character in one table. -/
def countIn (t : Dict Char Nat) (char : Char) : Dict Char Nat :=
  if '0' ≤ char ∧ char ≤ '9' then increment t char else t

/-- The table of a content. -/
def digitTable (content : String) : Dict Char Nat := content.toList.foldl countIn ∅

theorem isDigit_of_mem {d : Char} (h : d ∈ digits) : '0' ≤ d ∧ d ≤ '9' := by
  simp only [digits, List.mem_cons, List.not_mem_nil, or_false] at h
  rcases h with rfl | rfl | rfl | rfl | rfl | rfl | rfl | rfl | rfl | rfl <;> decide

theorem get_foldl_countIn {d : Char} (hd : d ∈ digits) (cs : List Char) (t : Dict Char Nat) :
    get (cs.foldl countIn t) d = get t d + cs.count d := by
  induction cs generalizing t with
  | nil => rfl
  | cons c cs ih =>
    rw [List.foldl_cons, ih, List.count_cons, countIn]
    split
    · rw [get_increment, Nat.add_assoc, Nat.add_comm (List.count d cs)]
      by_cases e : d = c
      · simp [e]
      · simp [e, Ne.symm e]
    · next hc =>
      have hne : c ≠ d := fun e => hc (e ▸ isDigit_of_mem hd)
      simp [hne]

/-- The loop over the characters touches the two tables of the file only. -/
theorem foldl_countChar (filename : String) (cs : List Char) (t : Dict Char Nat)
    (b : Dict String (Dict Char Nat)) (u : Dict Char Nat) :
    cs.foldl (countChar filename) ⟨t, b.insert filename u⟩ =
      ⟨cs.foldl countIn t, b.insert filename (cs.foldl countIn u)⟩ := by
  induction cs generalizing t u with
  | nil => rfl
  | cons c cs ih =>
    have hstep : countChar filename ⟨t, b.insert filename u⟩ c =
        ⟨countIn t c, b.insert filename (countIn u c)⟩ := by
      unfold countChar countIn
      split
      · rw [AList.lookup_insert, AList.insert_insert]; rfl
      · rfl
    rw [List.foldl_cons, hstep, ih]
    rfl

theorem countFile_eq (r : CalculateStatsResult) (x : Listed) : countFile bucket r x =
    (contentOf bucket x).elim r fun p =>
      ⟨p.2.toList.foldl countIn r.total, r.byFile.insert p.1 (digitTable p.2)⟩ := by
  obtain ⟨fileId, filename, key⟩ := x
  by_cases hk : key = ""
  · simp [countFile, contentOf, hk]
  cases hd : download bucket key with
  | none => simp [countFile, contentOf, hk, hd]
  | some content =>
    by_cases hc : content = ""
    · simp [countFile, contentOf, hk, hd, hc, Option.filter]
    · simp only [countFile, contentOf, hk, hd, hc, ↓reduceIte, Option.filter, ne_eq,
        not_false_eq_true, decide_true, Option.map_some, Option.elim_some]
      exact foldl_countChar ..

/-- **The tables before the defaults**: the digits of all contents, and for each name the table of
its last content. -/
theorem foldl_countFile (bucket : String → Option Bytes) (listed : List Listed) :
    let contents := listed.filterMap (contentOf bucket)
    (∀ d ∈ digits, get (listed.foldl (countFile bucket) ⟨∅, ∅⟩).total d =
      weights (count d) contents) ∧
    (listed.foldl (countFile bucket) ⟨∅, ∅⟩).byFile =
      ofList (contents.map fun p => (p.1, digitTable p.2)) := by
  induction listed using List.reverseRec with
  | nil => exact ⟨fun d _ => rfl, rfl⟩
  | append_singleton listed x ih =>
    obtain ⟨htotal, hbyFile⟩ := ih
    simp only [List.foldl_append, List.foldl_cons, List.foldl_nil, countFile_eq,
      List.filterMap_append, List.filterMap_cons, List.filterMap_nil]
    cases hx : contentOf bucket x with
    | none => simpa using ⟨htotal, hbyFile⟩
    | some p =>
      refine ⟨fun d hd => ?_, ?_⟩
      · show get (p.2.toList.foldl countIn _) d = _
        rw [get_foldl_countIn hd, htotal d hd]
        simp [weights, count]
      · rw [List.map_append]
        show AList.insert p.1 (digitTable p.2) _ = ofList (_ ++ [(p.1, digitTable p.2)])
        rw [ofList_concat, hbyFile]

/-! ## The defaults -/

theorem lookup_fillByFile (d : Char) (b : Dict String (Dict Char Nat)) (fname : String) :
    (fillByFile d b).lookup fname = (b.lookup fname).map fun t => setDefault t d 0 := by
  rw [fillByFile, lookup_modifyAll b.keys_nodup]
  split
  · rfl
  · next h => rw [AList.lookup_eq_none.mpr (AList.mem_keys.not.mpr h)]; rfl

/-- The digits `ds` are keys of the overall table and of each table of a file. -/
def Filled (ds : List Char) (r : CalculateStatsResult) : Prop :=
  ∀ d ∈ ds, d ∈ r.total ∧ ∀ fname t, r.byFile.lookup fname = some t → d ∈ t

/-- The defaults of zero change no count. -/
structure SameCounts (r r' : CalculateStatsResult) : Prop where
  total : ∀ d, get r'.total d = get r.total d
  sum : ∀ d, Dict.total (get · d) r'.byFile = Dict.total (get · d) r.byFile
  byFile : ∀ fname, (r'.byFile.lookup fname).map get = (r.byFile.lookup fname).map get

theorem SameCounts.trans {r r' r'' : CalculateStatsResult} (h : SameCounts r r')
    (h' : SameCounts r' r'') : SameCounts r r'' :=
  ⟨fun d => (h'.total d).trans (h.total d), fun d => (h'.sum d).trans (h.sum d),
    fun fname => (h'.byFile fname).trans (h.byFile fname)⟩

theorem sameCounts_fill (r : CalculateStatsResult) (d : Char) : SameCounts r (fill r d) where
  total _ := get_setDefault
  sum _ := total_modifyAll (fun _ => get_setDefault) _ _
  byFile fname := by
    show ((fillByFile d r.byFile).lookup fname).map get = _
    rw [lookup_fillByFile, Option.map_map]
    congr 1
    funext t j
    exact get_setDefault

theorem filled_fill {ds : List Char} {r : CalculateStatsResult} (h : Filled ds r) (d : Char) :
    Filled (ds ++ [d]) (fill r d) := by
  intro j hj
  refine ⟨mem_setDefault.mpr ?_, fun fname t ht => ?_⟩
  · rcases List.mem_append.mp hj with hj | hj
    · exact .inr (h j hj).1
    · exact .inl (List.mem_singleton.mp hj)
  · replace ht : (fillByFile d r.byFile).lookup fname = some t := ht
    rw [lookup_fillByFile, Option.map_eq_some_iff] at ht
    obtain ⟨t₀, ht₀, rfl⟩ := ht
    rcases List.mem_append.mp hj with hj | hj
    · exact mem_setDefault.mpr (.inr ((h j hj).2 fname t₀ ht₀))
    · exact mem_setDefault.mpr (.inl (List.mem_singleton.mp hj))

theorem foldl_fill (ds : List Char) (r : CalculateStatsResult) :
    SameCounts r (ds.foldl fill r) ∧ Filled ds (ds.foldl fill r) := by
  induction ds using List.reverseRec with
  | nil => exact ⟨⟨fun _ => rfl, fun _ => rfl, fun _ => rfl⟩, nofun⟩
  | append_singleton ds d ih =>
    rw [List.foldl_append, List.foldl_cons, List.foldl_nil]
    exact ⟨ih.1.trans (sameCounts_fill _ d), filled_fill ih.2 d⟩

/-! ## The result -/

/-- A key is read as `get` reads it. -/
theorem lookup_of_mem {t : Dict Char Nat} {d : Char} (h : d ∈ t) : t.lookup d = some (get t d) := by
  obtain ⟨n, hn⟩ := Option.isSome_iff_exists.mp (AList.lookup_isSome.mpr h)
  rw [Dict.get, hn]; rfl

/-- A name stands for one content, or for contents without digits. -/
def Separate (contents : List (String × String)) : Prop :=
  contents.Pairwise fun p q => p.1 = q.1 →
    ∀ d ∈ digits, count d p.2 = 0 ∧ count d q.2 = 0

theorem get_digitTable {d : Char} (hd : d ∈ digits) (content : String) :
    get (digitTable content) d = count d content := by
  rw [digitTable, get_foldl_countIn hd]
  exact Nat.zero_add _

/-- The dictionary of the tables of the contents. -/
def tables (contents : List (String × String)) : Dict String (Dict Char Nat) :=
  ofList (contents.map fun p => (p.1, digitTable p.2))

theorem execute_ok {r : CalculateStatsResult} (h : execute files bucket fileIds = .ok r) :
    let contents := fileIds.filterMap (readable files bucket)
    Filled digits r ∧ (∀ d ∈ digits, get r.total d = weights (count d) contents) ∧
      (∀ d, total (get · d) r.byFile = total (get · d) (tables contents)) ∧
      ∀ fname, (r.byFile.lookup fname).map get = ((tables contents).lookup fname).map get := by
  obtain ⟨listed, hl, h⟩ := bind_eq_ok.mp h
  have hcontents := foldlM_list_ok bucket hl
  rw [List.filterMap_nil, List.nil_append] at hcontents
  obtain ⟨htotal, hbyFile⟩ := foldl_countFile bucket listed
  rw [hcontents] at htotal hbyFile
  obtain ⟨hsame, hfilled⟩ := foldl_fill digits (listed.foldl (countFile bucket) ⟨∅, ∅⟩)
  have hr : digits.foldl fill (listed.foldl (countFile bucket) ⟨∅, ∅⟩) = r := Except.ok.inj h
  rw [hr] at hsame hfilled
  refine ⟨hfilled, fun d hd => (hsame.total d).trans (htotal d hd), fun d => ?_, fun fname => ?_⟩
  · rw [hsame.sum d, hbyFile, tables]
  · rw [hsame.byFile fname, hbyFile, tables]

theorem total_tables_iff {d : Char} (hd : d ∈ digits) (contents : List (String × String)) :
    total (get · d) (tables contents) = weights (count d) contents ↔
      contents.Pairwise fun p q => p.1 = q.1 → count d p.2 = 0 := by
  have hw : weights (get · d) (contents.map fun p => (p.1, digitTable p.2)) =
      weights (count d) contents := by
    simp only [weights, List.map_map]
    congr 1
    exact List.map_congr_left fun p _ => get_digitTable hd p.2
  rw [tables, ← hw, total_ofList_iff, List.pairwise_map]
  simp only [get_digitTable hd]

/-- **The tables agree** with each other and with the contents exactly when no content with a digit
shares its name. -/
theorem consistent_iff (files : FileTable) (bucket : String → Option Bytes) (fileIds : List FileId)
    (r : CalculateStatsResult) (h : execute files bucket fileIds = .ok r) :
    Consistent (fileIds.filterMap (readable files bucket)) r ↔
      Separate (fileIds.filterMap (readable files bucket)) := by
  obtain ⟨hfilled, htotal, hsum, hbyFile⟩ := execute_ok h
  generalize fileIds.filterMap (readable files bucket) = contents at *
  have hsums : (∀ d ∈ digits, r.total.lookup d = some (total (get · d) r.byFile)) ↔
      ∀ d ∈ digits, contents.Pairwise fun p q => p.1 = q.1 → count d p.2 = 0 := by
    refine forall₂_congr fun d hd => ?_
    rw [← total_tables_iff hd, lookup_of_mem (hfilled d hd).1, htotal d hd, hsum d,
      Option.some.injEq, eq_comm]
  constructor
  · intro hc
    have hcount : ∀ p ∈ contents, ∀ q ∈ contents, p.1 = q.1 → ∀ d ∈ digits,
        count d p.2 = count d q.2 := by
      intro p hp q hq hkey d hd
      obtain ⟨t, ht, hpt⟩ := hc.represented p hp
      obtain ⟨u, hu, hqu⟩ := hc.represented q hq
      rw [hkey, hu] at ht
      cases ht
      exact Option.some.inj ((hpt d hd).symm.trans (hqu d hd))
    refine List.pairwise_iff_getElem.mpr fun i j hi hj hij hkey d hd => ?_
    have hzero := List.pairwise_iff_getElem.mp (hsums.mp hc.sums d hd) i j hi hj hij hkey
    refine ⟨hzero, ?_⟩
    rw [← hcount _ (List.getElem_mem hi) _ (List.getElem_mem hj) hkey d hd, hzero]
  · intro hs
    refine ⟨hsums.mpr fun d hd => hs.imp fun h hkey => (h hkey d hd).1, fun p hp => ?_⟩
    obtain ⟨v, hv, hmem⟩ := lookup_ofList (contents.map fun p => (p.1, digitTable p.2))
      (List.mem_map_of_mem hp)
    obtain ⟨q, hq, hqv⟩ := List.mem_map.mp hmem
    obtain ⟨hkey, rfl⟩ := Prod.mk.inj hqv
    have hlook := hbyFile p.1
    rw [tables, hv, Option.map_some, Option.map_eq_some_iff] at hlook
    obtain ⟨t, ht, hget⟩ := hlook
    refine ⟨t, ht, fun d hd => ?_⟩
    rw [lookup_of_mem ((hfilled d hd).2 _ t ht), hget, get_digitTable hd]
    -- the last content of the name is that of `p`, or both have no digit
    have : Std.Symm fun p q : String × String => p.1 = q.1 →
        ∀ d ∈ digits, count d p.2 = 0 ∧ count d q.2 = 0 :=
      ⟨fun _ _ h e d hd => (h e.symm d hd).symm⟩
    by_cases e : q = p
    · rw [e]
    · obtain ⟨h1, h2⟩ := List.Pairwise.forall hs hq hp e hkey d hd
      rw [h1, h2]

/-- Two files of different tasks with different keys and one name. -/
def twoFiles : FileTable where
  rows := [⟨1, "a.txt", 2, some (hexdigest 0), some "k1", .uploaded, 0, none⟩,
    ⟨2, "a.txt", 1, some (hexdigest 0), some "k2", .uploaded, 0, none⟩]
  nodup := by decide

/-- The contents `12` and `3`. -/
def twoContents (key : String) : Option Bytes :=
  if key = "k1" then some [49, 50] else if key = "k2" then some [51] else none

/-- Each of the two files alone has consistent tables. -/
theorem consistent_alone :
    ∃ r, execute twoFiles twoContents [1] = .ok r ∧ Consistent [("a.txt", "12")] r := by
  have hok : (execute twoFiles twoContents [1]).isOk = true := by decide +kernel
  have hcontents : [1].filterMap (readable twoFiles twoContents) = [("a.txt", "12")] := by
    decide +kernel
  cases hr : execute twoFiles twoContents [1] with
  | error e => rw [hr] at hok; cases hok
  | ok r =>
    have h := consistent_iff twoFiles twoContents [1] r hr
    rw [hcontents] at h
    exact ⟨r, rfl, h.mpr (List.pairwise_singleton _ _)⟩

/-- Together the digits of the first are in the overall table only. -/
theorem overwritten_table : ∃ r, execute twoFiles twoContents [1, 2] = .ok r ∧
    r.total.lookup '1' = some 1 ∧ total (get · '1') r.byFile = 0 ∧
    ¬ Consistent ([1, 2].filterMap (readable twoFiles twoContents)) r := by
  have h : (execute twoFiles twoContents [1, 2]).toOption.map (fun r =>
      (r.total.lookup '1', total (get · '1') r.byFile)) = some (some 1, 0) := by decide +kernel
  cases hr : execute twoFiles twoContents [1, 2] with
  | error e => rw [hr] at h; cases h
  | ok r =>
    rw [hr] at h
    obtain ⟨htotal, hsum⟩ := Prod.mk.inj (Option.some.inj h)
    refine ⟨r, rfl, htotal, hsum, fun hc => ?_⟩
    have := hc.sums '1' (by decide)
    rw [htotal, hsum] at this
    cases this

end CalculateStats

end FileExtractor
