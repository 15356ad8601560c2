import FileExtractor.Properties.DigitCounts
import FileExtractor.Properties.Draining
import FileExtractor.Properties.References

/-!
# From the API to the counts

The calculation reads ids, rows and objects and knows nothing of the API. But after a download that
has recovered from crashes and blocks, the row of a stored file leads to the content that the API
has for its name (`readable_recovered`). So the counts of any ids are those of the contents of the
API (`Counts`), and each name of `U` has one file to be counted by.
-/

namespace FileExtractor

open Rel Lts World Dict CalculateStats

/-- What `download` makes of the content of a name; no text counts as an empty one. -/
def textOf (content : String → Bytes) (n : String) : String :=
  (String.fromUTF8? ⟨(content n).toArray⟩).getD ""

/-- The overall table has the digits of the texts of all names, and each name with a text the table
of its own text. No table has another key. -/
structure Counts (text : String → String) (names : List String) (r : CalculateStatsResult) :
    Prop where
  total : ∀ d, r.total.lookup d =
    if d ∈ digits then some ((names.map fun n => count d (text n)).sum) else none
  names : ∀ n, n ∈ r.byFile ↔ n ∈ names ∧ text n ≠ ""
  byFile : ∀ n t, r.byFile.lookup n = some t → ∀ d, t.lookup d =
    if d ∈ digits then some (count d (text n)) else none

/-- The names of the files with these ids; an id without a file has none. -/
def FileTable.names (files : FileTable) (fileIds : List FileId) : List String :=
  fileIds.filterMap fun id => (files.get? id).map FileModel.filename

/-! ## The calculation -/

variable {files : FileTable} {bucket : String → Option Bytes} {text : String → String}
  {fileIds : List FileId}

/-- Every row is read as the text of its name. -/
def ReadsAs (files : FileTable) (bucket : String → Option Bytes) (text : String → String) : Prop :=
  ∀ m ∈ files, readable files bucket m.id =
    if text m.filename = "" then none else some (m.filename, text m.filename)

theorem ReadsAs.contents (h : ReadsAs files bucket text) (fileIds : List FileId) :
    fileIds.filterMap (readable files bucket) =
      ((files.names fileIds).filter (text · ≠ "")).map fun n => (n, text n) := by
  induction fileIds with
  | nil => rfl
  | cons id fileIds ih =>
    rw [List.filterMap_cons, ih, FileTable.names, FileTable.names, List.filterMap_cons]
    cases hm : files.get? id with
    | none =>
      have hnone : readable files bucket id = none := by rw [readable, hm]; rfl
      rw [hnone]; rfl
    | some m =>
      obtain ⟨hmem, rfl⟩ := Table.get?_eq_some.mp hm
      rw [h m hmem]
      by_cases ht : text m.filename = ""
      · simp [ht]
      · simp [ht]

/-- What is left out has no digit. -/
theorem sum_filter_text (d : Char) (names : List String) :
    (((names.filter (text · ≠ "")).map fun n => (n, text n)).map fun p => count d p.2).sum =
      (names.map fun n => count d (text n)).sum := by
  induction names with
  | nil => rfl
  | cons n names ih =>
    by_cases ht : text n = ""
    · simpa [ht, count] using ih
    · simpa [ht] using ih

theorem execute_counts (h : ReadsAs files bucket text) {r : CalculateStatsResult}
    (hr : execute files bucket fileIds = .ok r) : Counts text (files.names fileIds) r := by
  obtain ⟨hfilled, htotal, -, hbyFile⟩ := execute_ok hr
  have honly := execute_onlyDigits hr
  rw [h.contents] at htotal hbyFile
  have htable : ∀ n, (r.byFile.lookup n).map get =
      if n ∈ files.names fileIds ∧ text n ≠ "" then some (get (digitTable (text n))) else none := by
    intro n
    rw [hbyFile, tables, List.map_map]
    refine (congrArg _ (lookup_ofList_map (fun n => digitTable (text n)) _ n)).trans ?_
    simp only [List.mem_filter, decide_eq_true_eq]
    split <;> rfl
  refine ⟨fun d => ?_, fun n => ?_, fun n t ht d => ?_⟩
  · split
    · next hd => rw [lookup_of_mem (hfilled d hd).1, htotal d hd, weights, sum_filter_text]
    · next hd => exact AList.lookup_eq_none.mpr fun hk => hd (honly.total d hk)
  · rw [← AList.lookup_isSome, ← Option.isSome_map (f := get), htable]
    split
    · next hn => exact iff_of_true rfl hn
    · next hn => exact iff_of_false Bool.false_ne_true hn
  · have hget := htable n
    rw [ht, Option.map_some] at hget
    split at hget
    · split
      · next hd =>
        rw [lookup_of_mem ((hfilled d hd).2 n t ht), Option.some.inj hget, get_digitTable hd]
      · next hd => exact AList.lookup_eq_none.mpr fun hk => hd (honly.byFile n t ht d hk)
    · cases hget

/-! ## The store after a recovery -/

/-- Each row has a hash. -/
theorem rows_hashed (sha256 : Bytes → Digest) :
    (system sha256).Invariant System.free fun w =>
      ∀ m ∈ w.store.files, ∃ hash, m.hash = some hash ∧ hash ≠ "" := by
  refine System.Reach.induct ?_ fun w l w' hr hw _ hst m hm => ?_
  · rintro w ⟨now, bucket, rfl⟩ m hm
    exact absurd hm (Table.not_mem_empty m)
  · cases (Step.of_step hst).filesStep with
    | kept hf hd ho => rw [hf] at hm; exact hw m hm
    | added pid reply k f file fileHash rest hl hp hk ha =>
      obtain ⟨files, downloaded, hf, -, hs'⟩ := Store.apply_addFile ha
      rw [hs'] at hm
      rcases (Table.mem_insert hf).mp hm with hm | rfl
      · exact hw m hm
      · obtain ⟨now, fileId, extracted, rfl, -⟩ :=
          records_uploaded sha256 w hr pid k f file fileHash rest hp hk
        exact ⟨_, rfl, FileHash.value_ne_empty _⟩
    | deleted pid reply k f e file todo hl hp hk ha =>
      simp only [Store.apply, Option.some.injEq] at ha
      rw [← ha] at hm
      exact hw m (Table.mem_delete.mp hm).1

variable {sha256 : Bytes → Digest} {U : Set String} {content : String → Bytes} {taskId : TaskId}
  {w : World}

/-- Each file is of the one task, and its name is recorded. -/
theorem owner_recovered (hr : (system sha256).Reach (Recovers U content taskId) w) {f : FileModel}
    (hf : f ∈ w.store.files) :
    w.store.owner f.id = some taskId ∧ w.store.Recorded taskId f.filename := by
  obtain ⟨d, hd, hlink, hmatch⟩ := (files_invariant sha256 w hr.toFree).paired.linked hf
  have hrec : w.store.Recorded d.taskId d.fileName := by
    have hget : w.store.downloaded.get? (d.taskId, d.fileName) = some d :=
      Table.get?_eq_some.mpr ⟨hd, rfl⟩
    exact Option.isSome_iff_exists.mpr ⟨d, hget⟩
  obtain ⟨row, hrow⟩ := recorded_stored sha256 w hr.toFree d.taskId d.fileName hrec
  have htask : d.taskId = taskId := (recovery_invariant sha256 U content taskId w hr).only hrow
  obtain ⟨id, howner, hkey⟩ := Option.map_eq_some_iff.mp hlink
  obtain rfl : id = d.taskId := congrArg Prod.fst hkey
  exact ⟨htask ▸ howner, by rw [hmatch.filename, ← htask]; exact hrec⟩

theorem readable_recovered (hr : (system sha256).Reach (Recovers U content taskId) w)
    {m : DownloadTaskModel} (hm : w.store.tasks.get? taskId = some m) (hs : m.status = .success) :
    ReadsAs w.store.files w.store.bucket (textOf content) := by
  intro f hf
  obtain ⟨hash, hhash, hne⟩ := rows_hashed sha256 w hr.toFree f hf
  obtain ⟨d, -, -, hmatch⟩ := (files_invariant sha256 w hr.toFree).paired.linked hf
  have hobject := object_recovered hr hm hs (owner_recovered hr hf).2
  have hget := Table.get?_eq_some.mpr ⟨hf, rfl⟩
  have hkey : Handler.storageKey f.filename ≠ "" := by
    intro h
    have := congrArg (fun s => s.toList.length) h
    simp [Handler.storageKey] at this
  simp only [readable, hget, hhash, hmatch.storageKey, download, hobject, textOf,
    Option.bind_eq_bind, Option.bind_some]
  rcases Option.eq_none_or_eq_some (String.fromUTF8? ⟨(content f.filename).toArray⟩) with
    hc | ⟨text, hc⟩
  · simp [hc]
  · by_cases ht : text = "" <;> simp [hc, ht, hne, hkey]

/-- **From the API to the counts.** In every run of `Recovers`, when the task is stored as
`SUCCESS`, each name of `U` has one file, and whatever ids are calculated, the counts are those of
the contents that the API has for the names of their files. -/
theorem recovered_counts (sha256 : Bytes → Digest) (U : Set String) (content : String → Bytes)
    (taskId : TaskId) : (system sha256).Invariant (Recovers U content taskId) fun w =>
      ∀ m, w.store.tasks.get? taskId = some m → m.status = .success →
        (∀ n ∈ U, ∃! f, f ∈ w.store.files ∧ f.filename = n) ∧
        ∀ fileIds, ∃ r, execute w.store.files w.store.bucket fileIds = .ok r ∧
          Counts (textOf content) (w.store.files.names fileIds) r := by
  intro w hr m hm hs
  refine ⟨fun n hn => ?_, fun fileIds => ?_⟩
  · have hpair := (files_invariant sha256 w hr.toFree).paired
    have hmarks := marks_invariant sha256 w (hr.mono fun _ _ h => h.marksFollow)
    have hmarked := (recovery_invariant sha256 U content taskId w hr).succeeded hm hs n hn
    obtain ⟨d, hd⟩ := Option.isSome_iff_exists.mp (hmarks.marked hmarked)
    obtain ⟨hmem, hkey⟩ := Table.get?_eq_some.mp hd
    obtain ⟨f, hf, hlink⟩ := hpair.covered hmem
    have hname : f.filename = n :=
      (hpair.partner hf hmem hlink).filename.trans (congrArg Prod.snd hkey)
    refine ⟨f, ⟨hf, hname⟩, fun f' ⟨hf', hname'⟩ => hpair.injective hf' hf ?_⟩
    simp only [Store.recordKey, (owner_recovered hr hf).1, (owner_recovered hr hf').1, hname,
      hname']
  · obtain ⟨r, he⟩ := execute_returns (files_written sha256 w hr.toFree) w.store.bucket fileIds
    exact ⟨r, he, execute_counts (readable_recovered hr hm hs) he⟩

/-- A worker dies after its claim, and the next one stores the one name under the id 7. -/
def secondRun : List Label :=
  let m : Message := ⟨"t", none⟩
  let taskOfA := ((DownloadTask.new "t" "").toModel.claimed "a" 0).toDomain
  let taskOfB := (taskOfA.toModel.releasedStuck.claimed "b" 301).toDomain
  [.start 0 "t" none .done, .send 0, .deliver 1 m "a", .claim 1 .done, .crash 1, .tick 301,
    .reclaimStuck 3 ["t"] .done, .send 3, .deliver 2 m "b", .claim 2 .done,
    .call 2 (.done (.task (some taskOfB))), .call 2 (.done (.names ["x"])), .call 2 (.done .done),
    .call 2 (.done (.archive [⟨"x", [1]⟩])), .call 2 (.done .next), .call 2 (.done .done),
    .call 2 (.done (.found false)), .call 2 (.done (.stored 7)), .call 2 (.done .done),
    .call 2 (.done .next), .call 2 (.done .done), .call 2 (.done .done),
    .call 2 (.done (.names [])), .call 2 (.done .done)]

theorem second_run_counted : ∃ w, (system fun _ => 0).Reach (Recovers {"x"} (fun _ => [1]) "t") w ∧
    ∃ r, execute w.store.files w.store.bucket [7] = .ok r ∧ "x" ∈ r.byFile ∧
      r.total.lookup '1' = some 0 := by
  have hrun : ((system fun _ => 0).runIf recoversCheck (fresh 0 fun _ => none) secondRun).any
      (fun w => (w.store.tasks.get? "t").any (fun m => m.status = .success) &&
        decide (w.store.files.names [7] = ["x"])) = true := by decide +kernel
  have hinit : (system fun _ => 0).Reach (Recovers {"x"} (fun _ => [1]) "t")
      (fresh 0 fun _ => none) := .init ⟨0, fun _ => none, rfl⟩
  obtain ⟨w, hr, hcheck⟩ := hinit.runIf (I := World.Within 4)
    (fun w l w' hw hc hst => hw.step (Step.of_step hst) (by
      simp only [recoversCheck, environmentCheck, Bool.and_eq_true] at hc; exact hc.1.1))
    (fun w l hw hc => recovers_of_check hw hc) .fresh hrun
  obtain ⟨hsuccess, hnames⟩ := (Bool.and_eq_true ..).mp hcheck
  obtain ⟨m, hm, hs⟩ := (Option.any_eq_true ..).mp hsuccess
  obtain ⟨r, he, hcounts⟩ :=
    (recovered_counts (fun _ => 0) {"x"} (fun _ => [1]) "t" w hr m hm (of_decide_eq_true hs)).2 [7]
  rw [of_decide_eq_true hnames] at hcounts
  refine ⟨w, hr, r, he, (hcounts.names "x").mpr ⟨List.mem_singleton_self _, by decide +kernel⟩, ?_⟩
  rw [hcounts.total, if_pos (by decide)]
  decide +kernel

end FileExtractor
