import FileExtractor.Infrastructure.Zip

/-!
# The data of an extracted file

The size of an extracted file is that of the entry that is listed, its content is looked up by the
name of the entry. They are of one entry exactly when the entries with the same name have the same
data (`Archive.Unambiguous`).
-/

namespace FileExtractor

/-- One file for each entry that is no directory, with the data of the entry. -/
def ownFiles (archive : Archive) : List ExtractedFile :=
  (archive.filter fun info => !info.isDir).map fun info =>
    { filename := info.filename
      content := info.data
      size := info.data.length }

/-- Two entries with one name have the same data; directories are not read. -/
def Archive.Unambiguous (archive : Archive) : Prop :=
  ∀ i ∈ archive, ∀ j ∈ archive, i.isDir = false → i.filename = j.filename → i.data = j.data

variable {archive : Archive}

theorem extractStream_own : extractStream archive = ownFiles archive ↔
    ∀ info ∈ archive, info.isDir = false → Archive.read archive info.filename = info.data := by
  simp only [extractStream, ownFiles, List.map_inj_left, List.mem_filter, Bool.not_eq_eq_eq_not,
    Bool.not_true, ExtractedFile.mk.injEq, true_and, and_true, and_imp]

theorem extractStream_own_iff : extractStream archive = ownFiles archive ↔
    archive.Unambiguous := by
  rw [extractStream_own]
  constructor
  · intro h i hi j hj hd hname
    have hd' : j.isDir = false := by rw [← hd, ZipInfo.isDir, ZipInfo.isDir, hname]
    have hread := h i hi hd
    rw [hname] at hread
    exact hread.symm.trans (h j hj hd')
  · intro h info hinfo hd
    obtain ⟨i, hi, hname, hread⟩ := Archive.exists_read hinfo
    exact hread.trans (h info hinfo i hi hd hname.symm).symm

/-- **The files of an archive** have the data of their own entries, in every chunking of its bytes,
exactly when no name stands for two different data. -/
theorem extract_own_iff (zipFile : Bytes → Except Exn Archive) (data : Bytes) (archive : Archive)
    (hz : zipFile data = .ok archive) :
    (∀ chunks : List Bytes, chunks.flatten = data →
      extractChunks zipFile chunks = .ok (ownFiles archive)) ↔ archive.Unambiguous := by
  have hchunks : ∀ chunks : List Bytes, chunks.flatten = data →
      (extractChunks zipFile chunks = .ok (ownFiles archive) ↔ archive.Unambiguous) := by
    intro chunks hc
    rw [extractChunks_eq, hc, hz, Except.map, Except.ok.injEq, extractStream_own_iff]
  constructor
  · intro h
    exact (hchunks [data] (by simp)).mp (h [data] (by simp))
  · intro h chunks hc
    exact (hchunks chunks hc).mpr h

/-- Two files and a directory between them. -/
theorem extract_own_two :
    let archive : Archive := [⟨"a", [1]⟩, ⟨"d/", []⟩, ⟨"b", [2, 3]⟩]
    (∀ chunks : List Bytes, chunks.flatten = [0] →
      extractChunks (fun _ => .ok archive) chunks = .ok (ownFiles archive)) :=
  (extract_own_iff (fun _ => .ok _) [0] _ rfl).mpr (by unfold Archive.Unambiguous; decide)

/-- The first of two entries with one name gets the data of the second and its own size. -/
theorem repeated_name_differs :
    let archive : Archive := [⟨"a", [1]⟩, ⟨"a", [2, 3]⟩]
    extractChunks (fun _ => .ok archive) [[0]] = .ok [⟨"a", [2, 3], 1⟩, ⟨"a", [2, 3], 2⟩] ∧
      ∃ chunks : List Bytes, chunks.flatten = [0] ∧
        extractChunks (fun _ => .ok archive) chunks ≠ .ok (ownFiles archive) := by
  refine ⟨by decide, [[0]], rfl, fun h => ?_⟩
  have := congrArg Except.toOption h
  revert this
  decide

end FileExtractor
