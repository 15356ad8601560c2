import FileExtractor.Domain.File

/-!
# Extraction of an archive

`infrastructure/processors/zip_processor.py`. An archive is the list of its entries in archive
order. The entries are listed as objects (`infolist`), but `archive.read(info.filename)` looks
the data up by name, and the last entry with a name wins. How `zipfile.ZipFile` reads the bytes of
an archive is a parameter (`zipFile`).
-/

namespace FileExtractor

/-- An entry of an archive: its name and its data, of length `file_size`. -/
structure ZipInfo where
  filename : String
  data : Bytes
  deriving DecidableEq

abbrev Archive := List ZipInfo

/-- `info.is_dir()`: the name ends with a slash. -/
def ZipInfo.isDir (info : ZipInfo) : Bool := info.filename.toList.getLast? = some '/'

/-- The names of directories. -/
def isDirectory (filename : String) : Bool := filename.toList.getLast? = some '/'

theorem ZipInfo.isDir_eq (info : ZipInfo) : info.isDir = isDirectory info.filename := rfl

/-- `archive.read(name)`. -/
def Archive.read (archive : Archive) (name : String) : Bytes :=
  ((archive.reverse.find? fun info => info.filename = name).map ZipInfo.data).getD []

structure ExtractedFile where
  filename : String
  content : Bytes
  size : Nat
  deriving DecidableEq

/-- The files that `extract_stream` yields, in order. -/
def extractStream (archive : Archive) : List ExtractedFile :=
  (archive.filter fun info => !info.isDir).map fun info =>
    { filename := info.filename
      content := Archive.read archive info.filename
      size := info.data.length }

/-- The names that are extracted. -/
theorem mem_extractStream {archive : Archive} {n : String} :
    n ∈ (extractStream archive).map ExtractedFile.filename ↔
      n ∈ archive.map ZipInfo.filename ∧ isDirectory n = false := by
  simp only [extractStream, List.map_map, List.mem_map, List.mem_filter, Function.comp_apply,
    ZipInfo.isDir_eq, Bool.not_eq_true']
  constructor
  · rintro ⟨info, ⟨hm, hd⟩, rfl⟩
    exact ⟨⟨info, hm, rfl⟩, hd⟩
  · rintro ⟨⟨info, hm, rfl⟩, hd⟩
    exact ⟨info, ⟨hm, hd⟩, rfl⟩

/-- `extract_stream(zip_stream)`: the chunks are written to one buffer, which is read as an
archive. -/
def extractChunks (zipFile : Bytes → Except Exn Archive) (chunks : List Bytes) :
    Except Exn (List ExtractedFile) :=
  (zipFile (chunks.foldl (fun buffer chunk => buffer ++ chunk) [])).map extractStream

/-- The data that is read for an entry is that of an entry with its name. -/
theorem Archive.exists_read {archive : Archive} {info : ZipInfo} (h : info ∈ archive) :
    ∃ i ∈ archive, i.filename = info.filename ∧ Archive.read archive info.filename = i.data := by
  cases hf : archive.reverse.find? fun i => i.filename = info.filename with
  | none =>
    have := List.find?_eq_none.mp hf info (List.mem_reverse.mpr h)
    simp at this
  | some i =>
    have hname : i.filename = info.filename := by simpa using List.find?_some hf
    exact ⟨i, List.mem_reverse.mp (List.mem_of_find?_eq_some hf), hname, by
      simp [Archive.read, hf]⟩

/-- The buffer holds the bytes of the chunks in order. -/
theorem extractChunks_eq (zipFile : Bytes → Except Exn Archive) (chunks : List Bytes) :
    extractChunks zipFile chunks = (zipFile chunks.flatten).map extractStream := by
  have hbuffer : ∀ (chunks : List Bytes) (buffer : Bytes),
      chunks.foldl (fun buffer chunk => buffer ++ chunk) buffer = buffer ++ chunks.flatten := by
    intro chunks
    induction chunks with
    | nil => intro buffer; simp
    | cons chunk chunks ih => intro buffer; simp [ih]
  rw [extractChunks, hbuffer, List.nil_append]

end FileExtractor
