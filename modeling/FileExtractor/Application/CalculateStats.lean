import FileExtractor.Lib.Dict
import FileExtractor.Infrastructure.Database

/-!
# `CalculateStatsHandler`

`application/handlers/calculate_stats.py`: the digits of the contents of a list of files, in total
and by file name, and the `download` of `S3Storage`. The keys of the dictionaries are the digits
as characters.
-/

namespace FileExtractor

open Dict

/-- `S3Storage.download`: `None` if there is no object or it is no UTF-8 text. -/
def download (bucket : String → Option Bytes) (key : String) : Option String :=
  (bucket key).bind fun bytes => String.fromUTF8? ⟨bytes.toArray⟩

structure CalculateStatsResult where
  total : Dict Char Nat
  byFile : Dict String (Dict Char Nat)

namespace CalculateStats

/-- A file that `execute` goes through: its id, its name and its storage key. -/
abbrev Listed := FileId × String × String

/-- `if file and file.hash and file.storage_key`. -/
def entry (file : File) : Option Listed := do
  let _ ← file.hash
  let key ← file.storageKey
  return (file.id, file.filename, key)

/-- One turn of the first loop. -/
def list (files : FileTable) (listed : List Listed) (fileId : FileId) :
    Except Exn (List Listed) := do
  let file ← files.getById fileId
  return listed ++ (file.bind entry).toList

/-- One turn of the loop over the characters of a content. -/
def countChar (filename : String) (r : CalculateStatsResult) (char : Char) :
    CalculateStatsResult :=
  if '0' ≤ char ∧ char ≤ '9' then
    { total := increment r.total char
      byFile := r.byFile.insert filename
        (increment ((r.byFile.lookup filename).getD ∅) char) }
  else r

/-- One turn of the loop over the files. -/
def countFile (bucket : String → Option Bytes) (r : CalculateStatsResult) :
    Listed → CalculateStatsResult
  | (_, filename, key) =>
    if key = "" then r
    else
      match download bucket key with
      | none => r
      | some content =>
        if content = "" then r
        else
          content.toList.foldl (countChar filename)
            { r with byFile := r.byFile.insert filename ∅ }

/-- `str(i)` for `i` in `range(10)`. -/
def digits : List Char := ['0', '1', '2', '3', '4', '5', '6', '7', '8', '9']

/-- The loop over `by_file` for the digit `d`. -/
def fillByFile (d : Char) (byFile : Dict String (Dict Char Nat)) : Dict String (Dict Char Nat) :=
  modifyAll (fun counts => setDefault counts d 0) byFile.keys byFile

/-- One turn of the last loop. -/
def fill (r : CalculateStatsResult) (d : Char) : CalculateStatsResult where
  total := setDefault r.total d 0
  byFile := fillByFile d r.byFile

/-- `execute(query)`. -/
def execute (files : FileTable) (bucket : String → Option Bytes) (fileIds : List FileId) :
    Except Exn CalculateStatsResult := do
  let listed ← fileIds.foldlM (list files) []
  return digits.foldl fill (listed.foldl (countFile bucket) ⟨∅, ∅⟩)

end CalculateStats

end FileExtractor
