import FileExtractor.Lib.Objects
import FileExtractor.Lib.Uuid
import FileExtractor.Domain.Errors
import Mathlib.Algebra.Group.Nat.Defs

/-!
# The entity `File` and its value objects

`domain/entities/file.py` and `domain/value_objects`. A `FileHash` is a string that
`SHA256_HEX_PATTERN` accepts, so the type carries what its constructor checks. SHA-256 itself is
a parameter (`sha256`); `hexdigest` writes its 256 bits as 64 hex digits, which the pattern
accepts (`hexdigest_matches`).
-/

namespace FileExtractor

abbrev Bytes := List UInt8

/-- A UUID, read as a number. -/
abbrev FileId := Nat

/-! ## Hashes -/

/-- `[a-f0-9]`. -/
def isHexChar (c : Char) : Bool :=
  ('a' ≤ c && c ≤ 'f') || ('0' ≤ c && c ≤ '9')

/-- `re.compile(r"^[a-f0-9]{64}$").match`: `$` also matches before a newline at the end. -/
def sha256HexPattern (cs : List Char) : Bool :=
  (cs.take 64).length = 64 && (cs.take 64).all isHexChar &&
    (cs.drop 64 = [] || cs.drop 64 = ['\n'])

/-- A string that the pattern accepts. -/
structure FileHash where
  value : String
  accepted : sha256HexPattern value.toList = true
  deriving DecidableEq

/-- A SHA-256 digest. -/
abbrev Digest := BitVec 256

/-- The hex digit of `n < 16`. -/
def hexChar (n : Nat) : Char :=
  if n < 10 then Char.ofNat ('0'.toNat + n) else Char.ofNat ('a'.toNat + (n - 10))

/-- `hexdigest()`: 64 digits, the most significant first. -/
def hexdigest (d : Digest) : String :=
  String.ofList ((List.range 64).map fun i => hexChar (d.toNat / 16 ^ (63 - i) % 16))

theorem isHexChar_hexChar : ∀ n < 16, isHexChar (hexChar n) = true := by decide

theorem hexdigest_matches (d : Digest) : sha256HexPattern (hexdigest d).toList = true := by
  have hl : (hexdigest d).toList.length = 64 := by simp [hexdigest]
  have htake : (hexdigest d).toList.take 64 = (hexdigest d).toList :=
    List.take_of_length_le (Nat.le_of_eq hl)
  have hdrop : (hexdigest d).toList.drop 64 = [] := List.drop_of_length_le (Nat.le_of_eq hl)
  have hall : (hexdigest d).toList.all isHexChar = true := by
    simp only [hexdigest, String.toList_ofList, List.all_map, List.all_eq_true, Function.comp]
    exact fun i _ => isHexChar_hexChar _ (Nat.mod_lt _ (by decide))
  simp only [sha256HexPattern, htake, hdrop, hl, hall]
  decide

/-- `FileHash.compute(data)`. -/
def FileHash.compute (sha256 : Bytes → Digest) (data : Bytes) : FileHash :=
  ⟨hexdigest (sha256 data), hexdigest_matches _⟩

/-- A character in the `repr` of a string. Beyond Latin-1 all characters are taken as printable. -/
def reprChar (quote c : Char) : List Char :=
  if c = '\\' || c = quote then ['\\', c]
  else if c = '\t' then ['\\', 't']
  else if c = '\n' then ['\\', 'n']
  else if c = '\r' then ['\\', 'r']
  else if c.toNat < 0x20 || (0x7f ≤ c.toNat && c.toNat ≤ 0xa0) || c.toNat = 0xad then
    ['\\', 'x', Nat.digitChar (c.toNat / 16), Nat.digitChar (c.toNat % 16)]
  else [c]

/-- `repr(s)`. -/
def reprStr (s : String) : String :=
  let quote := if s.toList.contains '\x27' && !s.toList.contains '\x22' then '\x22' else '\x27'
  String.ofList (quote :: s.toList.flatMap (reprChar quote) ++ [quote])

example : reprStr "it's\n\x01" = "\"it's\\n\\x01\"" := by decide

/-- The constructor: `InvalidFileHashError` for a string that the pattern rejects. -/
def FileHash.ofString (value : String) : Except Exn FileHash :=
  if h : sha256HexPattern value.toList = true then .ok ⟨value, h⟩
  else .error (.other
    ("Invalid file hash: " ++ reprStr value ++ ". Must be a 64-character SHA256 hex string"))

/-! ## Files -/

structure File where
  id : FileId
  filename : String
  size : Nat
  hash : Option FileHash
  storageKey : Option String
  status : FileStatus
  createdAt : Time
  uploadedAt : Option Time
  deriving DecidableEq

namespace File

/-- The constructor with its defaults; the hash may be missing. -/
def init (fileId : FileId) (filename : String) (size : Nat) (hash : Option FileHash)
    (now : Time) : File where
  id := fileId
  filename := filename
  size := size
  hash := hash
  storageKey := none
  status := .created
  createdAt := now
  uploadedAt := none

/-- The constructor as the handler calls it. -/
def new (fileId : FileId) (filename : String) (size : Nat) (hash : FileHash) (now : Time) :
    File where
  id := fileId
  filename := filename
  size := size
  hash := some hash
  storageKey := none
  status := .created
  createdAt := now
  uploadedAt := none

def startUpload (f : File) : Called File :=
  if f.status = .uploaded then .raised (.fileAlreadyUploaded (Uuid.text f.id)) f
  else if f.status ≠ .created then
    .raised (.invalidStatusTransition "File" f.status.name FileStatus.uploading.name) f
  else .returned { f with status := .uploading }

def completeUpload (storageKey : String) (fileHash : FileHash) (now : Time) (f : File) :
    Called File :=
  if f.status ≠ .uploading then
    .raised (.invalidStatusTransition "File" f.status.name FileStatus.uploaded.name) f
  else
    .returned { f with
      storageKey := some storageKey
      hash := some fileHash
      status := .uploaded
      uploadedAt := some now }

def failUpload (f : File) : Called File :=
  if f.status = .created ∨ f.status = .uploading then .returned { f with status := .failed }
  else .raised (.invalidStatusTransition "File" f.status.name FileStatus.failed.name) f

/-- The setter of `hash`: no guard, unlike the methods. -/
def setHash (value : FileHash) (f : File) : File :=
  { f with hash := some value }

/-- The calls that change a file. -/
inductive Method where
  | startUpload
  | completeUpload (storageKey : String) (fileHash : FileHash) (now : Time)
  | failUpload
  | setHash (value : FileHash)

def call (f : File) : Method → Called File
  | .startUpload => f.startUpload
  | .completeUpload storageKey fileHash now => f.completeUpload storageKey fileHash now
  | .failUpload => f.failUpload
  | .setHash value => .returned (f.setHash value)

def methods : Objects.Methods File Method where
  after f m := (f.call m).object
  raises f m := (f.call m).isRaised

end File

end FileExtractor
