import FileExtractor.Infrastructure.Database

/-!
# What `FileHash` accepts

The strings of 64 hex digits, and those with a newline behind them: `$` matches before a newline at
the end (`sha256HexPattern_iff`). The row of a file is read back with its hash in both cases.
-/

namespace FileExtractor

/-- The characters of a SHA-256 digest in hex. -/
def Sha256Hex (cs : List Char) : Prop := cs.length = 64 ∧ cs.all isHexChar = true

instance (cs : List Char) : Decidable (Sha256Hex cs) := inferInstanceAs (Decidable (_ ∧ _))

theorem isHexChar_newline : isHexChar '\n' = false := by decide

theorem sha256HexPattern_iff (cs : List Char) : sha256HexPattern cs = true ↔
    Sha256Hex cs ∨ ∃ ds, Sha256Hex ds ∧ cs = ds ++ ['\n'] := by
  simp only [sha256HexPattern, Sha256Hex, Bool.and_eq_true, Bool.or_eq_true, decide_eq_true_eq]
  constructor
  · rintro ⟨⟨hlen, hall⟩, hend | hend⟩
    · have hcs : cs.take 64 = cs := by simpa [hend] using List.take_append_drop 64 cs
      rw [hcs] at hlen hall
      exact .inl ⟨hlen, hall⟩
    · exact .inr ⟨cs.take 64, ⟨hlen, hall⟩, by rw [← hend, List.take_append_drop]⟩
  · rintro (⟨hlen, hall⟩ | ⟨ds, ⟨hlen, hall⟩, rfl⟩)
    · rw [List.take_of_length_le (by omega), List.drop_of_length_le (by omega)]
      exact ⟨⟨hlen, hall⟩, .inl rfl⟩
    · rw [← hlen, List.take_left, List.drop_left]
      exact ⟨⟨rfl, hall⟩, .inr rfl⟩

/-- A string with a newline at its end is no digest. -/
theorem Sha256Hex.ne_append_newline {cs ds : List Char} (h : Sha256Hex cs) : cs ≠ ds ++ ['\n'] := by
  rintro rfl
  have := List.all_eq_true.mp h.2 '\n' (by simp)
  rw [isHexChar_newline] at this
  cases this

/-- `InvalidFileHashError(value)`. -/
def invalidFileHashError (value : String) : Exn :=
  .other ("Invalid file hash: " ++ reprStr value ++ ". Must be a 64-character SHA256 hex string")

theorem FileHash.ofString_of_match {s : String} (h : sha256HexPattern s.toList = true) :
    FileHash.ofString s = .ok ⟨s, h⟩ := dif_pos h

theorem FileHash.ofString_of_not_match {s : String} (h : ¬ sha256HexPattern s.toList = true) :
    FileHash.ofString s = .error (invalidFileHashError s) := dif_neg h

theorem FileHash.ofString_ok_iff (s : String) :
    (∃ hash, FileHash.ofString s = .ok hash) ↔ sha256HexPattern s.toList = true := by
  by_cases h : sha256HexPattern s.toList = true
  · exact ⟨fun _ => h, fun _ => ⟨_, FileHash.ofString_of_match h⟩⟩
  · rw [FileHash.ofString_of_not_match h]
    exact ⟨fun ⟨_, e⟩ => (by cases e), fun h' => absurd h' h⟩

/-- The constructor gives back the value of a hash that exists. -/
theorem FileHash.ofString_value (hash : FileHash) : FileHash.ofString hash.value = .ok hash :=
  FileHash.ofString_of_match hash.accepted

theorem FileHash.value_ne_empty (hash : FileHash) : hash.value ≠ "" := by
  intro h
  have := hash.accepted
  rw [h] at this
  revert this
  decide

/-- `_to_domain(_to_model(file))`: every column is read back, an empty storage key as none. -/
theorem File.toDomain_toModel (f : File) :
    f.toModel.toDomain = .ok { f with storageKey := f.storageKey.filter (· ≠ "") } := by
  unfold FileModel.toDomain File.toModel
  cases hf : f.hash with
  | none => rfl
  | some hash =>
    simp only [Option.map_some]
    split
    · next h => cases h
    · next h => exact absurd (Option.some.inj h) hash.value_ne_empty
    · next h =>
      cases h
      rw [FileHash.ofString_value]
      rfl

/-- At `s` the constructor accepts exactly the 64 hex digits, and what it accepts fits the column
and is read back from the row of a file. -/
structure FileHash.ExactAt (s : String) : Prop where
  accepts : (∃ hash, FileHash.ofString s = .ok hash) ↔ Sha256Hex s.toList
  value : ∀ hash, FileHash.ofString s = .ok hash → hash.value = s
  raises : ¬ Sha256Hex s.toList → FileHash.ofString s = .error (invalidFileHashError s)
  fits : ∀ hash, FileHash.ofString s = .ok hash → hash.value.length ≤ 64
  readBack : ∀ hash, FileHash.ofString s = .ok hash → ∀ file : File, file.hash = some hash →
    ∃ file', file.toModel.toDomain = .ok file' ∧ file'.hash = some hash

theorem FileHash.exactAt_of {s : String}
    (h : sha256HexPattern s.toList = true → Sha256Hex s.toList) : FileHash.ExactAt s where
  accepts := by
    rw [FileHash.ofString_ok_iff]
    exact ⟨h, fun hs => (sha256HexPattern_iff _).mpr (.inl hs)⟩
  value hash hok := by
    have hm := (FileHash.ofString_ok_iff s).mp ⟨hash, hok⟩
    rw [FileHash.ofString_of_match hm] at hok
    cases hok; rfl
  raises hs := FileHash.ofString_of_not_match fun hm => hs (h hm)
  fits hash hok := by
    have hm := (FileHash.ofString_ok_iff s).mp ⟨hash, hok⟩
    rw [FileHash.ofString_of_match hm] at hok
    cases hok
    exact Nat.le_of_eq ((String.length_toList).symm.trans (h hm).1)
  readBack hash _ file hfile := ⟨_, File.toDomain_toModel file, hfile⟩

/-- **Exactly the SHA-256 strings are accepted**, but for 64 hex digits before a newline. -/
theorem FileHash.exactAt_iff (s : String) :
    FileHash.ExactAt s ↔ ¬ ∃ ds, Sha256Hex ds ∧ s.toList = ds ++ ['\n'] := by
  constructor
  · rintro h ⟨ds, hds, hs⟩
    have hm : sha256HexPattern s.toList = true := (sha256HexPattern_iff _).mpr (.inr ⟨ds, hds, hs⟩)
    exact (h.accepts.mp ((FileHash.ofString_ok_iff s).mpr hm)).ne_append_newline hs
  · intro h
    refine FileHash.exactAt_of fun hm => ?_
    rcases (sha256HexPattern_iff _).mp hm with hs | hs
    · exact hs
    · exact absurd hs h

/-- 64 hex digits and a newline are accepted, and are too long for `String(64)`. -/
theorem FileHash.newline_accepted :
    let s := String.ofList (List.replicate 64 'a' ++ ['\n'])
    (∃ hash, FileHash.ofString s = .ok hash ∧ hash.value.length = 65) ∧
      ¬ FileHash.ExactAt s := by
  intro s
  have hs : s.toList = List.replicate 64 'a' ++ ['\n'] := by simp [s]
  have hm : sha256HexPattern s.toList = true := by rw [hs]; decide
  refine ⟨⟨_, FileHash.ofString_of_match hm, ?_⟩, fun h => ?_⟩
  · rw [← String.length_toList, hs]; rfl
  · have hsha := h.accepts.mp ⟨_, FileHash.ofString_of_match hm⟩
    exact hsha.ne_append_newline hs

end FileExtractor
