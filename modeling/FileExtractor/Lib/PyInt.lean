import Mathlib.Data.List.TakeWhile
import Mathlib.Data.Int.Notation

/-!
# `int` of a text

The Python constructor `int(text)` in base 10: spaces at both ends, a sign, and decimal digits of
any script with single underscores between them. A text of more than 4300 digits is refused, as
every other text is, with a `ValueError` (`none`).
-/

namespace PyInt

/-- The spaces that are stripped. `U+001C` to `U+001F`, which are spaces of Unicode, are none. -/
def isSpace (c : Char) : Bool :=
  let n := c.toNat
  (9 ≤ n && n ≤ 13) || n = 0x20 || n = 0x85 || n = 0xa0 || n = 0x1680 ||
    (0x2000 ≤ n && n ≤ 0x200a) || n = 0x2028 || n = 0x2029 || n = 0x202f || n = 0x205f || n = 0x3000

/-- The zeros of Unicode 15. The nine digits after each zero follow it. -/
def zeros : List Nat :=
  [0x30, 0x660, 0x6f0, 0x7c0, 0x966, 0x9e6, 0xa66, 0xae6, 0xb66, 0xbe6, 0xc66, 0xce6, 0xd66, 0xde6,
    0xe50, 0xed0, 0xf20, 0x1040, 0x1090, 0x17e0, 0x1810, 0x1946, 0x19d0, 0x1a80, 0x1a90, 0x1b50,
    0x1bb0, 0x1c40, 0x1c50, 0xa620, 0xa8d0, 0xa900, 0xa9d0, 0xa9f0, 0xaa50, 0xabf0, 0xff10, 0x104a0,
    0x10d30, 0x11066, 0x110f0, 0x11136, 0x111d0, 0x112f0, 0x11450, 0x114d0, 0x11650, 0x116c0,
    0x11730, 0x118e0, 0x11950, 0x11c50, 0x11d50, 0x11da0, 0x11f50, 0x16a60, 0x16ac0, 0x16b50,
    0x1d7ce, 0x1d7d8, 0x1d7e2, 0x1d7ec, 0x1d7f6, 0x1e140, 0x1e2f0, 0x1e4f0, 0x1e950, 0x1fbf0]

/-- The decimal value of a digit. -/
def digit? (c : Char) : Option Nat :=
  (zeros.find? fun z => z ≤ c.toNat && c.toNat < z + 10).map (c.toNat - ·)

def strip (cs : List Char) : List Char :=
  ((cs.dropWhile isSpace).reverse.dropWhile isSpace).reverse

/-- The sign, and what follows it. -/
def sign : List Char → Int × List Char
  | '+' :: cs => (1, cs)
  | '-' :: cs => (-1, cs)
  | cs => (1, cs)

/-- At least one digit, with single underscores between digits. -/
def digits : List Char → Option (List Nat)
  | [] => none
  | [c] => (digit? c).map ([·])
  | c :: '_' :: cs => (digit? c).bind fun d => (digits cs).map (d :: ·)
  | c :: c' :: cs => (digit? c).bind fun d => (digits (c' :: cs)).map (d :: ·)

/-- `sys.int_info.default_max_str_digits`. -/
def maxStrDigits : Nat := 4300

def ofDigits (ds : List Nat) : Nat := ds.foldl (fun n d => 10 * n + d) 0

/-- `int(text)`. -/
def ofText (text : String) : Option Int :=
  let (sg, cs) := sign (strip text.toList)
  (digits cs).bind fun ds => if ds.length ≤ maxStrDigits then some (sg * ofDigits ds) else none

example : ofText " -1_000 " = some (-1000) := by decide

/-! ## The characters of a number -/

/-- The characters of a text that is a number. -/
def isNumeric (c : Char) : Bool :=
  isSpace c || c = '+' || c = '-' || c = '_' || (digit? c).isSome

theorem mem_dropWhile_or {p : Char → Bool} {c : Char} {cs : List Char} (h : c ∈ cs) :
    p c = true ∨ c ∈ cs.dropWhile p := by
  rw [← List.takeWhile_append_dropWhile (p := p) (l := cs), List.mem_append] at h
  exact h.imp_left List.mem_takeWhile_imp

theorem mem_strip_or {c : Char} {cs : List Char} (h : c ∈ cs) :
    isSpace c = true ∨ c ∈ strip cs := by
  rcases mem_dropWhile_or (p := isSpace) h with hs | hc
  · exact .inl hs
  rcases mem_dropWhile_or (p := isSpace) (List.mem_reverse.mpr hc) with hs | hc
  · exact .inl hs
  · exact .inr (List.mem_reverse.mpr hc)

theorem mem_sign_or {c : Char} {cs : List Char} (h : c ∈ cs) :
    c = '+' ∨ c = '-' ∨ c ∈ (sign cs).2 := by
  unfold sign
  split
  · rcases List.mem_cons.mp h with rfl | h
    · exact .inl rfl
    · exact .inr (.inr h)
  · rcases List.mem_cons.mp h with rfl | h
    · exact .inr (.inl rfl)
    · exact .inr (.inr h)
  · exact .inr (.inr h)

theorem mem_digits_or {cs : List Char} {ds : List Nat} (h : digits cs = some ds) {c : Char}
    (hc : c ∈ cs) : c = '_' ∨ (digit? c).isSome = true := by
  fun_induction digits cs generalizing ds with
  | case1 => cases hc
  | case2 c' =>
    obtain ⟨d, hd, -⟩ := Option.map_eq_some_iff.mp h
    rw [List.mem_singleton.mp hc, hd]
    exact .inr rfl
  | case3 c' cs ih =>
    obtain ⟨d, hd, h⟩ := Option.bind_eq_some_iff.mp h
    obtain ⟨ds', hds, -⟩ := Option.map_eq_some_iff.mp h
    simp only [List.mem_cons] at hc
    rcases hc with rfl | rfl | hc
    · exact .inr (by rw [hd]; rfl)
    · exact .inl rfl
    · exact ih hds hc
  | case4 c' c'' cs _ ih =>
    obtain ⟨d, hd, h⟩ := Option.bind_eq_some_iff.mp h
    obtain ⟨ds', hds, -⟩ := Option.map_eq_some_iff.mp h
    rcases List.mem_cons.mp hc with rfl | hc
    · exact .inr (by rw [hd]; rfl)
    · exact ih hds hc

/-- A text that is a number has no other characters. -/
theorem isNumeric_of_mem {text : String} {n : Int} (h : ofText text = some n) {c : Char}
    (hc : c ∈ text.toList) : isNumeric c = true := by
  unfold ofText at h
  obtain ⟨ds, hds, -⟩ := Option.bind_eq_some_iff.mp h
  have hor : isSpace c = true ∨ c = '+' ∨ c = '-' ∨ c = '_' ∨ (digit? c).isSome = true := by
    rcases mem_strip_or hc with hs | hc
    · exact .inl hs
    rcases mem_sign_or hc with h | h | hc
    · exact .inr (.inl h)
    · exact .inr (.inr (.inl h))
    · exact .inr (.inr (.inr (mem_digits_or hds hc)))
  simpa [isNumeric, or_assoc] using hor

end PyInt
