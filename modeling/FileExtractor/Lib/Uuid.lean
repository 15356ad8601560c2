import FileExtractor.Lib.PyInt
import Mathlib.Algebra.Order.Ring.Nat
import Mathlib.Data.List.Induction

/-!
# The text of a UUID

A UUID is a number below `2 ^ 128`. `text` writes it with 32 hex digits in five groups, as `str` of
a Python `UUID` does, and `ofText` reads a text as its constructor does: without `urn:` and `uuid:`,
without braces at the ends and without hyphens, 32 characters are left, and they are read by
`int(hex, 16)`, which is more than hex digits: it takes spaces, a plus, `0x` and underscores.

What is written is read back (`ofText_text`).
-/

namespace Uuid

/-! ## `int` of a text in base 16 -/

/-- A hex digit; a decimal digit may be one of any script. -/
def hexDigit? (c : Char) : Option Nat :=
  if 'a' ≤ c ∧ c ≤ 'f' then some (c.toNat - 'a'.toNat + 10)
  else if 'A' ≤ c ∧ c ≤ 'F' then some (c.toNat - 'A'.toNat + 10)
  else PyInt.digit? c

/-- At least one digit, with single underscores between digits. -/
def hexDigits : List Char → Option (List Nat)
  | [] => none
  | [c] => (hexDigit? c).map ([·])
  | c :: '_' :: cs => (hexDigit? c).bind fun d => (hexDigits cs).map (d :: ·)
  | c :: c' :: cs => (hexDigit? c).bind fun d => (hexDigits (c' :: cs)).map (d :: ·)

/-- The text without `0x`, behind which one underscore is allowed. -/
def dropPrefix : List Char → List Char
  | z :: x :: cs =>
    if PyInt.digit? z = some 0 ∧ (x = 'x' ∨ x = 'X') then
      if cs.head? = some '_' then cs.tail else cs
    else z :: x :: cs
  | cs => cs

def ofDigits (ds : List Nat) : Nat := ds.foldl (fun n d => 16 * n + d) 0

/-- `int(hex, 16)`. -/
def ofHex (hex : List Char) : Option Int :=
  let (sg, cs) := PyInt.sign (PyInt.strip hex)
  (hexDigits (dropPrefix cs)).map fun ds => sg * ofDigits ds

/-! ## The constructor and `str` -/

/-- `replace(part, "")`: the parts are found from the left; the next `skip` characters belong to
one. -/
def removeFrom (part : List Char) : Nat → List Char → List Char
  | _, [] => []
  | skip + 1, _ :: cs => removeFrom part skip cs
  | 0, c :: cs =>
    if part.isPrefixOf (c :: cs) then removeFrom part (part.length - 1) cs
    else c :: removeFrom part 0 cs

def remove (part : String) (cs : List Char) : List Char := removeFrom part.toList 0 cs

def isBrace (c : Char) : Bool := c = '\x7b' || c = '\x7d'

/-- `strip` of the braces. -/
def stripBraces (cs : List Char) : List Char :=
  ((cs.dropWhile isBrace).reverse.dropWhile isBrace).reverse

/-- What is left for `int`. -/
def bare (text : String) : List Char :=
  (stripBraces (remove "uuid:" (remove "urn:" text.toList))).filter (· ≠ '-')

/-- The causes of the `ValueError`. -/
inductive Malformed where
  | length
  | literal (hex : List Char)
  | range
  deriving DecidableEq

/-- `UUID(text).int`. -/
def ofText (text : String) : Except Malformed Nat :=
  let hex := bare text
  if hex.length ≠ 32 then .error .length
  else
    match ofHex hex with
    | none => .error (.literal hex)
    | some n => if 0 ≤ n ∧ n < 2 ^ 128 then .ok n.toNat else .error .range

/-- The hex digits of `n`, the lowest `width` of them. -/
def hexText : Nat → Nat → List Char
  | 0, _ => []
  | width + 1, n => hexText width (n / 16) ++ [Nat.digitChar (n % 16)]

/-- `str(UUID(int=n))`. -/
def text (n : Nat) : String :=
  let hex := hexText 32 n
  String.ofList (hex.take 8 ++ '-' :: ((hex.drop 8).take 4 ++ '-' :: ((hex.drop 12).take 4 ++ '-' ::
    ((hex.drop 16).take 4 ++ '-' :: hex.drop 20))))

example : ofText "urn:uuid:\x7b0x_00000-00000000000000000000_0ff\x7d" = .ok 255 := by decide

/-! ## The written texts -/

/-- A character that `hexText` writes. -/
def Written (c : Char) : Prop := ∃ d < 16, c = Nat.digitChar d

theorem hexDigit?_digitChar : ∀ d < 16, hexDigit? (Nat.digitChar d) = some d := by decide

theorem isSpace_digitChar : ∀ d < 16, PyInt.isSpace (Nat.digitChar d) = false := by decide

theorem digitChar_not_special : ∀ d < 16, Nat.digitChar d ∉
    ['u', '-', '+', '_', 'x', 'X', '\x7b', '\x7d'] := by decide

theorem written_of_mem {width n : Nat} {c : Char} (h : c ∈ hexText width n) : Written c := by
  induction width generalizing n with
  | zero => cases h
  | succ width ih =>
    rcases List.mem_append.mp h with h | h
    · exact ih h
    · exact ⟨n % 16, Nat.mod_lt _ (by decide), List.mem_singleton.mp h⟩

theorem Written.ne {c c' : Char} (h : Written c)
    (hc : c' ∈ ['u', '-', '+', '_', 'x', 'X', '\x7b', '\x7d']) : c ≠ c' := by
  obtain ⟨d, hd, rfl⟩ := h
  exact fun e => digitChar_not_special d hd (e ▸ hc)

theorem length_hexText (width n : Nat) : (hexText width n).length = width := by
  induction width generalizing n with
  | zero => rfl
  | succ width ih => simp [hexText, ih]

/-- The characters of a text. -/
theorem mem_text {n : Nat} {c : Char} (h : c ∈ (text n).toList) : Written c ∨ c = '-' := by
  have piece : ∀ {cs : List Char}, (∀ x ∈ cs, x ∈ hexText 32 n) → c ∈ cs → Written c ∨ c = '-' :=
    fun hs hc => .inl (written_of_mem (hs c hc))
  rw [text, String.toList_ofList] at h
  simp only [List.mem_append, List.mem_cons] at h
  rcases h with h | h | h | h | h | h | h | h | h
  · exact piece (fun x => List.mem_of_mem_take) h
  · exact .inr h
  · exact piece (fun x hx => List.mem_of_mem_drop (List.mem_of_mem_take hx)) h
  · exact .inr h
  · exact piece (fun x hx => List.mem_of_mem_drop (List.mem_of_mem_take hx)) h
  · exact .inr h
  · exact piece (fun x hx => List.mem_of_mem_drop (List.mem_of_mem_take hx)) h
  · exact .inr h
  · exact piece (fun x => List.mem_of_mem_drop) h

/-- Nothing is removed where the first character of the part does not occur. -/
theorem remove_eq_self {c : Char} {part cs : List Char} (h : c ∉ cs) :
    removeFrom (c :: part) 0 cs = cs := by
  induction cs with
  | nil => rfl
  | cons c' cs ih =>
    have hne : c ≠ c' := fun e => h (e ▸ List.mem_cons_self)
    rw [removeFrom, if_neg (by simp [hne]), ih fun hc => h (List.mem_cons_of_mem _ hc)]

theorem dropWhile_eq_self {p : Char → Bool} {cs : List Char} (h : ∀ c ∈ cs, p c = false) :
    cs.dropWhile p = cs := by
  cases cs with
  | nil => rfl
  | cons c cs => exact List.dropWhile_cons_of_neg (by simp [h c List.mem_cons_self])

/-- The hyphens separate the digits. -/
theorem filter_text (n : Nat) : (text n).toList.filter (· ≠ '-') = hexText 32 n := by
  have piece : ∀ {cs : List Char}, (∀ c ∈ cs, c ∈ hexText 32 n) → cs.filter (· ≠ '-') = cs := by
    intro cs hs
    refine List.filter_eq_self.mpr fun c hc => decide_eq_true ?_
    exact (written_of_mem (hs c hc)).ne (by simp)
  have hyphen : ∀ cs : List Char, ('-' :: cs).filter (· ≠ '-') = cs.filter (· ≠ '-') :=
    fun cs => List.filter_cons_of_neg (by simp)
  have mid : ∀ k, ((hexText 32 n).drop k).take 4 ++ (hexText 32 n).drop (k + 4) =
      (hexText 32 n).drop k := fun k => by rw [← List.drop_drop, List.take_append_drop]
  rw [text, String.toList_ofList]
  simp only [List.filter_append, hyphen]
  rw [piece fun c => List.mem_of_mem_take,
    piece fun c hc => List.mem_of_mem_drop (List.mem_of_mem_take hc),
    piece fun c hc => List.mem_of_mem_drop (List.mem_of_mem_take hc),
    piece fun c hc => List.mem_of_mem_drop (List.mem_of_mem_take hc),
    piece fun c => List.mem_of_mem_drop, mid 16, mid 12, mid 8, List.take_append_drop]

theorem bare_text (n : Nat) : bare (text n) = hexText 32 n := by
  have hu : 'u' ∉ (text n).toList := by
    intro h
    rcases mem_text h with h | h
    · exact h.ne (by simp) rfl
    · cases h
  have hbrace : ∀ c ∈ (text n).toList, isBrace c = false := by
    intro c hc
    rcases mem_text hc with h | rfl
    · simp [isBrace, h.ne]
    · decide
  have hurn : remove "urn:" (text n).toList = (text n).toList := remove_eq_self hu
  have huuid : remove "uuid:" (text n).toList = (text n).toList := remove_eq_self hu
  rw [bare, hurn, huuid, stripBraces, dropWhile_eq_self hbrace,
    dropWhile_eq_self fun c hc => hbrace c (List.mem_reverse.mp hc), List.reverse_reverse,
    filter_text]

/-! ## What is written is read back -/

theorem hexDigits_written {cs : List Char} {ds : List Nat} (hne : ds ≠ [])
    (h : ∀ d ∈ ds, d < 16) (hcs : cs = ds.map Nat.digitChar) : hexDigits cs = some ds := by
  induction ds generalizing cs with
  | nil => exact absurd rfl hne
  | cons d ds ih =>
    subst hcs
    have hd := hexDigit?_digitChar d (h d List.mem_cons_self)
    cases ds with
    | nil => simp [hexDigits, hd]
    | cons d' ds =>
      have hne' : Nat.digitChar d' ≠ '_' :=
        Written.ne ⟨d', h d' (by simp), rfl⟩ (by simp)
      have ih' := ih (by simp) (fun x hx => h x (List.mem_cons_of_mem _ hx)) rfl
      rw [List.map_cons] at ih' ⊢
      rw [List.map_cons, hexDigits, hd, ih']
      · rfl
      · exact hne'

/-- The digits that `hexText` writes. -/
def hexValues : Nat → Nat → List Nat
  | 0, _ => []
  | width + 1, n => hexValues width (n / 16) ++ [n % 16]

theorem hexText_eq (width n : Nat) : hexText width n = (hexValues width n).map Nat.digitChar := by
  induction width generalizing n with
  | zero => rfl
  | succ width ih => simp [hexText, hexValues, ih]

theorem hexValues_lt {width n : Nat} {d : Nat} (h : d ∈ hexValues width n) : d < 16 := by
  induction width generalizing n with
  | zero => cases h
  | succ width ih =>
    rcases List.mem_append.mp h with h | h
    · exact ih h
    · rw [List.mem_singleton.mp h]; exact Nat.mod_lt _ (by decide)

theorem ofDigits_hexValues {width n : Nat} (h : n < 16 ^ width) :
    ofDigits (hexValues width n) = n := by
  induction width generalizing n with
  | zero => simp only [pow_zero, Nat.lt_one_iff] at h; rw [h]; rfl
  | succ width ih =>
    have hdiv : n / 16 < 16 ^ width := by rw [pow_succ] at h; omega
    have hstep : ofDigits (hexValues (width + 1) n) =
        16 * ofDigits (hexValues width (n / 16)) + n % 16 := by
      simp only [ofDigits, hexValues, List.foldl_append, List.foldl_cons, List.foldl_nil]
    rw [hstep, ih hdiv]
    omega

theorem ofHex_hexText {n : Nat} (h : n < 2 ^ 128) : ofHex (hexText 32 n) = some (n : Int) := by
  have hw : ∀ c ∈ hexText 32 n, Written c := fun c => written_of_mem
  have hspace : ∀ c ∈ hexText 32 n, PyInt.isSpace c = false := by
    intro c hc
    obtain ⟨d, hd, rfl⟩ := hw c hc
    exact isSpace_digitChar d hd
  have hstrip : PyInt.strip (hexText 32 n) = hexText 32 n := by
    rw [PyInt.strip, dropWhile_eq_self hspace,
      dropWhile_eq_self fun c hc => hspace c (List.mem_reverse.mp hc), List.reverse_reverse]
  have hsign : PyInt.sign (hexText 32 n) = (1, hexText 32 n) := by
    unfold PyInt.sign
    split
    · next heq => exact absurd rfl ((hw '+' (by simp [heq])).ne (by simp))
    · next heq => exact absurd rfl ((hw '-' (by simp [heq])).ne (by simp))
    · rfl
  have hdrop : dropPrefix (hexText 32 n) = hexText 32 n := by
    unfold dropPrefix
    split
    · next z x cs heq =>
      have hx : Written x := hw x (by simp [heq])
      rw [if_neg fun hc => hc.2.elim (hx.ne (by simp)) (hx.ne (by simp)), heq]
    · rfl
  have hdigits : hexDigits (hexText 32 n) = some (hexValues 32 n) :=
    hexDigits_written (fun h => by simp [hexValues] at h) (fun d => hexValues_lt) (hexText_eq 32 n)
  have hpow : n < 16 ^ 32 := h
  rw [ofHex, hstrip, hsign]
  simp only [hdrop, hdigits, Option.map_some, ofDigits_hexValues hpow, one_mul]

/-- **A UUID is read back from its text.** -/
theorem ofText_text {n : Nat} (h : n < 2 ^ 128) : ofText (text n) = .ok n := by
  rw [ofText, bare_text, if_neg (by simp [length_hexText]), ofHex_hexText h]
  have hn : (0 : Int) ≤ n ∧ (n : Int) < 2 ^ 128 := ⟨Int.natCast_nonneg n, by exact_mod_cast h⟩
  simp only [if_pos hn, Int.toNat_natCast]

end Uuid
