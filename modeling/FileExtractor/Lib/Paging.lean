import Mathlib.Data.List.Sort
import Mathlib.Data.List.Count
import Mathlib.Data.List.Perm.Basic
import Mathlib.Data.Prod.Lex
import Mathlib.Order.Monotone.Basic

/-!
# Pages of an ordered result

A query gives its rows `xs` in descending order of a key, rows with one key in any order
(`Arranges`); each page is cut from an arrangement of its own. The rows with one key stand together,
from position `before` to position `upTo`, in every arrangement, so the pages are a partition of the
rows when no such group lies across the end of a page (`Undivided`, `flatMap_page_perm`). When one
does, two of its rows may change places between the two pages, and one of them is on no page
(`exists_unseen`).

A row is on the first page of every arrangement if its group ends there, and on that of some
arrangement if its group begins there (`forall_mem_first_iff`, `exists_mem_first_iff`).

The pages may be read in turn while the result changes. A row that others come before moves to a
later page, and a reader who follows meets it (`exists_mem_page`); one that others leave moves to an
earlier page, and no reader meets it again (`mem_page_unique`).
-/

namespace Paging

variable {α κ : Type} [LinearOrder κ] (key : α → κ)

/-- `rows` are the elements of `xs` in descending order of the key. -/
structure Arranges (xs rows : List α) : Prop where
  perm : rows.Perm xs
  sorted : rows.Pairwise fun a b => key b ≤ key a

/-- The page `k` of `n` rows, counted from zero: `OFFSET k * n LIMIT n`. -/
def page (n k : Nat) (rows : List α) : List α := (rows.drop (k * n)).take n

/-- The number of rows that stand before the group of `x`. -/
def before (xs : List α) (x : α) : Nat := xs.countP fun y => key x < key y

/-- The number of rows up to the end of the group of `x`. -/
def upTo (xs : List α) (x : α) : Nat := xs.countP fun y => key x ≤ key y

/-- The first and the last row of each group are on one page. -/
def Undivided (n : Nat) (xs : List α) : Prop :=
  ∀ x ∈ xs, before key xs x / n = (upTo key xs x - 1) / n

instance (n : Nat) (xs : List α) : Decidable (Undivided key n xs) :=
  inferInstanceAs (Decidable (∀ x ∈ xs, _))

/-! ## Pages -/

theorem getElem?_of_mem_page {n k : Nat} {rows : List α} {x : α} (h : x ∈ page n k rows) :
    ∃ i, k * n ≤ i ∧ i < (k + 1) * n ∧ rows[i]? = some x := by
  obtain ⟨j, hj, rfl⟩ := List.getElem_of_mem h
  simp only [page, List.length_take, List.length_drop] at hj
  refine ⟨k * n + j, by omega, by rw [Nat.succ_mul]; omega, ?_⟩
  simp only [page, List.getElem_take, List.getElem_drop]
  exact List.getElem?_eq_getElem _

/-- A page holds the rows that have its number. -/
theorem page_eq_filter {n : Nat} (k : Nat) {rows : List α} {g : α → Nat}
    (hg : ∀ i (h : i < rows.length), g rows[i] = i / n) (hn : 0 < n) :
    page n k rows = rows.filter fun x => g x = k := by
  have hsplit : rows = rows.take (k * n) ++ (page n k rows ++ rows.drop (k * n + n)) := by
    rw [page, ← List.drop_drop, List.take_append_drop, List.take_append_drop]
  have hfirst : (rows.take (k * n)).filter (fun x => g x = k) = [] := by
    rw [List.filter_eq_nil_iff]
    intro x hx
    obtain ⟨i, hi, rfl⟩ := List.getElem_of_mem hx
    rw [List.length_take] at hi
    rw [List.getElem_take, hg i (by omega), decide_eq_true_eq]
    have : i / n < k := (Nat.div_lt_iff_lt_mul hn).mpr (by omega)
    omega
  have hpage : (page n k rows).filter (fun x => g x = k) = page n k rows := by
    rw [List.filter_eq_self]
    intro x hx
    obtain ⟨i, hlo, hhi, hi⟩ := getElem?_of_mem_page hx
    obtain ⟨hlt, rfl⟩ := List.getElem?_eq_some_iff.mp hi
    rw [hg i hlt, decide_eq_true_eq]
    exact Nat.div_eq_of_lt_le hlo hhi
  have hlast : (rows.drop (k * n + n)).filter (fun x => g x = k) = [] := by
    rw [List.filter_eq_nil_iff]
    intro x hx
    obtain ⟨i, hi, rfl⟩ := List.getElem_of_mem hx
    rw [List.length_drop] at hi
    rw [List.getElem_drop, hg _ (by omega), decide_eq_true_eq]
    have : k + 1 ≤ (k * n + n + i) / n :=
      (Nat.le_div_iff_mul_le hn).mpr (by rw [Nat.succ_mul]; omega)
    omega
  calc page n k rows
      = (page n k rows).filter fun x => g x = k := hpage.symm
    _ = rows.filter fun x => g x = k := by
        conv_rhs => rw [hsplit]
        rw [List.filter_append, List.filter_append, hfirst, hlast, List.nil_append,
          List.append_nil]

/-- The rows by their numbers are all rows. -/
theorem flatMap_filter_perm (g : α → Nat) (xs : List α) (c : Nat) :
    ((List.range c).flatMap fun k => xs.filter fun x => g x = k).Perm
      (xs.filter fun x => g x < c) := by
  induction c with
  | zero => simp
  | succ c ih =>
    have hlt : (xs.filter fun x => g x < c + 1).filter (fun x => g x < c) =
        xs.filter fun x => g x < c := by
      rw [List.filter_filter]
      exact List.filter_congr fun x _ => by
        rw [← Bool.decide_and]; exact decide_eq_decide.mpr (by omega)
    have heq : (xs.filter fun x => g x < c + 1).filter (fun x => !decide (g x < c)) =
        xs.filter fun x => g x = c := by
      rw [List.filter_filter]
      exact List.filter_congr fun x _ => by
        rw [← decide_not, ← Bool.decide_and]; exact decide_eq_decide.mpr (by omega)
    have hperm := List.filter_append_perm (fun x => g x < c) (xs.filter fun x => g x < c + 1)
    rw [hlt, heq] at hperm
    rw [List.range_succ, List.flatMap_append, List.flatMap_singleton]
    exact (ih.append_right _).trans hperm

/-! ## The places of a group -/

theorem countP_le_of_drop {p : α → Bool} {rows : List α} {i : Nat}
    (h : ∀ j (hj : j < rows.length), i ≤ j → p rows[j] = false) : rows.countP p ≤ i := by
  rw [← List.take_append_drop i rows, List.countP_append]
  have hlast : (rows.drop i).countP p = 0 := by
    rw [List.countP_eq_zero]
    intro y hy
    obtain ⟨j, hj, rfl⟩ := List.getElem_of_mem hy
    rw [List.length_drop] at hj
    rw [List.getElem_drop, h _ (by omega) (Nat.le_add_right i j)]
    exact Bool.false_ne_true
  have hfirst := List.countP_le_length (p := p) (l := rows.take i)
  rw [List.length_take] at hfirst
  omega

theorem lt_countP_of_take {p : α → Bool} {rows : List α} {i : Nat} (hi : i < rows.length)
    (h : ∀ j (hj : j < rows.length), j ≤ i → p rows[j] = true) : i < rows.countP p := by
  rw [← List.take_append_drop (i + 1) rows, List.countP_append]
  have hfirst : (rows.take (i + 1)).countP p = (rows.take (i + 1)).length := by
    rw [List.countP_eq_length]
    intro y hy
    obtain ⟨j, hj, rfl⟩ := List.getElem_of_mem hy
    rw [List.length_take] at hj
    rw [List.getElem_take, h j (by omega) (by omega)]
  rw [hfirst, List.length_take]
  omega

variable {key} {xs rows : List α}

namespace Arranges

theorem before_eq (h : Arranges key xs rows) (x : α) : before key xs x = before key rows x :=
  (h.perm.countP_eq _).symm

theorem upTo_eq (h : Arranges key xs rows) (x : α) : upTo key xs x = upTo key rows x :=
  (h.perm.countP_eq _).symm

theorem key_le (h : Arranges key xs rows) {i j : Nat} (hij : i ≤ j) (hj : j < rows.length) :
    key rows[j] ≤ key rows[i] := by
  rcases Nat.eq_or_lt_of_le hij with rfl | hlt
  · exact le_refl _
  · exact List.pairwise_iff_getElem.mp h.sorted i j (by omega) hj hlt

theorem before_le (h : Arranges key xs rows) {x : α} {i : Nat} (hi : i < rows.length)
    (hx : key rows[i] ≤ key x) : before key xs x ≤ i := by
  rw [h.before_eq]
  refine countP_le_of_drop fun j hj hij => ?_
  rw [decide_eq_false_iff_not, not_lt]
  exact (h.key_le hij hj).trans hx

theorem lt_before (h : Arranges key xs rows) {x : α} {i : Nat} (hi : i < rows.length)
    (hx : key x < key rows[i]) : i < before key xs x := by
  rw [h.before_eq]
  refine lt_countP_of_take hi fun j hj hij => ?_
  rw [decide_eq_true_eq]
  exact hx.trans_le (h.key_le hij hi)

theorem upTo_le (h : Arranges key xs rows) {x : α} {i : Nat} (hi : i < rows.length)
    (hx : key rows[i] < key x) : upTo key xs x ≤ i := by
  rw [h.upTo_eq]
  refine countP_le_of_drop fun j hj hij => ?_
  rw [decide_eq_false_iff_not, not_le]
  exact (h.key_le hij hj).trans_lt hx

theorem lt_upTo (h : Arranges key xs rows) {x : α} {i : Nat} (hi : i < rows.length)
    (hx : key x ≤ key rows[i]) : i < upTo key xs x := by
  rw [h.upTo_eq]
  refine lt_countP_of_take hi fun j hj hij => ?_
  rw [decide_eq_true_eq]
  exact hx.trans (h.key_le hij hi)

/-- The positions of a group hold rows with its key. -/
theorem key_eq (h : Arranges key xs rows) {x : α} {i : Nat} (hi : i < rows.length)
    (hlo : before key xs x ≤ i) (hhi : i < upTo key xs x) : key rows[i] = key x := by
  refine le_antisymm (not_lt.mp fun hgt => ?_) (not_lt.mp fun hlt => ?_)
  · have := h.lt_before hi hgt
    omega
  · have := h.upTo_le hi hlt
    omega

/-- In an undivided result a row is on the page of the first row of its group. -/
theorem before_div (h : Arranges key xs rows) {n : Nat} (hu : Undivided key n xs) {i : Nat}
    (hi : i < rows.length) : before key xs rows[i] / n = i / n := by
  have hlo := h.before_le hi le_rfl
  have hhi := h.lt_upTo hi le_rfl
  have hpage := hu rows[i] (h.perm.subset (List.getElem_mem hi))
  have hl : before key xs rows[i] / n ≤ i / n := Nat.div_le_div_right hlo
  have hr : i / n ≤ (upTo key xs rows[i] - 1) / n := Nat.div_le_div_right (by omega)
  omega

end Arranges

/-! ## The pages together -/

/-- The pages of an undivided result hold each row once, whatever the arrangement of each. -/
theorem flatMap_page_perm {n : Nat} (hn : 0 < n) (hu : Undivided key n xs) {arr : Nat → List α}
    (harr : ∀ k, Arranges key xs (arr k)) {c : Nat} (hc : xs.length ≤ c * n) :
    ((List.range c).flatMap fun k => page n k (arr k)).Perm xs := by
  have hpage : ∀ k ∈ List.range c, (page n k (arr k)).Perm
      (xs.filter fun x => before key xs x / n = k) := fun k _ => by
    rw [page_eq_filter (g := fun x => before key xs x / n) k
      (fun i hi => (harr k).before_div hu hi) hn]
    exact (harr k).perm.filter _
  have hall : (xs.filter fun x => before key xs x / n < c) = xs := by
    rw [List.filter_eq_self]
    intro x hx
    obtain ⟨i, hi, rfl⟩ := List.getElem_of_mem ((harr 0).perm.symm.subset hx)
    rw [decide_eq_true_eq, (harr 0).before_div hu hi, Nat.div_lt_iff_lt_mul hn]
    exact (((harr 0).perm.length_eq ▸ hi).trans_le hc)
  have hperm := flatMap_filter_perm (fun x => before key xs x / n) xs c
  rw [hall] at hperm
  exact (List.Perm.flatMap_left _ hpage).trans hperm

/-- Two neighbours with one key may change places. -/
theorem Arranges.swap {l₁ l₂ : List α} {a b : α} (h : Arranges key xs (l₁ ++ a :: b :: l₂))
    (hab : key a = key b) : Arranges key xs (l₁ ++ b :: a :: l₂) where
  perm := ((List.Perm.swap a b l₂).append_left l₁).trans h.perm
  sorted := by
    obtain ⟨h₁, h₂, h₃⟩ := List.pairwise_append.mp h.sorted
    rw [List.pairwise_cons, List.pairwise_cons] at h₂
    refine List.pairwise_append.mpr ⟨h₁, ?_, fun x hx y hy => h₃ x hx y ?_⟩
    · rw [List.pairwise_cons, List.pairwise_cons]
      refine ⟨fun y hy => ?_, fun y hy => h₂.1 y (List.mem_cons_of_mem _ hy), h₂.2.2⟩
      rcases List.mem_cons.mp hy with rfl | hy
      · exact le_of_eq hab
      · exact h₂.2.1 y hy
    · exact (List.Perm.swap a b l₂).subset hy

variable (key) in
theorem exists_arranges (xs : List α) : ∃ rows, Arranges key xs rows := by
  refine ⟨xs.mergeSort fun a b => key b ≤ key a, List.mergeSort_perm _ _, ?_⟩
  refine (List.pairwise_mergeSort (fun a b c => ?_) (fun a b => ?_) xs).imp fun hab => by
    simpa using hab
  · simp only [decide_eq_true_eq]
    exact fun hab hbc => hbc.trans hab
  · simpa using le_total (key b) (key a)

/-- A group that is divided has its first row before the end of a page, and a row behind it. -/
theorem exists_divided {n : Nat} (hu : ¬ Undivided key n xs) :
    ∃ x ∈ xs, ∃ K m, m + 1 = (K + 1) * n ∧ before key xs x ≤ m ∧ m + 1 < upTo key xs x := by
  obtain ⟨x, hx, hne⟩ : ∃ x ∈ xs, before key xs x / n ≠ (upTo key xs x - 1) / n := by
    simpa [Undivided] using hu
  have hn : 0 < n := Nat.pos_of_ne_zero fun h0 => hne (by rw [h0, Nat.div_zero, Nat.div_zero])
  have hpos : 0 < (before key xs x / n + 1) * n := Nat.mul_pos (Nat.succ_pos _) hn
  have hlo : before key xs x < (before key xs x / n + 1) * n := by
    rw [Nat.succ_mul]; exact Nat.lt_div_mul_add hn
  have hgroup : before key xs x < upTo key xs x := by
    obtain ⟨rows, hrows⟩ := exists_arranges key xs
    obtain ⟨i, hi, rfl⟩ := List.getElem_of_mem (hrows.perm.symm.subset hx)
    exact (hrows.before_le hi le_rfl).trans_lt (hrows.lt_upTo hi le_rfl)
  have hmono : before key xs x / n ≤ (upTo key xs x - 1) / n := Nat.div_le_div_right (by omega)
  have hhi : (before key xs x / n + 1) * n ≤ upTo key xs x - 1 :=
    (Nat.le_div_iff_mul_le hn).mp (by omega)
  exact ⟨x, hx, before key xs x / n, (before key xs x / n + 1) * n - 1,
    Nat.sub_add_cancel hpos, by omega, by omega⟩

/-- When a group lies across the end of a page, some arrangements show one of its rows on no
page. -/
theorem exists_unseen {n : Nat} (hu : ¬ Undivided key n xs) (hxs : xs.Nodup) :
    ∃ arr : Nat → List α, (∀ k, Arranges key xs (arr k)) ∧
      ∃ b ∈ xs, ∀ k, b ∉ page n k (arr k) := by
  obtain ⟨x, hx, K, m, hm, hlo, hhi⟩ := exists_divided hu
  obtain ⟨rows, hrows⟩ := exists_arranges key xs
  have hlen : m + 1 < rows.length := by
    have : upTo key xs x ≤ rows.length := by
      rw [hrows.upTo_eq]; exact List.countP_le_length
    omega
  -- the rows on both sides of it
  have hsplit : rows = rows.take m ++ rows[m] :: rows[m + 1] :: rows.drop (m + 2) := by
    rw [← List.drop_eq_getElem_cons, ← List.drop_eq_getElem_cons, List.take_append_drop]
  have hkey : key rows[m] = key rows[m + 1] := by
    rw [hrows.key_eq (x := x) (by omega) (by omega) (by omega),
      hrows.key_eq (x := x) hlen (by omega) (by omega)]
  have hswap : Arranges key xs (rows.take m ++ rows[m + 1] :: rows[m] :: rows.drop (m + 2)) :=
    (hsplit ▸ hrows : Arranges key xs _).swap hkey
  refine ⟨fun k => if k ≤ K then rows
    else rows.take m ++ rows[m + 1] :: rows[m] :: rows.drop (m + 2), fun k => ?_,
    rows[m + 1], hrows.perm.subset (List.getElem_mem hlen), fun k hmem => ?_⟩
  · dsimp only
    split
    · exact hrows
    · exact hswap
  · obtain ⟨i, hlo', hhi', hi⟩ := getElem?_of_mem_page hmem
    dsimp only at hi
    split at hi
    · next hk =>
      have hlt : (k + 1) * n ≤ (K + 1) * n := Nat.mul_le_mul_right n (by omega)
      have := (List.getElem?_inj hlen (hrows.perm.nodup_iff.mpr hxs)).mp
        ((List.getElem?_eq_getElem hlen).trans hi.symm)
      omega
    · next hk =>
      have hle : (K + 1) * n ≤ k * n := Nat.mul_le_mul_right n (by omega)
      have hat : (rows.take m ++ rows[m + 1] :: rows[m] :: rows.drop (m + 2))[m]? =
          some rows[m + 1] := by
        rw [List.getElem?_append_right (by rw [List.length_take]; omega), List.length_take,
          Nat.min_eq_left (by omega), Nat.sub_self]
        rfl
      obtain ⟨hm', -⟩ := List.getElem?_eq_some_iff.mp hat
      have := (List.getElem?_inj hm' (hswap.perm.nodup_iff.mpr hxs)).mp (hat.trans hi.symm)
      omega

/-! ## The first page -/

variable {n : Nat} {x : α}

/-- Within a group the rows are in the order of `rank`. -/
theorem arranges_of_lex {rank : α → Nat} (h : Arranges (fun y => toLex (key y, rank y)) xs rows) :
    Arranges key xs rows where
  perm := h.perm
  sorted := h.sorted.imp fun hab =>
    (Prod.Lex.toLex_le_toLex.mp hab).elim le_of_lt fun hc => hc.1.le

/-- Without duplicates a row is on the page of its position. -/
theorem getElem_mem_page_iff (hrows : rows.Nodup) {i : Nat} (hi : i < rows.length) (k : Nat) :
    rows[i] ∈ page n k rows ↔ k * n ≤ i ∧ i < (k + 1) * n := by
  constructor
  · intro hmem
    obtain ⟨j, hlo, hhi, he⟩ := getElem?_of_mem_page hmem
    obtain rfl := (List.getElem?_inj hi hrows).mp ((List.getElem?_eq_getElem hi).trans he.symm)
    exact ⟨hlo, hhi⟩
  · rintro ⟨hlo, hhi⟩
    rw [Nat.succ_mul] at hhi
    have hget : (page n k rows)[i - k * n]? = some rows[i] := by
      rw [page, List.getElem?_take_of_lt (by omega), List.getElem?_drop, Nat.add_sub_cancel' hlo]
      exact List.getElem?_eq_getElem hi
    exact List.mem_of_getElem? hget

theorem mem_first_iff (hrows : rows.Nodup) {i : Nat} (hi : i < rows.length) :
    rows[i] ∈ page n 0 rows ↔ i < n := by
  rw [getElem_mem_page_iff hrows hi 0]
  omega

theorem countP_le_succ {p q : α → Bool} (hxs : xs.Nodup)
    (h : ∀ y ∈ xs, p y = true → q y = true ∨ y = x) : xs.countP p ≤ xs.countP q + 1 := by
  induction xs with
  | nil => exact Nat.zero_le _
  | cons y xs ih =>
    obtain ⟨hy, hxs⟩ := List.nodup_cons.mp hxs
    have htail : ∀ z ∈ xs, p z = true → q z = true ∨ z = x :=
      fun z hz => h z (List.mem_cons_of_mem y hz)
    by_cases hyx : y = x
    · have hmono : xs.countP p ≤ xs.countP q := List.countP_mono_left fun z hz hp =>
        (htail z hz hp).resolve_right fun e => hy (hyx ▸ e ▸ hz)
      have := List.countP_le_length (p := p) (l := [y])
      rw [List.countP_cons, List.countP_cons]
      split <;> split <;> omega
    · have := ih hxs htail
      have hhead : p y = true → q y = true :=
        fun hp => (h y List.mem_cons_self hp).resolve_right hyx
      rw [List.countP_cons, List.countP_cons]
      split
      · next hp => rw [if_pos (hhead hp)]; omega
      · split <;> omega

/-- Some arrangement has the row on its first page if its group begins there. -/
theorem exists_mem_first_iff (hx : x ∈ xs) (hxs : xs.Nodup) :
    (∃ rows, Arranges key xs rows ∧ x ∈ page n 0 rows) ↔ before key xs x < n := by
  classical
  constructor
  · rintro ⟨rows, hrows, hmem⟩
    obtain ⟨i, hi, rfl⟩ := List.getElem_of_mem (hrows.perm.symm.subset hx)
    have hlt := (mem_first_iff (hrows.perm.nodup_iff.mpr hxs) hi).mp hmem
    exact (hrows.before_le hi le_rfl).trans_lt hlt
  · intro hlt
    -- the row is the first of its group
    obtain ⟨rows, hrows⟩ := exists_arranges (fun y => toLex (key y, if y = x then 1 else 0)) xs
    obtain ⟨i, hi, rfl⟩ := List.getElem_of_mem (hrows.perm.symm.subset hx)
    refine ⟨rows, arranges_of_lex hrows, (mem_first_iff (hrows.perm.nodup_iff.mpr hxs) hi).mpr ?_⟩
    have hupTo := hrows.lt_upTo hi le_rfl
    have hone : upTo (fun y => toLex (key y, if y = rows[i] then 1 else 0)) xs rows[i] ≤
        before key xs rows[i] + 1 := by
      refine countP_le_succ (x := rows[i]) hxs fun y _ hle => ?_
      rcases Prod.Lex.toLex_le_toLex.mp (of_decide_eq_true hle) with hle | ⟨-, hle⟩
      · exact .inl (decide_eq_true hle)
      · refine .inr (by_contra fun hne => ?_)
        simp only [if_true, if_neg hne] at hle
        omega
    omega

/-- Every arrangement has the row on its first page if its group ends there. -/
theorem forall_mem_first_iff (hx : x ∈ xs) (hxs : xs.Nodup) :
    (∀ rows, Arranges key xs rows → x ∈ page n 0 rows) ↔ upTo key xs x ≤ n := by
  classical
  constructor
  · intro h
    -- the row is the last of its group
    obtain ⟨rows, hrows⟩ := exists_arranges (fun y => toLex (key y, if y = x then 0 else 1)) xs
    obtain ⟨i, hi, rfl⟩ := List.getElem_of_mem (hrows.perm.symm.subset hx)
    have hlt := (mem_first_iff (hrows.perm.nodup_iff.mpr hxs) hi).mp
      (h rows (arranges_of_lex hrows))
    have hbefore := hrows.before_le hi le_rfl
    have hone : upTo key xs rows[i] ≤
        before (fun y => toLex (key y, if y = rows[i] then 0 else 1)) xs rows[i] + 1 := by
      refine countP_le_succ (x := rows[i]) hxs fun y _ hle => ?_
      rw [decide_eq_true_eq] at hle
      by_cases hy : y = rows[i]
      · exact .inr hy
      · refine .inl (decide_eq_true (Prod.Lex.toLex_lt_toLex.mpr ?_))
        simp only [if_true, if_neg hy]
        exact hle.lt_or_eq.imp_right fun he => ⟨he, Nat.zero_lt_one⟩
    omega
  · intro hle rows hrows
    obtain ⟨i, hi, rfl⟩ := List.getElem_of_mem (hrows.perm.symm.subset hx)
    exact (mem_first_iff (hrows.perm.nodup_iff.mpr hxs) hi).mpr
      ((hrows.lt_upTo hi le_rfl).trans_le hle)

/-! ## Pages of a result that changes -/

/-- A row whose group is on one page is on the page of the first row of its group. -/
theorem Arranges.mem_page_iff (h : Arranges key xs rows) (hxs : xs.Nodup) (hn : 0 < n) (hx : x ∈ xs)
    (hu : before key xs x / n = (upTo key xs x - 1) / n) (k : Nat) :
    x ∈ page n k rows ↔ before key xs x / n = k := by
  obtain ⟨i, hi, rfl⟩ := List.getElem_of_mem (h.perm.symm.subset hx)
  have hlo := h.before_le hi le_rfl
  have hhi := h.lt_upTo hi le_rfl
  have hpage : before key xs rows[i] / n = i / n := by
    have hl : before key xs rows[i] / n ≤ i / n := Nat.div_le_div_right hlo
    have hr : i / n ≤ (upTo key xs rows[i] - 1) / n := Nat.div_le_div_right (by omega)
    omega
  rw [hpage, getElem_mem_page_iff (h.perm.nodup_iff.mpr hxs) hi]
  constructor
  · rintro ⟨hk, hk'⟩
    exact Nat.div_eq_of_lt_le hk hk'
  · rintro rfl
    exact ⟨Nat.div_mul_le_self i n, by rw [Nat.succ_mul]; exact Nat.lt_div_mul_add hn⟩

/-- More rows before a group, if there are more rows. -/
theorem before_mono {ys : List α} (hxs : xs.Nodup) (h : ∀ y ∈ xs, y ∈ ys) (x : α) :
    before key xs x ≤ before key ys x :=
  (List.subperm_of_subset hxs h).countP_le _

/-- One who moves to later pages only is met by a reader who has come as far. -/
theorem exists_eq_of_le_succ {g : Nat → Nat} (hg : ∀ k, g k ≤ g (k + 1)) {last : Nat}
    (h : g last ≤ last) : ∃ k, k ≤ last ∧ g k = k := by
  induction last with
  | zero => exact ⟨0, le_rfl, Nat.le_zero.mp h⟩
  | succ last ih =>
    by_cases hle : g last ≤ last
    · obtain ⟨k, hk, he⟩ := ih hle
      exact ⟨k, hk.trans (Nat.le_succ last), he⟩
    · have := hg last
      exact ⟨last + 1, le_rfl, by omega⟩

section Turns

variable {xs arr : Nat → List α} (harr : ∀ k, Arranges key (xs k) (arr k))
  (hxs : ∀ k, (xs k).Nodup) (hn : 0 < n)
  (hu : ∀ k, x ∈ xs k → before key (xs k) x / n = (upTo key (xs k) x - 1) / n)
include harr hxs hn hu

/-- **None is missed** while the result grows. -/
theorem exists_mem_page (hgrow : ∀ k, ∀ y ∈ xs k, y ∈ xs (k + 1)) (hx : x ∈ xs 0) {last : Nat}
    (hlast : (xs last).length ≤ (last + 1) * n) : ∃ k, k ≤ last ∧ x ∈ page n k (arr k) := by
  have hmem : ∀ k, x ∈ xs k := fun k => by
    induction k with
    | zero => exact hx
    | succ k ih => exact hgrow k x ih
  have hend : before key (xs last) x / n ≤ last := by
    obtain ⟨i, hi, rfl⟩ := List.getElem_of_mem ((harr last).perm.symm.subset (hmem last))
    have hlo := (harr last).before_le hi le_rfl
    have hlen := (harr last).perm.length_eq
    have hlt : before key (xs last) (arr last)[i] / n < last + 1 :=
      (Nat.div_lt_iff_lt_mul hn).mpr (by omega)
    exact Nat.le_of_lt_succ hlt
  obtain ⟨k, hk, he⟩ := exists_eq_of_le_succ (g := fun k => before key (xs k) x / n)
    (fun k => Nat.div_le_div_right (before_mono (hxs k) (hgrow k) x)) hend
  exact ⟨k, hk, ((harr k).mem_page_iff (hxs k) hn (hmem k) (hu k (hmem k)) k).mpr he⟩

/-- **None is met twice** while the result shrinks. -/
theorem mem_page_unique (hshrink : ∀ k, ∀ y ∈ xs (k + 1), y ∈ xs k) {j k : Nat}
    (hj : x ∈ page n j (arr j)) (hk : x ∈ page n k (arr k)) : j = k := by
  have hpage : ∀ {k}, x ∈ page n k (arr k) → before key (xs k) x / n = k := by
    intro k hk
    have hmem : x ∈ xs k := (harr k).perm.subset (List.mem_of_mem_drop (List.mem_of_mem_take hk))
    exact ((harr k).mem_page_iff (hxs k) hn hmem (hu k hmem) k).mp hk
  have hanti : Antitone fun k => before key (xs k) x / n := antitone_nat_of_succ_le fun k =>
    Nat.div_le_div_right (before_mono (hxs (k + 1)) (hshrink k) x)
  have hg := hpage hj
  have hg' := hpage hk
  rcases Nat.le_total j k with hle | hle
  · have : before key (xs k) x / n ≤ before key (xs j) x / n := hanti hle
    omega
  · have : before key (xs j) x / n ≤ before key (xs k) x / n := hanti hle
    omega

end Turns

end Paging
