import Mathlib.Algebra.GroupWithZero.Nat
import Mathlib.Data.List.AList
import Mathlib.Data.List.Induction

/-!
# Dictionaries that are filled in a loop

A `Dict` maps each key to at most one value. `ofList l` is the dictionary after the assignments of
`l` in order, so the last assignment of a key wins. `total w d` adds a weight of the values up.

Assigning a key again loses the weight of the value that it had (`total_insert`). So the weights of
the dictionary add up to those of the assignments exactly when no value of a positive weight is
overwritten (`total_ofList_iff`). The order of the keys is not used.
-/

/-- A dictionary. -/
abbrev Dict (κ ν : Type) : Type := AList fun _ : κ => ν

namespace Dict

variable {κ ν : Type} [DecidableEq κ]

/-- `d.get(k, 0)`. -/
def get (d : Dict κ Nat) (k : κ) : Nat := (d.lookup k).getD 0

/-- `d[k] = d.get(k, 0) + 1`. -/
def increment (d : Dict κ Nat) (k : κ) : Dict κ Nat := d.insert k (get d k + 1)

/-- `if k not in d: d[k] = v`. -/
def setDefault (d : Dict κ ν) (k : κ) (v : ν) : Dict κ ν := if k ∈ d then d else d.insert k v

/-- `for k in ks: d[k] = f(d[k])`. -/
def modifyAll (f : ν → ν) (ks : List κ) (d : Dict κ ν) : Dict κ ν :=
  ks.foldl (fun d k => (d.lookup k).elim d fun v => d.insert k (f v)) d

/-- The assignments of a list in order. -/
def ofList (l : List (κ × ν)) : Dict κ ν := l.foldl (fun d p => d.insert p.1 p.2) ∅

/-- The sum of a weight over the values. -/
def total (w : ν → Nat) (d : Dict κ ν) : Nat := (d.entries.map fun e => w e.2).sum

theorem get_insert {d : Dict κ Nat} {k j : κ} {v : Nat} :
    get (d.insert k v) j = if j = k then v else get d j := by
  unfold get
  split
  · next e => rw [e, AList.lookup_insert]; rfl
  · next e => rw [AList.lookup_insert_ne e]

theorem get_increment {d : Dict κ Nat} {k j : κ} :
    get (increment d k) j = get d j + if j = k then 1 else 0 := by
  unfold increment
  rw [get_insert]
  split
  · next e => rw [e]
  · rfl

/-- A default of zero is not seen by `get`. -/
theorem get_setDefault {d : Dict κ Nat} {k j : κ} : get (setDefault d k 0) j = get d j := by
  unfold setDefault
  split
  · rfl
  · next hk =>
    rw [get_insert]
    split
    · next e => rw [e, get, AList.lookup_eq_none.mpr hk]; rfl
    · rfl

@[simp] theorem mem_setDefault {d : Dict κ ν} {k j : κ} {v : ν} :
    j ∈ setDefault d k v ↔ j = k ∨ j ∈ d := by
  unfold setDefault
  split
  · next hk => exact ⟨.inr, fun h => h.elim (fun e => e ▸ hk) id⟩
  · exact AList.mem_insert d

theorem modifyAll_cons (f : ν → ν) (k : κ) (ks : List κ) (d : Dict κ ν) :
    modifyAll f (k :: ks) d =
      modifyAll f ks ((d.lookup k).elim d fun v => d.insert k (f v)) := rfl

/-- The values of different keys are modified once each. -/
theorem lookup_modifyAll {f : ν → ν} {ks : List κ} (hks : ks.Nodup) (d : Dict κ ν) (j : κ) :
    (modifyAll f ks d).lookup j = if j ∈ ks then (d.lookup j).map f else d.lookup j := by
  induction ks generalizing d with
  | nil => rfl
  | cons k ks ih =>
    obtain ⟨hk, hks⟩ := List.nodup_cons.mp hks
    rw [modifyAll_cons, ih hks]
    by_cases e : j = k
    · subst e
      rw [if_neg hk, if_pos List.mem_cons_self]
      cases h : d.lookup j with
      | none => exact h
      | some v => exact AList.lookup_insert d
    · have hj : ((d.lookup k).elim d fun v => d.insert k (f v)).lookup j = d.lookup j := by
        cases d.lookup k with
        | none => rfl
        | some v => exact AList.lookup_insert_ne e
      simp [hj, e]

/-! ## Totals -/

variable {w : ν → Nat} {d : Dict κ ν} {k : κ} {v : ν}

/-- The weight of a key. -/
def weightAt (w : ν → Nat) (d : Dict κ ν) (k : κ) : Nat := (d.lookup k).elim 0 w

theorem total_erase : total w (d.erase k) + weightAt w d k = total w d := by
  have h : ∀ l : List (Sigma fun _ : κ => ν),
      ((l.kerase k).map fun e => w e.2).sum + (l.dlookup k).elim 0 w =
        (l.map fun e => w e.2).sum := by
    intro l
    induction l with
    | nil => rfl
    | cons e l ih =>
      by_cases hk : k = e.1
      · obtain ⟨j, v⟩ := e
        obtain rfl : k = j := hk
        simp [List.kerase_cons_eq, Nat.add_comm]
      · rw [List.kerase_cons_ne hk, List.dlookup_cons_ne l e hk, List.map_cons, List.map_cons,
          List.sum_cons, List.sum_cons, Nat.add_assoc, ih]
  exact h d.entries

/-- **The value that is overwritten** is lost. -/
theorem total_insert : total w (d.insert k v) + weightAt w d k = total w d + w v := by
  have h : total w (d.insert k v) = w v + total w (d.erase k) := by
    simp only [total, AList.entries_insert, List.map_cons, List.sum_cons]
    rfl
  have he : total w (d.erase k) + weightAt w d k = total w d := total_erase
  omega

/-- A modification that keeps the weights keeps their total. -/
theorem total_modifyAll {f : ν → ν} (hf : ∀ v, w (f v) = w v) (ks : List κ) (d : Dict κ ν) :
    total w (modifyAll f ks d) = total w d := by
  induction ks generalizing d with
  | nil => rfl
  | cons k ks ih =>
    rw [modifyAll_cons, ih]
    cases h : d.lookup k with
    | none => rfl
    | some v =>
      have hi : total w (d.insert k (f v)) + weightAt w d k = total w d + w (f v) := total_insert
      simp only [weightAt, h, hf, Option.elim_some] at hi ⊢
      omega

/-! ## The assignments of a list -/

theorem ofList_concat (l : List (κ × ν)) (p : κ × ν) :
    ofList (l ++ [p]) = (ofList l).insert p.1 p.2 := by
  simp [ofList]

theorem lookup_ofList_concat (l : List (κ × ν)) (p : κ × ν) (k : κ) :
    (ofList (l ++ [p])).lookup k = if k = p.1 then some p.2 else (ofList l).lookup k := by
  rw [ofList_concat]
  split
  · next e => rw [e, AList.lookup_insert]
  · next e => rw [AList.lookup_insert_ne e]

/-- A key has the value of one of its assignments. -/
theorem lookup_ofList (l : List (κ × ν)) {p : κ × ν} (hp : p ∈ l) :
    ∃ v, (ofList l).lookup p.1 = some v ∧ (p.1, v) ∈ l := by
  induction l using List.reverseRec generalizing p with
  | nil => cases hp
  | append_singleton l q ih =>
    rw [lookup_ofList_concat]
    split
    · next e => exact ⟨q.2, rfl, by rw [e]; simp⟩
    · next e =>
      rcases List.mem_append.mp hp with hp | hp
      · obtain ⟨v, hv, hmem⟩ := ih hp
        exact ⟨v, hv, List.mem_append_left _ hmem⟩
      · exact absurd (by rw [List.mem_singleton.mp hp]) e

theorem mem_of_lookup_ofList (l : List (κ × ν)) (h : (ofList l).lookup k = some v) :
    (k, v) ∈ l := by
  induction l using List.reverseRec with
  | nil => cases h
  | append_singleton l q ih =>
    rw [lookup_ofList_concat] at h
    split at h
    · next e => cases h; rw [e]; simp
    · exact List.mem_append_left _ (ih h)

/-- Assignments of one function. -/
theorem lookup_ofList_map (f : κ → ν) (ks : List κ) (k : κ) :
    (ofList (ks.map fun j => (j, f j))).lookup k = if k ∈ ks then some (f k) else none := by
  split
  · next hk =>
    obtain ⟨v, hv, hmem⟩ := lookup_ofList _ (List.mem_map_of_mem (f := fun j => (j, f j)) hk)
    obtain ⟨j, -, he⟩ := List.mem_map.mp hmem
    cases he; exact hv
  · next hk =>
    refine Option.eq_none_iff_forall_ne_some.mpr fun v hv => hk ?_
    obtain ⟨j, hj, he⟩ := List.mem_map.mp (mem_of_lookup_ofList _ hv)
    cases he; exact hj

/-- The sum of a weight over the assignments. -/
def weights (w : ν → Nat) (l : List (κ × ν)) : Nat := (l.map fun p => w p.2).sum

theorem total_ofList_le (l : List (κ × ν)) : total w (ofList l) ≤ weights w l := by
  induction l using List.reverseRec with
  | nil => exact Nat.le_refl 0
  | append_singleton l p ih =>
    have h : total w (ofList (l ++ [p])) + weightAt w (ofList l) p.1 =
        total w (ofList l) + w p.2 := by rw [ofList_concat, total_insert]
    simp only [weights, List.map_append, List.map_singleton, List.sum_append,
      List.sum_singleton] at ih ⊢
    omega

/-- An assignment that is overwritten has the weight zero, or it is the last one of its key. -/
theorem weight_or_last {l : List (κ × ν)} (h : l.Pairwise fun p q => p.1 = q.1 → w p.2 = 0)
    {p : κ × ν} (hp : p ∈ l) : w p.2 = 0 ∨ (ofList l).lookup p.1 = some p.2 := by
  induction l using List.reverseRec with
  | nil => cases hp
  | append_singleton l q ih =>
    obtain ⟨hl, -, hlast⟩ := List.pairwise_append.mp h
    rw [lookup_ofList_concat]
    rcases List.mem_append.mp hp with hp | hp
    · split
      · next e => exact .inl (hlast p hp q (List.mem_singleton_self q) e)
      · exact ih hl hp
    · rw [List.mem_singleton.mp hp]
      exact .inr (if_pos rfl)

/-- **The weights add up** exactly when only values of weight zero are overwritten. -/
theorem total_ofList_iff (l : List (κ × ν)) : total w (ofList l) = weights w l ↔
    l.Pairwise fun p q => p.1 = q.1 → w p.2 = 0 := by
  induction l using List.reverseRec with
  | nil => exact ⟨fun _ => .nil, fun _ => rfl⟩
  | append_singleton l q ih =>
    have h : total w (ofList (l ++ [q])) + weightAt w (ofList l) q.1 =
        total w (ofList l) + w q.2 := by rw [ofList_concat, total_insert]
    have hle : total w (ofList l) ≤ weights w l := total_ofList_le l
    have hsum : weights w (l ++ [q]) = weights w l + w q.2 := by simp [weights]
    rw [List.pairwise_append, hsum]
    simp only [List.pairwise_singleton, true_and, List.mem_singleton, forall_eq]
    constructor
    · intro he
      have hpair := ih.mp (by omega)
      refine ⟨hpair, fun p hp hkey => ?_⟩
      rcases weight_or_last hpair hp with hz | hv
      · exact hz
      · -- `p` is the assignment that is overwritten, and its weight is lost
        have : weightAt w (ofList l) q.1 = w p.2 := by rw [weightAt, ← hkey, hv]; rfl
        omega
    · rintro ⟨hpair, hlast⟩
      have hkey : weightAt w (ofList l) q.1 = 0 := by
        unfold weightAt
        cases hv : (ofList l).lookup q.1 with
        | none => rfl
        | some v => exact hlast _ (mem_of_lookup_ofList l hv) rfl
      have := ih.mpr hpair
      omega

end Dict
