import Mathlib.Data.List.Nodup

/-!
# Tables with a unique key

A `Table key` is a list of rows in which no two rows have the same key: the rows of a relation
with a primary key or a unique constraint. The field `nodup` keeps the constraint, so a table
that violates it cannot be built: `insert?` of a row whose key is taken is `none`.

A table is read by key (`get?`), and every operation is described by what `get?` gives after it
(`get?_insert`, `get?_erase`, `get?_modify`); the order of the rows does not matter.
-/

namespace Rel

/-- Rows with pairwise different keys. -/
structure Table {κ ρ : Type} (key : ρ → κ) where
  rows : List ρ
  nodup : (rows.map key).Nodup

namespace Table

variable {κ ρ : Type} {key : ρ → κ}

/-- The table without rows. -/
def empty : Table key := ⟨[], by simp⟩

instance : Membership ρ (Table key) := ⟨fun t r => r ∈ t.rows⟩

theorem mem_def {t : Table key} {r : ρ} : r ∈ t ↔ r ∈ t.rows := Iff.rfl

@[simp] theorem not_mem_empty (r : ρ) : r ∉ (empty : Table key) := by simp [mem_def, empty]

/-- Two rows with the same key are the same row. -/
theorem eq_of_key {t : Table key} {r r' : ρ} (h : r ∈ t) (h' : r' ∈ t) (he : key r = key r') :
    r = r' := List.inj_on_of_nodup_map t.nodup h h' he

/-- `f` on the rows that satisfy `p` (`UPDATE .. SET .. WHERE p`). It keeps the keys. -/
def modify (t : Table key) (p : ρ → Bool) (f : ρ → ρ) (hf : ∀ r, key (f r) = key r) :
    Table key where
  rows := t.rows.map fun r => if p r then f r else r
  nodup := by
    have e : (t.rows.map fun r => if p r then f r else r).map key = t.rows.map key := by
      rw [List.map_map]
      refine List.map_congr_left fun r _ => ?_
      by_cases h : p r
      · simp [h, hf]
      · simp [h]
    rw [e]; exact t.nodup

/-- The rows that do not satisfy `p` (`DELETE .. WHERE p`). -/
def delete (t : Table key) (p : ρ → Bool) : Table key where
  rows := t.rows.filter fun r => !p r
  nodup := (List.filter_sublist.map key).nodup t.nodup

theorem mem_modify {t : Table key} {p : ρ → Bool} {f : ρ → ρ} {hf : ∀ r, key (f r) = key r}
    {r : ρ} : r ∈ t.modify p f hf ↔ ∃ r₀ ∈ t, r = if p r₀ then f r₀ else r₀ := by
  simp only [mem_def, modify, List.mem_map]
  exact ⟨fun ⟨a, h, e⟩ => ⟨a, h, e.symm⟩, fun ⟨a, h, e⟩ => ⟨a, h, e.symm⟩⟩

/-- Only what the functions do to the rows with `p` counts. -/
theorem modify_congr {t : Table key} {p : ρ → Bool} {f g : ρ → ρ} (hf : ∀ r, key (f r) = key r)
    (hg : ∀ r, key (g r) = key r) (h : ∀ r ∈ t, p r = true → f r = g r) :
    t.modify p f hf = t.modify p g hg := by
  have hrows : (t.modify p f hf).rows = (t.modify p g hg).rows := by
    refine List.map_congr_left fun r hr => ?_
    split
    · next hp => exact h r hr hp
    · rfl
  cases hx : t.modify p f hf
  cases hy : t.modify p g hg
  rw [hx, hy] at hrows
  cases hrows; rfl

theorem mem_delete {t : Table key} {p : ρ → Bool} {r : ρ} :
    r ∈ t.delete p ↔ r ∈ t ∧ p r = false := by
  simp [mem_def, delete]

@[ext] theorem ext {t t' : Table key} (h : t.rows = t'.rows) : t = t' := by
  cases t; cases t'; cases h; rfl

theorem delete_comm (t : Table key) (p q : ρ → Bool) :
    (t.delete p).delete q = (t.delete q).delete p := by
  ext1
  simp only [delete, List.filter_filter, Bool.and_comm]

variable [DecidableEq κ]

/-- The row with the key `k`. -/
def get? (t : Table key) (k : κ) : Option ρ := t.rows.find? fun r => key r = k

/-- Insert a row; `none` if its key is taken. -/
def insert? (t : Table key) (r : ρ) : Option (Table key) :=
  if h : key r ∈ t.rows.map key then none
  else some ⟨t.rows ++ [r], by
    rw [List.map_append]
    exact List.Nodup.append t.nodup (by simp) (by simpa using fun x hx e => h (by
      rw [← e]; exact List.mem_map_of_mem hx))⟩

theorem get?_eq_some {t : Table key} {k : κ} {r : ρ} :
    t.get? k = some r ↔ r ∈ t ∧ key r = k := by
  constructor
  · intro h
    exact ⟨List.mem_of_find?_eq_some h, by simpa using List.find?_some h⟩
  · rintro ⟨h, rfl⟩
    cases e : t.get? (key r) with
    | none =>
      have := List.find?_eq_none.mp e r h
      simp at this
    | some r' =>
      have h' : r' ∈ t := List.mem_of_find?_eq_some e
      have hk : key r' = key r := by simpa using List.find?_some e
      rw [eq_of_key h' h hk]

theorem get?_eq_none {t : Table key} {k : κ} : t.get? k = none ↔ ∀ r ∈ t, key r ≠ k := by
  simp [get?, mem_def]

theorem get?_mem {t : Table key} {r : ρ} (h : r ∈ t) : t.get? (key r) = some r :=
  get?_eq_some.mpr ⟨h, rfl⟩

@[simp] theorem get?_empty (k : κ) : (empty : Table key).get? k = none := rfl

theorem insert?_eq_some {t t' : Table key} {r : ρ} (h : t.insert? r = some t') :
    t.get? (key r) = none ∧ t'.rows = t.rows ++ [r] := by
  unfold insert? at h
  split at h
  · cases h
  · next hn =>
    cases h
    refine ⟨get?_eq_none.mpr fun r' hr' e => hn ?_, rfl⟩
    rw [← e]; exact List.mem_map_of_mem hr'

/-- A row whose key is not taken can be inserted. -/
theorem exists_insert {t : Table key} {r : ρ} (h : t.get? (key r) = none) :
    ∃ t', t.insert? r = some t' := by
  have hn : key r ∉ t.rows.map key := by
    intro hm
    obtain ⟨x, hx, hk⟩ := List.mem_map.mp hm
    exact get?_eq_none.mp h x hx hk
  exact ⟨_, dif_neg hn⟩

theorem mem_insert {t t' : Table key} {r x : ρ} (h : t.insert? r = some t') :
    x ∈ t' ↔ x ∈ t ∨ x = r := by
  rw [mem_def, (insert?_eq_some h).2]; simp [mem_def]

theorem get?_insert {t t' : Table key} {r : ρ} (h : t.insert? r = some t') (k : κ) :
    t'.get? k = if k = key r then some r else t.get? k := by
  split
  · next e => exact get?_eq_some.mpr ⟨(mem_insert h).mpr (.inr rfl), e.symm⟩
  · next e =>
    cases hg : t.get? k with
    | none =>
      refine get?_eq_none.mpr fun x hx => ?_
      rcases (mem_insert h).mp hx with hx | rfl
      · exact get?_eq_none.mp hg x hx
      · exact fun e' => e e'.symm
    | some x =>
      obtain ⟨hx, hk⟩ := get?_eq_some.mp hg
      exact get?_eq_some.mpr ⟨(mem_insert h).mpr (.inl hx), hk⟩

/-- The deletion of the only row with its key undoes its insertion. -/
theorem delete_insert {t t' : Table key} {r : ρ} {p : ρ → Bool} (h : t.insert? r = some t')
    (hp : ∀ x, p x = true ↔ key x = key r) : t'.delete p = t := by
  obtain ⟨hnew, hrows⟩ := insert?_eq_some h
  have hold : t.rows.filter (fun x => !p x) = t.rows :=
    List.filter_eq_self.mpr fun x hx => by
      rw [Bool.not_eq_true', ← Bool.not_eq_true, hp]
      exact get?_eq_none.mp hnew x hx
  have hr : p r = true := (hp r).mpr rfl
  ext1
  simp [delete, hrows, hold, hr]

theorem get?_modify {t : Table key} {p : ρ → Bool} {f : ρ → ρ} {hf : ∀ r, key (f r) = key r}
    (k : κ) : (t.modify p f hf).get? k = (t.get? k).map fun r => if p r then f r else r := by
  have hkey : ∀ r, key (if p r then f r else r) = key r := fun r => by
    by_cases h : p r
    · simp [h, hf]
    · simp [h]
  cases hg : t.get? k with
  | none =>
    refine get?_eq_none.mpr fun x hx => ?_
    obtain ⟨r, hr, rfl⟩ := mem_modify.mp hx
    rw [hkey]; exact get?_eq_none.mp hg r hr
  | some r =>
    obtain ⟨hr, hk⟩ := get?_eq_some.mp hg
    exact get?_eq_some.mpr ⟨mem_modify.mpr ⟨r, hr, rfl⟩, by rw [hkey, hk]⟩

theorem get?_delete {t : Table key} {p : ρ → Bool} (k : κ) :
    (t.delete p).get? k = (t.get? k).filter fun r => !p r := by
  cases hg : t.get? k with
  | none =>
    refine get?_eq_none.mpr fun x hx => ?_
    exact get?_eq_none.mp hg x (mem_delete.mp hx).1
  | some r =>
    obtain ⟨hr, hk⟩ := get?_eq_some.mp hg
    cases hp : p r with
    | false => simp only [Option.filter, hp, Bool.not_false, ↓reduceIte]
               exact get?_eq_some.mpr ⟨mem_delete.mpr ⟨hr, hp⟩, hk⟩
    | true =>
      simp only [Option.filter, hp, Bool.not_true, Bool.false_eq_true, ↓reduceIte]
      refine get?_eq_none.mpr fun x hx e => ?_
      obtain ⟨hx, hpx⟩ := mem_delete.mp hx
      rw [eq_of_key hx hr (e.trans hk.symm), hp] at hpx
      cases hpx

end Table

end Rel
