import Mathlib.Data.List.Nodup

/-!
# Sets in insertion order

An `OrderedSet` is a list without duplicates: `insert` puts a new element behind the others and
leaves a set that has it as it is, `erase` takes an element out, and `items` gives the elements in
the order of their first insertion.
-/

structure OrderedSet (α : Type) where
  items : List α
  nodup : items.Nodup

namespace OrderedSet

variable {α : Type}

def empty : OrderedSet α := ⟨[], List.nodup_nil⟩

instance : Membership α (OrderedSet α) := ⟨fun s a => a ∈ s.items⟩

theorem mem_items {s : OrderedSet α} {a : α} : a ∈ s.items ↔ a ∈ s := Iff.rfl

@[simp] theorem not_mem_empty (a : α) : a ∉ (empty : OrderedSet α) := List.not_mem_nil

variable [DecidableEq α]

instance (s : OrderedSet α) (a : α) : Decidable (a ∈ s) := inferInstanceAs (Decidable (a ∈ s.items))

def insert (s : OrderedSet α) (a : α) : OrderedSet α :=
  if h : a ∈ s.items then s
  else ⟨s.items ++ [a], s.nodup.append (List.nodup_singleton a) (by simpa using h)⟩

def erase (s : OrderedSet α) (a : α) : OrderedSet α := ⟨s.items.erase a, s.nodup.erase a⟩

/-- Insert the elements of a list, one after the other. -/
def insertAll (s : OrderedSet α) (as : List α) : OrderedSet α := as.foldl insert s

@[simp] theorem mem_insert {s : OrderedSet α} {a b : α} : b ∈ s.insert a ↔ b ∈ s ∨ b = a := by
  rw [← mem_items, ← mem_items, insert]
  split
  · next h => exact ⟨.inl, fun hb => hb.elim id fun e => e ▸ h⟩
  · rw [List.mem_append, List.mem_singleton]

@[simp] theorem mem_erase {s : OrderedSet α} {a b : α} : b ∈ s.erase a ↔ b ≠ a ∧ b ∈ s := by
  rw [← mem_items, ← mem_items, erase, s.nodup.mem_erase_iff]

@[simp] theorem mem_insertAll {s : OrderedSet α} {as : List α} {b : α} :
    b ∈ s.insertAll as ↔ b ∈ s ∨ b ∈ as := by
  unfold insertAll
  induction as generalizing s with
  | nil => simp
  | cons a as ih => rw [List.foldl_cons, ih, mem_insert, List.mem_cons, or_assoc]

end OrderedSet
