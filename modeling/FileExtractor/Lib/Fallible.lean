import Mathlib.Data.List.Basic

/-!
# Computations that may fail

What a computation in `Except` that has succeeded says of its parts: both parts of a `bind` have
succeeded, and in a `mapM` the function has succeeded on each element.
-/

namespace Fallible

variable {ε α β : Type}

theorem bind_eq_ok {x : Except ε α} {f : α → Except ε β} {b : β} :
    x >>= f = .ok b ↔ ∃ a, x = .ok a ∧ f a = .ok b := by
  cases x with
  | error e =>
    constructor
    · intro h; cases h
    · rintro ⟨a, ha, -⟩; cases ha
  | ok a =>
    constructor
    · exact fun h => ⟨a, rfl, h⟩
    · rintro ⟨a', ha, h⟩; cases ha; exact h

variable {f : α → Except ε β} {xs : List α}

theorem mapM_ok {g : α → β} (h : ∀ x ∈ xs, f x = .ok (g x)) : xs.mapM f = .ok (xs.map g) := by
  induction xs with
  | nil => rfl
  | cons x xs ih =>
    rw [List.mapM_cons, h x List.mem_cons_self, ih fun y hy => h y (List.mem_cons_of_mem x hy)]
    rfl

theorem exists_mapM_ok (h : ∀ x ∈ xs, ∃ y, f x = .ok y) : ∃ ys, xs.mapM f = .ok ys := by
  induction xs with
  | nil => exact ⟨[], rfl⟩
  | cons x xs ih =>
    obtain ⟨y, hy⟩ := h x List.mem_cons_self
    obtain ⟨ys, hys⟩ := ih fun x' hx => h x' (List.mem_cons_of_mem x hx)
    exact ⟨y :: ys, by rw [List.mapM_cons, hy, hys]; rfl⟩

theorem mem_of_mapM_ok {ys : List β} (h : xs.mapM f = .ok ys) :
    (∀ x ∈ xs, ∃ y ∈ ys, f x = .ok y) ∧ ∀ y ∈ ys, ∃ x ∈ xs, f x = .ok y := by
  induction xs generalizing ys with
  | nil => cases h; simp
  | cons x xs ih =>
    rw [List.mapM_cons] at h
    obtain ⟨y, hx, h⟩ := bind_eq_ok.mp h
    obtain ⟨rest, hxs, h⟩ := bind_eq_ok.mp h
    cases h
    obtain ⟨h₁, h₂⟩ := ih hxs
    constructor
    · intro x' hx'
      rcases List.mem_cons.mp hx' with rfl | hx'
      · exact ⟨y, List.mem_cons_self, hx⟩
      · obtain ⟨y', hy', he⟩ := h₁ x' hx'
        exact ⟨y', List.mem_cons_of_mem y hy', he⟩
    · intro y' hy'
      rcases List.mem_cons.mp hy' with rfl | hy'
      · exact ⟨x, List.mem_cons_self, hx⟩
      · obtain ⟨x', hx', he⟩ := h₂ y' hy'
        exact ⟨x', List.mem_cons_of_mem x hx', he⟩

end Fallible
