import Mathlib.Data.List.Nodup

/-!
# Tokens that are held exclusively

Each of the holders `i` has a list `held i` of tokens, and no token is held twice, by one holder or
by two (`Exclusive`). Tokens are given up at any time (`shrink`); a new one is a token that nobody
holds (`grow`).
-/

namespace Tokens

variable {ι τ : Type}

/-- No token is held twice. -/
structure Exclusive (held : ι → List τ) : Prop where
  nodup : ∀ i, (held i).Nodup
  unique : ∀ {i j x}, x ∈ held i → x ∈ held j → i = j

namespace Exclusive

variable {held held' : ι → List τ}

theorem shrink (h : Exclusive held) (hs : ∀ i, (held' i).Sublist (held i)) : Exclusive held' where
  nodup i := (hs i).nodup (h.nodup i)
  unique hi hj := h.unique ((hs _).subset hi) ((hs _).subset hj)

theorem grow (h : Exclusive held) {i : ι} {x : τ} (hx : ∀ j, x ∉ held j)
    (hi : (held' i).Sublist (held i ++ [x])) (hs : ∀ j, j ≠ i → (held' j).Sublist (held j)) :
    Exclusive held' := by
  classical
  -- a token of `held'` is an old one of the same holder, or the new one of `i`
  have hmem : ∀ {j y}, y ∈ held' j → y ∈ held j ∨ j = i ∧ y = x := by
    intro j y hy
    by_cases hj : j = i
    · subst hj
      rcases List.mem_append.mp (hi.subset hy) with hy | hy
      · exact .inl hy
      · exact .inr ⟨rfl, List.mem_singleton.mp hy⟩
    · exact .inl ((hs j hj).subset hy)
  refine ⟨fun j => ?_, fun {j k y} hy hy' => ?_⟩
  · by_cases hj : j = i
    · subst hj
      refine hi.nodup (List.nodup_append'.mpr ⟨h.nodup j, List.nodup_singleton x, ?_⟩)
      exact List.disjoint_singleton.mpr (hx j)
    · exact (hs j hj).nodup (h.nodup j)
  · rcases hmem hy with hy | ⟨rfl, rfl⟩ <;> rcases hmem hy' with hy' | ⟨rfl, hxy⟩
    · exact h.unique hy hy'
    · exact absurd (hxy ▸ hy) (hx j)
    · exact absurd hy' (hx k)
    · rfl

/-- The first token of a holder is no other token. -/
theorem head_ne (h : Exclusive held) {i j : ι} {x y : τ} {rest : List τ} (hi : held i = x :: rest)
    (hy : y ∈ held j) (hj : j = i → y ∈ rest) : y ≠ x := by
  rintro rfl
  have hji : j = i := h.unique hy (by rw [hi]; exact List.mem_cons_self)
  have hn := h.nodup i
  rw [hi, List.nodup_cons] at hn
  exact hn.1 (hj hji)

end Exclusive

end Tokens
