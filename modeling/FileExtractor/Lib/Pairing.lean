import FileExtractor.Lib.Table
import Mathlib.Data.Set.Function

/-!
# Tables that are paired row by row

Two tables that are written together: every row of the first has its partner in the second. The
partner is given by a link from the first table to the keys of the second, which need not be a
column of either (`link` may be a ghost).

`Paired` is the invariant. It is kept by the insertion of a new pair (`Paired.insert`), by the
deletion of a pair on both sides, each by its own key (`Paired.delete`), and by a new link that
agrees with the old one on the rows (`Paired.relink`); and it is a bijection between the rows
(`Paired.exists_bijOn`).
-/

namespace Rel

variable {α β κ μ : Type} {ka : α → κ} {kb : β → μ}

/-- `link` maps the rows of `A` one to one onto the keys of `B`, and partners match. -/
structure Paired (A : Table ka) (B : Table kb) (link : α → Option μ) (Match : α → β → Prop) :
    Prop where
  linked : ∀ {a}, a ∈ A → ∃ b ∈ B, link a = some (kb b) ∧ Match a b
  covered : ∀ {b}, b ∈ B → ∃ a ∈ A, link a = some (kb b)
  injective : ∀ {a a'}, a ∈ A → a' ∈ A → link a = link a' → a = a'

namespace Paired

variable {A A' : Table ka} {B B' : Table kb} {link link' : α → Option μ} {Match : α → β → Prop}

theorem empty : Paired (Table.empty : Table ka) (Table.empty : Table kb) link Match where
  linked h := absurd h (Table.not_mem_empty _)
  covered h := absurd h (Table.not_mem_empty _)
  injective h := absurd h (Table.not_mem_empty _)

theorem relink (h : Paired A B link Match) (he : ∀ a ∈ A, link' a = link a) :
    Paired A B link' Match where
  linked ha := by rw [he _ ha]; exact h.linked ha
  covered hb := by
    obtain ⟨a, ha, hl⟩ := h.covered hb
    exact ⟨a, ha, by rw [he a ha, hl]⟩
  injective ha ha' e := h.injective ha ha' (by rw [← he _ ha, ← he _ ha', e])

/-- The partner of a row is the row of `B` with the key that the row is linked to. -/
theorem partner (h : Paired A B link Match) {a : α} {b : β} (ha : a ∈ A) (hb : b ∈ B)
    (hl : link a = some (kb b)) : Match a b := by
  obtain ⟨b', hb', hl', hm⟩ := h.linked ha
  have hk : kb b = kb b' := Option.some.inj (hl.symm.trans hl')
  rw [Table.eq_of_key hb hb' hk]; exact hm

theorem insert [DecidableEq κ] [DecidableEq μ] (h : Paired A B link Match) {a : α} {b : β}
    (hA : A.insert? a = some A') (hB : B.insert? b = some B') (hl : link a = some (kb b))
    (hm : Match a b) : Paired A' B' link Match := by
  -- a row of `A` is linked to a row of `B`, which has another key than `b`
  have hne : ∀ {x}, x ∈ A → link x ≠ link a := by
    intro x hx e
    obtain ⟨y, hy, hly, -⟩ := h.linked hx
    have hk : kb y = kb b := Option.some.inj (hly.symm.trans (e.trans hl))
    exact Table.get?_eq_none.mp (Table.insert?_eq_some hB).1 y hy hk
  refine ⟨fun hx => ?_, fun hy => ?_, fun hx hx' e => ?_⟩
  · rcases (Table.mem_insert hA).mp hx with hx | rfl
    · obtain ⟨y, hy, hly, hmy⟩ := h.linked hx
      exact ⟨y, (Table.mem_insert hB).mpr (.inl hy), hly, hmy⟩
    · exact ⟨b, (Table.mem_insert hB).mpr (.inr rfl), hl, hm⟩
  · rcases (Table.mem_insert hB).mp hy with hy | rfl
    · obtain ⟨x, hx, hlx⟩ := h.covered hy
      exact ⟨x, (Table.mem_insert hA).mpr (.inl hx), hlx⟩
    · exact ⟨a, (Table.mem_insert hA).mpr (.inr rfl), hl⟩
  · rcases (Table.mem_insert hA).mp hx with hx | rfl <;>
      rcases (Table.mem_insert hA).mp hx' with hx' | rfl
    · exact h.injective hx hx' e
    · exact absurd e (hne hx)
    · exact absurd e.symm (hne hx')
    · rfl

theorem delete [DecidableEq κ] [DecidableEq μ] (h : Paired A B link Match) {a : α} {k : μ}
    (ha : a ∈ A) (hl : link a = some k) :
    Paired (A.delete fun x => ka x = ka a) (B.delete fun y => kb y = k) link Match := by
  have hmem : ∀ {x}, x ∈ A.delete (fun x => ka x = ka a) ↔ x ∈ A ∧ x ≠ a := by
    intro x
    rw [Table.mem_delete, decide_eq_false_iff_not]
    exact and_congr_right fun hx =>
      not_congr ⟨fun e => Table.eq_of_key hx ha e, fun e => by rw [e]⟩
  refine ⟨fun hx => ?_, fun hy => ?_, fun hx hx' e => ?_⟩
  · obtain ⟨hx, hne⟩ := hmem.mp hx
    obtain ⟨y, hy, hly, hm⟩ := h.linked hx
    refine ⟨y, Table.mem_delete.mpr ⟨hy, ?_⟩, hly, hm⟩
    rw [decide_eq_false_iff_not]
    exact fun e => hne (h.injective hx ha (by rw [hly, hl, e]))
  · obtain ⟨hy, hne⟩ := Table.mem_delete.mp hy
    rw [decide_eq_false_iff_not] at hne
    obtain ⟨x, hx, hlx⟩ := h.covered hy
    refine ⟨x, hmem.mpr ⟨hx, fun e => hne ?_⟩, hlx⟩
    subst e
    exact Option.some.inj (hlx.symm.trans hl)
  · exact h.injective (hmem.mp hx).1 (hmem.mp hx').1 e

/-- **The bijection**: each row of `B` with the one row of `A` that is linked to it. -/
theorem exists_bijOn [Nonempty α] (h : Paired A B link Match) :
    ∃ f : β → α, Set.BijOn f {b | b ∈ B} {a | a ∈ A} ∧
      ∀ b ∈ B, link (f b) = some (kb b) ∧ Match (f b) b := by
  have hex : ∀ b ∈ B, ∃ a ∈ A, link a = some (kb b) := fun b hb => h.covered hb
  choose! f hf using hex
  refine ⟨f, ⟨fun b hb => (hf b hb).1, fun b hb b' hb' e => ?_, fun a ha => ?_⟩,
    fun b hb => ⟨(hf b hb).2, h.partner (hf b hb).1 hb (hf b hb).2⟩⟩
  · have hk : kb b = kb b' := Option.some.inj ((hf b hb).2.symm.trans (e ▸ (hf b' hb').2))
    exact Table.eq_of_key hb hb' hk
  · obtain ⟨b, hb, hl, -⟩ := h.linked ha
    exact ⟨b, hb, h.injective (hf b hb).1 ha ((hf b hb).2.trans hl.symm)⟩

end Paired

end Rel
