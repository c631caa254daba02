import Mathlib.Data.List.GetD
import Mathlib.Order.WithBot
import Mathlib.Data.Finset.Max

/-! The first of the least entries of a list, where `⊤` stands for no entry. -/
namespace Soar.Library

variable {α : Type} [LinearOrder α] {P : Nat → α → Prop} {i j : Nat} {a b : α}

/-- Of the indices with a value, `i` is the first whose value `a` is the least. -/
structure FirstLeast (P : Nat → α → Prop) (i : Nat) (a : α) : Prop where
  holds : P i a
  least : ∀ j b, P j b → a ≤ b
  first : ∀ j < i, ∀ b, P j b → a < b

theorem FirstLeast.unique (h : FirstLeast P i a) (h' : FirstLeast P j b) : i = j ∧ a = b := by
  have hab : a = b := le_antisymm (h.least j b h'.holds) (h'.least i a h.holds)
  refine ⟨?_, hab⟩
  rcases lt_trichotomy i j with hlt | heq | hgt
  · exact absurd (h'.first i hlt a h.holds) hab.not_gt
  · exact heq
  · exact absurd (h.first j hgt b h'.holds) hab.symm.not_gt

/-- The list has the values of the indices that have one. -/
def Lists (P : Nat → α → Prop) (l : List (WithTop α)) : Prop := ∀ i a, P i a ↔ l[i]? = some (a : WithTop α)

variable {l : List (WithTop α)}

/-- The first least entry of the list is the first least value, if there is a value. -/
theorem Lists.firstLeast (h : Lists P l) {x : WithTop α} (hx : FirstLeast (fun i x => l[i]? = some x) i x) :
    (l.getD i ⊤ = ⊤ ∧ ∀ j a, ¬ P j a) ∨ ∃ a : α, l.getD i ⊤ = a ∧ FirstLeast P i a := by
  have hget : l.getD i ⊤ = x := by rw [List.getD_eq_getElem?_getD, hx.holds, Option.getD_some]
  rw [hget]
  induction x using WithTop.recTopCoe with
  | top =>
    refine .inl ⟨rfl, fun j a hP => ?_⟩
    have hle := hx.least j a ((h j a).mp hP)
    rw [top_le_iff] at hle
    exact WithTop.coe_ne_top hle
  | coe a =>
    refine .inr ⟨a, rfl, (h i a).mpr hx.holds, fun j b hP => ?_, fun j hj b hP => ?_⟩
    · exact WithTop.coe_le_coe.mp (hx.least j b ((h j b).mp hP))
    · exact WithTop.coe_lt_coe.mp (hx.first j hj b ((h j b).mp hP))

/-- The first index whose entry is not above any other. -/
def firstLeast (l : List (WithTop α)) : Nat := l.findIdx fun x => ∀ y ∈ l, x ≤ y

/-- `firstLeast` finds the first of the least elements. -/
theorem firstLeast_spec (hne : l ≠ []) : ∃ x, FirstLeast (fun i x => l[i]? = some x) (firstLeast l) x := by
  have hi : firstLeast l < l.length := by
    unfold firstLeast
    rw [List.findIdx_lt_length]
    obtain ⟨x, hx⟩ := List.exists_mem_of_ne_nil l hne
    obtain ⟨m, hm, hle⟩ := l.toFinset.exists_min_image id ⟨x, List.mem_toFinset.mpr hx⟩
    refine ⟨m, List.mem_toFinset.mp hm, decide_eq_true fun y hy => ?_⟩
    exact hle y (List.mem_toFinset.mpr hy)
  have hmin : ∀ y ∈ l, l[firstLeast l] ≤ y := of_decide_eq_true (List.findIdx_getElem (w := hi))
  refine ⟨l[firstLeast l], List.getElem?_eq_getElem hi, ?_, ?_⟩
  · exact fun j b hb => hmin b (List.mem_of_getElem? hb)
  · intro j hj b hb
    obtain ⟨hjl, rfl⟩ := List.getElem?_eq_some_iff.mp hb
    have hnot := List.not_of_lt_findIdx hj
    by_contra hle
    exact of_decide_eq_false hnot fun y hy => (not_lt.mp hle).trans (hmin y hy)

end Soar.Library
