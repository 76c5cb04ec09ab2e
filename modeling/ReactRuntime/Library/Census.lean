import Mathlib.Algebra.BigOperators.Group.Finset.Piecewise
import Mathlib.Data.Fintype.Basic

/-!
# How many parties are at a place

When one party moves, its old place has one less and its new place one more.
-/
namespace ReactRuntime.Library
open scoped BigOperators
variable {τ P : Type} [Fintype τ] [DecidableEq P]

def census (pc : τ → P) (p : P) : Nat := (Finset.univ.filter fun t => pc t = p).card

section
variable {pc : τ → P} {p q : P} {t : τ}

theorem census_pos : 0 < census pc p ↔ ∃ t, pc t = p := by
  rw [census, Finset.card_pos]
  constructor
  · rintro ⟨t, ht⟩
    exact ⟨t, (Finset.mem_filter.mp ht).2⟩
  · rintro ⟨t, ht⟩
    exact ⟨t, Finset.mem_filter.mpr ⟨Finset.mem_univ t, ht⟩⟩

theorem census_eq_zero : census pc p = 0 ↔ ∀ t, pc t ≠ p := by
  rw [← not_iff_not, ← Ne, ← Nat.pos_iff_ne_zero, census_pos]
  push Not
  rfl

/-- One party moves to `p`. -/
theorem census_update [DecidableEq τ] (pc : τ → P) (t : τ) (p q : P) :
    census (Function.update pc t p) q + (if pc t = q then 1 else 0) =
      census pc q + (if p = q then 1 else 0) := by
  have hrest : ∀ place : τ → P, census place q =
      (if place t = q then 1 else 0) + ∑ u ∈ Finset.univ.erase t, if place u = q then 1 else 0 := by
    intro place
    rw [census, Finset.card_filter]
    exact (Finset.add_sum_erase Finset.univ (fun u => if place u = q then 1 else 0) (Finset.mem_univ t)).symm
  have hsame : ∑ u ∈ Finset.univ.erase t, (if Function.update pc t p u = q then 1 else 0) =
      ∑ u ∈ Finset.univ.erase t, if pc u = q then 1 else 0 := by
    apply Finset.sum_congr rfl
    intro u hu
    rw [Function.update_of_ne (Finset.ne_of_mem_erase hu)]
  rw [hrest, hrest pc, hsame, Function.update_self]
  omega

end
end ReactRuntime.Library
