import Mathlib.Data.List.Basic

/-!
# Filling a budget

Pieces are put one behind the other until there are as many elements as a budget has room for.
-/
namespace ReactRuntime.Library
variable {α : Type} {budget : Nat} {xs : List (List α)}

/-- How many pieces it takes to reach the budget. -/
def reach (budget : Nat) : List (List α) → Option Nat
  | [] => none
  | x :: xs => if budget ≤ x.length then some 1 else (reach (budget - x.length) xs).map (· + 1)

/-- The budget is never reached by pieces that are too short together. -/
theorem reach_eq_none (hpos : 0 < budget) : reach budget xs = none ↔ xs.flatten.length < budget := by
  induction xs generalizing budget with
  | nil => simpa [reach] using hpos
  | cons x xs ih =>
    rw [reach, List.flatten_cons, List.length_append]
    split_ifs with hx
    · simp only [false_iff]
      omega
    · rw [Option.map_eq_none_iff, ih (by omega)]
      omega

/-- The pieces that it takes do reach the budget. -/
theorem le_of_reach {n : Nat} (h : reach budget xs = some n) :
    budget ≤ (xs.take n).flatten.length := by
  induction xs generalizing budget n with
  | nil => cases h
  | cons x xs ih =>
    rw [reach] at h
    split_ifs at h with hx
    · cases h
      simpa using hx
    · obtain ⟨m, hm, rfl⟩ := Option.map_eq_some_iff.mp h
      have hrest := ih hm
      rw [List.take_succ_cons, List.flatten_cons, List.length_append]
      omega

end ReactRuntime.Library
