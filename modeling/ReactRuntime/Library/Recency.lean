import Mathlib.Data.List.Dedup
import Mathlib.Data.List.DropRight

/-!
# Recent keys

A store with room for `cap` keys keeps the keys that were used last. A key that is used moves to the
end; a new one pushes out the key that was not used for the longest time.
-/
namespace ReactRuntime.Library.Recency
variable {κ : Type} [DecidableEq κ] {cap : Nat} {uses keys : List κ} {key : κ}

/-- What the store holds after the next use of a key. -/
def use (cap : Nat) (keys : List κ) (key : κ) : List κ :=
  if key ∈ keys then keys.erase key ++ [key]
  else (if cap ≤ keys.length then keys.drop 1 else keys) ++ [key]

/-- The last `cap` distinct keys, in the order of their last use. -/
def recent (cap : Nat) (uses : List κ) : List κ := uses.dedup.rtake cap

theorem nodup_recent (cap : Nat) (uses : List κ) : (recent cap uses).Nodup :=
  uses.nodup_dedup.sublist (List.drop_sublist _ _)

theorem length_recent (cap : Nat) (uses : List κ) :
    (recent cap uses).length = min cap uses.dedup.length := by
  rw [recent, List.rtake, List.length_drop]
  omega

/-- The last use of a key decides its place. -/
theorem dedup_concat (uses : List κ) (key : κ) :
    (uses ++ [key]).dedup = uses.dedup.erase key ++ [key] := by
  induction uses with
  | nil => simp
  | cons first uses ih =>
    rw [List.cons_append]
    by_cases hfirst : first ∈ uses
    · rw [List.dedup_cons_of_mem hfirst, List.dedup_cons_of_mem (by simp [hfirst]), ih]
    · rw [List.dedup_cons_of_notMem hfirst]
      by_cases heq : first = key
      · subst heq
        rw [List.dedup_cons_of_mem (by simp), ih, List.erase_cons_head,
          List.erase_of_not_mem (by simpa using hfirst)]
      · rw [List.dedup_cons_of_notMem (by simp [hfirst, heq]), ih,
          List.erase_cons_tail (by simpa using heq), List.cons_append]

/-- The keys that stay when one more is used: the key itself leaves its place, or the oldest goes. -/
theorem rtake_erase {n : Nat} {old held : List κ} (hnodup : (old ++ held).Nodup)
    (hlength : old.length = (old ++ held).length - (n + 1)) (key : κ) :
    ((old ++ held).erase key).rtake n =
      if key ∈ held then held.erase key
      else if n + 1 ≤ held.length then held.drop 1 else held := by
  rw [List.length_append] at hlength
  have hdisjoint := List.disjoint_of_nodup_append hnodup
  split_ifs with hheld hfull
  · have hpos : 0 < held.length := List.length_pos_of_mem hheld
    rw [List.erase_append_right _ fun hold => hdisjoint hold hheld]
    apply List.drop_left'
    rw [List.length_append, List.length_erase_of_mem hheld]
    omega
  · by_cases hold : key ∈ old
    · have hpos : 0 < old.length := List.length_pos_of_mem hold
      rw [List.erase_append_left _ hold, List.rtake, List.drop_append, List.length_append,
        List.length_erase_of_mem hold, List.drop_of_length_le, List.nil_append]
      · congr 1
        omega
      · rw [List.length_erase_of_mem hold]
        omega
    · rw [List.erase_of_not_mem (by simp [hold, hheld]), List.rtake, List.drop_append,
        List.length_append, List.drop_of_length_le (by omega), List.nil_append]
      congr 1
      omega
  · have hnone : old = [] := List.length_eq_zero_iff.mp (by omega)
    subst hnone
    rw [List.nil_append, List.erase_of_not_mem hheld, List.rtake, Nat.sub_eq_zero_of_le (by omega),
      List.drop_zero]

/-- One more use of the keys that were used last. -/
theorem recent_concat (hcap : 0 < cap) (uses : List κ) (key : κ) :
    recent cap (uses ++ [key]) = use cap (recent cap uses) key := by
  obtain ⟨n, rfl⟩ : ∃ n, cap = n + 1 := ⟨cap - 1, by omega⟩
  obtain ⟨old, hold, hsplit⟩ : ∃ old, old.length = uses.dedup.length - (n + 1) ∧
      uses.dedup = old ++ recent (n + 1) uses := by
    refine ⟨uses.dedup.take (uses.dedup.length - (n + 1)), ?_, (List.take_append_drop _ _).symm⟩
    rw [List.length_take]
    omega
  have herase := rtake_erase (n := n) (hsplit ▸ uses.nodup_dedup) (hsplit ▸ hold) key
  rw [← hsplit] at herase
  have hconcat : recent (n + 1) (uses ++ [key]) = (uses.dedup.erase key).rtake n ++ [key] := by
    rw [recent, dedup_concat, List.rtake_concat_succ]
  rw [hconcat, herase, use]
  split_ifs <;> rfl

end ReactRuntime.Library.Recency
