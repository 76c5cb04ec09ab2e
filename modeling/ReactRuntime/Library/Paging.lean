import Mathlib.Data.List.Basic
import Mathlib.Order.Lattice

/-!
# Paging through a set that changes

A set is read in order, some elements at a time, each page from the set as it is then. Elements that
are there throughout are read, and each element is read once, whatever comes and goes in between.
-/
namespace ReactRuntime.Library
variable {κ : Type} [LinearOrder κ]

/-- What has been read so far, up to the element `after`. -/
structure Paged (stays known : κ → Prop) (after : Option κ) (out : List κ) : Prop where
  sorted : out.Pairwise (· < ·)
  bounded : ∀ k ∈ out, ∃ a, after = some a ∧ k ≤ a
  known : ∀ k ∈ out, known k
  complete : ∀ k, stays k → (∃ a, after = some a ∧ k ≤ a) → k ∈ out

variable {stays known : κ → Prop} {after : Option κ} {out keys : List κ}

/-- The elements beyond `after` at the moment of a page, in their order. -/
structure Beyond (stays known : κ → Prop) (after : Option κ) (keys : List κ) : Prop where
  sorted : keys.Pairwise (· < ·)
  beyond : ∀ k ∈ keys, ∀ a, after = some a → a < k
  known : ∀ k ∈ keys, known k
  complete : ∀ k, stays k → (∀ a, after = some a → a < k) → k ∈ keys

theorem Paged.start : Paged stays known none [] :=
  ⟨.nil, by simp, by simp, by simp⟩

theorem Paged.sorted_append (h : Paged stays known after out) (hkeys : Beyond stays known after keys)
    (n : Nat) : (out ++ keys.take n).Pairwise (· < ·) := by
  rw [List.pairwise_append]
  refine ⟨h.sorted, hkeys.sorted.sublist (List.take_sublist n keys), fun k hk j hj => ?_⟩
  obtain ⟨a, ha, hka⟩ := h.bounded k hk
  exact hka.trans_lt (hkeys.beyond j (List.mem_of_mem_take hj) a ha)

theorem Paged.known_append (h : Paged stays known after out) (hkeys : Beyond stays known after keys)
    (n : Nat) : ∀ k ∈ out ++ keys.take n, known k := by
  intro k hk
  rcases List.mem_append.mp hk with hk | hk
  · exact h.known k hk
  · exact hkeys.known k (List.mem_of_mem_take hk)

/-- An element that stays is read already, or is still to be read. -/
theorem Paged.mem_or_mem (h : Paged stays known after out) (hkeys : Beyond stays known after keys)
    {k : κ} (hk : stays k) : k ∈ out ∨ k ∈ keys := by
  by_cases hread : ∃ a, after = some a ∧ k ≤ a
  · exact .inl (h.complete k hk hread)
  · right
    apply hkeys.complete k hk
    intro a ha
    by_contra hle
    exact hread ⟨a, ha, not_lt.mp hle⟩

section
variable {n : Nat} {last : κ}

/-- The last element of a page is the largest of it. -/
theorem le_last_of_mem_take (hsorted : keys.Pairwise (· < ·))
    (hlast : (keys.take n).getLast? = some last) {k : κ} (hk : k ∈ keys.take n) : k ≤ last := by
  obtain ⟨page, hpage⟩ : ∃ page, keys.take n = page ++ [last] := List.getLast?_eq_some_iff.mp hlast
  have hordered : (page ++ [last]).Pairwise (· < ·) :=
    hpage ▸ hsorted.sublist (List.take_sublist n keys)
  rw [hpage] at hk
  rcases List.mem_append.mp hk with hk | hk
  · exact ((List.pairwise_append.mp hordered).2.2 k hk last List.mem_cons_self).le
  · exact (List.mem_singleton.mp hk).le

/-- What comes after a page lies beyond its last element. -/
theorem last_lt_of_mem_drop (hsorted : keys.Pairwise (· < ·))
    (hlast : (keys.take n).getLast? = some last) {k : κ} (hk : k ∈ keys.drop n) : last < k := by
  rw [← List.take_append_drop n keys, List.pairwise_append] at hsorted
  exact hsorted.2.2 last (List.mem_of_getLast? hlast) k hk

theorem filter_last_lt (hsorted : keys.Pairwise (· < ·))
    (hlast : (keys.take n).getLast? = some last) :
    (keys.filter fun k => decide (last < k)) = keys.drop n := by
  conv_lhs => rw [← List.take_append_drop n keys]
  have hpage : ((keys.take n).filter fun k => decide (last < k)) = [] := by
    rw [List.filter_eq_nil_iff]
    intro k hk
    simpa using le_last_of_mem_take hsorted hlast hk
  have hrest : ((keys.drop n).filter fun k => decide (last < k)) = keys.drop n := by
    rw [List.filter_eq_self]
    intro k hk
    simpa using last_lt_of_mem_drop hsorted hlast hk
  rw [List.filter_append, hpage, hrest, List.nil_append]

end

/-- A page that is not the last one. -/
theorem Paged.next (h : Paged stays known after out) (hkeys : Beyond stays known after keys)
    {n : Nat} {last : κ} (hlast : (keys.take n).getLast? = some last) :
    Paged stays known (some last) (out ++ keys.take n) := by
  refine ⟨h.sorted_append hkeys n, fun k hk => ⟨last, rfl, ?_⟩, h.known_append hkeys n, ?_⟩
  · rcases List.mem_append.mp hk with hk | hk
    · obtain ⟨a, ha, hka⟩ := h.bounded k hk
      have hmem : last ∈ keys.take n := List.mem_of_getLast? hlast
      exact hka.trans (hkeys.beyond last (List.mem_of_mem_take hmem) a ha).le
    · exact le_last_of_mem_take hkeys.sorted hlast hk
  · rintro k hk ⟨a, ha, hle⟩
    cases ha
    rcases h.mem_or_mem hkeys hk with hk | hk
    · exact List.mem_append_left _ hk
    · apply List.mem_append_right
      rw [← List.take_append_drop n keys, List.mem_append] at hk
      rcases hk with hk | hk
      · exact hk
      · exact absurd (last_lt_of_mem_drop hkeys.sorted hlast hk) (not_lt.mpr hle)

/-- The last page. -/
theorem Paged.finish (h : Paged stays known after out) (hkeys : Beyond stays known after keys)
    {n : Nat} (hn : keys.length ≤ n) : ∀ k, stays k → k ∈ out ++ keys.take n := by
  intro k hk
  rw [List.take_of_length_le hn]
  exact List.mem_append.mpr (h.mem_or_mem hkeys hk)

end ReactRuntime.Library
