import Mathlib.Data.List.Sort
import Mathlib.Data.Prod.Lex
import Mathlib.Order.MinMax
import ReactRuntime.Library.Sorting

/-!
# Half-open ranges

A list of ranges covers what lies in one of them. Ranges that overlap or touch are merged: the
merged ranges are apart from each other and cover the same.
-/
namespace ReactRuntime.Library.Ranges
variable {ι : Type} [LinearOrder ι]

def Covers (ranges : List (ι × ι)) (i : ι) : Prop := ∃ r ∈ ranges, r.1 ≤ i ∧ i < r.2

instance : DecidableRel (Covers (ι := ι)) := fun ranges i =>
  inferInstanceAs (Decidable (∃ r ∈ ranges, r.1 ≤ i ∧ i < r.2))

/-- The last range comes first. -/
def push (merged : List (ι × ι)) (r : ι × ι) : List (ι × ι) :=
  if r.1 < r.2 then
    match merged with
    | [] => [r]
    | last :: front =>
      if r.1 ≤ last.2 then (min last.1 r.1, max last.2 r.2) :: front else r :: last :: front
  else merged

def merge (ranges : List (ι × ι)) : List (ι × ι) :=
  ((sortBy toLex ranges).foldl push []).reverse

/-- No range is empty, and there is a gap between any two. -/
structure Apart (merged : List (ι × ι)) : Prop where
  lt : ∀ r ∈ merged, r.1 < r.2
  gap : merged.Pairwise fun later earlier => earlier.2 < later.1

section
variable {merged ranges more : List (ι × ι)} {r : ι × ι} {i : ι}

theorem covers_cons : Covers (r :: ranges) i ↔ (r.1 ≤ i ∧ i < r.2) ∨ Covers ranges i := by
  simp [Covers]

theorem covers_append : Covers (ranges ++ more) i ↔ Covers ranges i ∨ Covers more i := by
  simp only [Covers, List.mem_append, or_and_right, exists_or]

theorem Covers.of_perm (h : ranges.Perm more) : Covers ranges i ↔ Covers more i := by
  simp only [Covers, h.mem_iff]

/-- Two ranges of which the second starts inside the first one or at its end are one range. -/
theorem mem_union_iff {a b c d : ι} (hac : a ≤ c) (hcb : c ≤ b) :
    min a c ≤ i ∧ i < max b d ↔ (a ≤ i ∧ i < b) ∨ (c ≤ i ∧ i < d) := by
  rw [min_eq_left hac, lt_max_iff]
  constructor
  · rintro ⟨hai, hib | hid⟩
    · exact .inl ⟨hai, hib⟩
    · by_cases hib : i < b
      · exact .inl ⟨hai, hib⟩
      · exact .inr ⟨hcb.trans (not_lt.mp hib), hid⟩
  · rintro (⟨hai, hib⟩ | ⟨hci, hid⟩)
    · exact ⟨hai, .inl hib⟩
    · exact ⟨hac.trans hci, .inr hid⟩

theorem covers_push (h : Apart merged) (hstart : ∀ m ∈ merged, m.1 ≤ r.1) :
    Covers (push merged r) i ↔ Covers merged i ∨ (r.1 ≤ i ∧ i < r.2) := by
  unfold push
  split_ifs with hr
  · cases merged with
    | nil => simp [Covers]
    | cons last front =>
      dsimp only
      split_ifs with hle
      · rw [covers_cons, covers_cons, mem_union_iff (hstart last (by simp)) hle]
        tauto
      · rw [covers_cons, or_comm]
  · have hnone : ¬ (r.1 ≤ i ∧ i < r.2) := fun hi => hr (hi.1.trans_lt hi.2)
    rw [or_iff_left hnone]

theorem Apart.push (h : Apart merged) (hstart : ∀ m ∈ merged, m.1 ≤ r.1) : Apart (push merged r) := by
  unfold Ranges.push
  split_ifs with hr
  · cases merged with
    | nil => exact ⟨by simpa using hr, List.pairwise_singleton ..⟩
    | cons last front =>
      obtain ⟨hlt, hfront⟩ := List.forall_mem_cons.mp h.lt
      obtain ⟨hgap, hgaps⟩ := List.pairwise_cons.mp h.gap
      have hlast : last.1 ≤ r.1 := hstart last (by simp)
      dsimp only
      split_ifs with hle
      · rw [min_eq_left hlast]
        exact ⟨List.forall_mem_cons.mpr ⟨lt_max_of_lt_left hlt, hfront⟩,
          List.pairwise_cons.mpr ⟨hgap, hgaps⟩⟩
      · refine ⟨List.forall_mem_cons.mpr ⟨hr, h.lt⟩, List.pairwise_cons.mpr ⟨?_, h.gap⟩⟩
        intro m hm
        rcases List.mem_cons.mp hm with rfl | hm
        · exact not_le.mp hle
        · exact (hgap m hm).trans (hlt.trans (not_le.mp hle))
  · exact h

theorem start_push (hstart : ∀ m ∈ merged, m.1 ≤ r.1) : ∀ m ∈ push merged r, m.1 ≤ r.1 := by
  unfold push
  split_ifs
  · cases merged with
    | nil => simp
    | cons last front =>
      dsimp only
      obtain ⟨-, hfront⟩ := List.forall_mem_cons.mp hstart
      split_ifs
      · exact List.forall_mem_cons.mpr ⟨min_le_right .., hfront⟩
      · exact List.forall_mem_cons.mpr ⟨le_rfl, hstart⟩
  · exact hstart

/-- Ranges that are pushed in the order of their starts. -/
theorem foldl_push (h : Apart merged) (hsorted : ranges.Pairwise fun a b => a.1 ≤ b.1)
    (hstart : ∀ m ∈ merged, ∀ r ∈ ranges, m.1 ≤ r.1) :
    Apart (ranges.foldl push merged) ∧
      ∀ i, Covers (ranges.foldl push merged) i ↔ Covers merged i ∨ Covers ranges i := by
  induction ranges generalizing merged with
  | nil => exact ⟨h, fun i => by simp [Covers]⟩
  | cons r ranges ih =>
    obtain ⟨hr, hsorted⟩ := List.pairwise_cons.mp hsorted
    have hfirst : ∀ m ∈ merged, m.1 ≤ r.1 := fun m hm => hstart m hm r (by simp)
    have hrest : ∀ m ∈ Ranges.push merged r, ∀ r' ∈ ranges, m.1 ≤ r'.1 :=
      fun m hm r' hr' => (start_push hfirst m hm).trans (hr r' hr')
    obtain ⟨hapart, hcovers⟩ := ih (h.push hfirst) hsorted hrest
    refine ⟨hapart, fun i => ?_⟩
    rw [List.foldl_cons, hcovers i, covers_push h hfirst, covers_cons, or_assoc]

/-- The merged ranges are not empty, there is a gap between any two, and they cover the same. -/
theorem merge_spec (ranges : List (ι × ι)) :
    (∀ r ∈ merge ranges, r.1 < r.2) ∧ (merge ranges).Pairwise (fun a b => a.2 < b.1) ∧
      ∀ i, Covers (merge ranges) i ↔ Covers ranges i := by
  have hsorted : (sortBy toLex ranges).Pairwise fun a b => a.1 ≤ b.1 :=
    (pairwise_sortBy toLex ranges).imp fun hab =>
      (Prod.Lex.toLex_le_toLex.mp hab).elim le_of_lt fun h => h.1.le
  have hempty : Apart ([] : List (ι × ι)) := ⟨by simp, List.Pairwise.nil⟩
  obtain ⟨hapart, hcovers⟩ := foldl_push hempty hsorted (by simp)
  refine ⟨fun r hr => hapart.lt r (List.mem_reverse.mp hr), List.pairwise_reverse.mpr hapart.gap,
    fun i => ?_⟩
  rw [merge, Covers.of_perm (List.reverse_perm _), hcovers i,
    Covers.of_perm (sortBy_perm toLex ranges)]
  simp [Covers]

end

end ReactRuntime.Library.Ranges
