import Mathlib.Data.List.Sort
import Mathlib.Data.Prod.Lex
import Mathlib.Order.Lattice

/-!
# The nearest elements of a list

A selection takes the nearest elements of a list by a distance: as many as it is asked for or all
there are, so that none that is left out is nearer than one that is taken. Ties may be broken in
any way, and the selection comes in any order.
-/
namespace ReactRuntime.Library
variable {α D : Type} [LinearOrder D] {dist : α → D} {k : Nat} {elements selected : List α}

structure IsNearest (dist : α → D) (k : Nat) (elements selected : List α) : Prop where
  length_eq : selected.length = min k elements.length
  left_farther : ∃ left, (selected ++ left).Perm elements ∧
    ∀ a ∈ selected, ∀ b ∈ left, dist a ≤ dist b

theorem IsNearest.of_perm {selected' : List α} (h : IsNearest dist k elements selected)
    (hperm : selected'.Perm selected) : IsNearest dist k elements selected' := by
  obtain ⟨left, hleft, hfarther⟩ := h.left_farther
  exact ⟨hperm.length_eq.trans h.length_eq, left, (hperm.append_right left).trans hleft,
    fun a ha => hfarther a (hperm.mem_iff.mp ha)⟩

/-- They are the nearest of the elements with the property if they are enough. -/
theorem IsNearest.filter {p : α → Bool} (h : IsNearest dist k elements selected)
    (hlength : (selected.filter p).length = min k (elements.filter p).length) :
    IsNearest dist k (elements.filter p) (selected.filter p) := by
  obtain ⟨left, hleft, hfarther⟩ := h.left_farther
  refine ⟨hlength, left.filter p, ?_, fun a ha b hb => ?_⟩
  · rw [← List.filter_append]
    exact hleft.filter p
  · exact hfarther a (List.mem_of_mem_filter ha) b (List.mem_of_mem_filter hb)

theorem IsNearest.length_filter_le {p : α → Bool} (h : IsNearest dist k elements selected) :
    (selected.filter p).length ≤ (elements.filter p).length := by
  obtain ⟨left, hleft, -⟩ := h.left_farther
  rw [← (hleft.filter p).length_eq, List.filter_append, List.length_append]
  exact Nat.le_add_right ..

/-- They are enough exactly if there are no others, or no more with the property. -/
theorem IsNearest.filter_full_iff {p : α → Bool} (h : IsNearest dist k elements selected) :
    (selected.filter p).length = min k (elements.filter p).length ↔
      (∀ a ∈ selected, p a = true) ∨
        (selected.filter p).length = (elements.filter p).length := by
  have hselected := h.length_filter_le (p := p)
  have helements := List.length_filter_le p elements
  have hlength := h.length_eq
  rw [← List.length_filter_eq_length_iff]
  have hle := List.length_filter_le p selected
  omega

/-- A selection that is larger by the number of the others has enough of them. -/
theorem IsNearest.le_length_filter {p : α → Bool} {j : Nat} (h : IsNearest dist j elements selected)
    (hothers : k + (elements.filter fun a => !p a).length ≤ j) :
    min k (elements.filter p).length ≤ (selected.filter p).length := by
  have hlength := h.length_eq
  have hleft := h.length_filter_le (p := fun a => !p a)
  have hselected := List.length_eq_length_filter_add (l := selected) p
  have helements := List.length_eq_length_filter_add (l := elements) p
  omega

/-- The first of them, sorted by the distance, are the nearest of the elements with the property. -/
theorem IsNearest.take_sorted {p : α → Bool} {j : Nat} (h : IsNearest dist j elements selected)
    (henough : min k (elements.filter p).length ≤ (selected.filter p).length) {sorted : List α}
    (hperm : sorted.Perm (selected.filter p)) (hsorted : sorted.Pairwise fun a b => dist a ≤ dist b) :
    IsNearest dist k (elements.filter p) (sorted.take k) := by
  obtain ⟨left, hleft, hfarther⟩ := h.left_farther
  have hmost := h.length_filter_le (p := p)
  rw [← List.take_append_drop k sorted, List.pairwise_append] at hsorted
  refine ⟨?_, sorted.drop k ++ left.filter p, ?_, fun a ha b hb => ?_⟩
  · rw [List.length_take, hperm.length_eq]
    omega
  · rw [← List.append_assoc, List.take_append_drop]
    refine (hperm.append_right _).trans ?_
    rw [← List.filter_append]
    exact hleft.filter p
  · rcases List.mem_append.mp hb with hb | hb
    · exact hsorted.2.2 a ha b hb
    · have hselected := hperm.mem_iff.mp (List.mem_of_mem_take ha)
      exact hfarther a (List.mem_of_mem_filter hselected) b (List.mem_of_mem_filter hb)

/-- How many elements are nearer than a distance. -/
def nearer (dist : α → D) (elements : List α) (d : D) : Nat :=
  elements.countP fun a => dist a < d

/-- How many elements are not farther than a distance. -/
def within (dist : α → D) (elements : List α) (d : D) : Nat :=
  elements.countP fun a => dist a ≤ d

/-- No element without a property can be among the nearest while a farther one with it is left
out. -/
def Unobstructed (dist : α → D) (k : Nat) (p : α → Bool) (elements : List α) : Prop :=
  ∀ b ∈ elements, p b = false → ∀ c ∈ elements, p c = true → dist b ≤ dist c →
    k ≤ nearer dist elements (dist b) ∨ within dist elements (dist c) ≤ k

instance {p : α → Bool} : Decidable (Unobstructed dist k p elements) :=
  inferInstanceAs (Decidable (∀ b ∈ elements, p b = false → ∀ c ∈ elements, p c = true →
    dist b ≤ dist c → k ≤ nearer dist elements (dist b) ∨ within dist elements (dist c) ≤ k))

theorem IsNearest.nearer_lt {b : α} (h : IsNearest dist k elements selected) (hb : b ∈ selected) :
    nearer dist elements (dist b) < k := by
  obtain ⟨left, hleft, hfarther⟩ := h.left_farther
  have hnone : left.countP (fun a => decide (dist a < dist b)) = 0 := by
    rw [List.countP_eq_zero]
    intro a ha
    simpa using hfarther b hb a ha
  have hsome : selected.countP (fun a => decide (dist a < dist b)) < selected.length := by
    refine Nat.lt_of_le_of_ne List.countP_le_length fun heq => ?_
    simpa using List.countP_eq_length.mp heq b hb
  have hlength := h.length_eq
  rw [nearer, ← hleft.countP_eq, List.countP_append, hnone]
  omega

theorem IsNearest.lt_within {left : List α} {c : α} (h : IsNearest dist k elements selected)
    (hleft : (selected ++ left).Perm elements)
    (hfarther : ∀ a ∈ selected, ∀ b ∈ left, dist a ≤ dist b) (hc : c ∈ left) :
    k < within dist elements (dist c) := by
  have hall : selected.countP (fun a => decide (dist a ≤ dist c)) = selected.length := by
    rw [List.countP_eq_length]
    intro a ha
    simpa using hfarther a ha c hc
  have hsome : 0 < left.countP (fun a => decide (dist a ≤ dist c)) :=
    List.countP_pos_iff.mpr ⟨c, hc, by simp⟩
  have hlength := h.length_eq
  have htotal := hleft.length_eq
  have hpos := List.length_pos_of_mem hc
  rw [List.length_append] at htotal
  rw [within, ← hleft.countP_eq, List.countP_append, hall]
  omega

/-- Over unobstructed elements, a selection has enough of those with the property. -/
theorem IsNearest.filter_full {p : α → Bool} (h : IsNearest dist k elements selected)
    (hfree : Unobstructed dist k p elements) :
    (selected.filter p).length = min k (elements.filter p).length := by
  rw [h.filter_full_iff]
  by_contra hnot
  rw [not_or] at hnot
  obtain ⟨hothers, hmore⟩ := hnot
  obtain ⟨b, hb, hpb⟩ : ∃ b ∈ selected, p b = false := by simpa using hothers
  obtain ⟨left, hleft, hfarther⟩ := h.left_farther
  obtain ⟨c, hc, hpc⟩ : ∃ c ∈ left, p c = true := by
    by_contra hnone
    have hempty : left.filter p = [] := by simpa using hnone
    apply hmore
    rw [← (hleft.filter p).length_eq, List.filter_append, hempty, List.append_nil]
  have hlow := h.nearer_lt hb
  have hhigh := h.lt_within hleft hfarther hc
  have hmem := hfree b (hleft.subset (List.mem_append_left left hb)) hpb
    c (hleft.subset (List.mem_append_right selected hc)) hpc (hfarther b hb c hc)
  omega

/-- The selection that takes elements without the property first among those of one distance. -/
def selectOthersFirst (dist : α → D) (p : α → Bool) (k : Nat) (elements : List α) : List α :=
  (elements.insertionSort fun a b => toLex (dist a, p a) ≤ toLex (dist b, p b)).take k

/-- What it leaves out is farther than what it takes, or as far and not without the property if
what it takes has it. -/
theorem selectOthersFirst_left (dist : α → D) (p : α → Bool) (k : Nat) (elements : List α) :
    ∃ left, (selectOthersFirst dist p k elements ++ left).Perm elements ∧
      ∀ a ∈ selectOthersFirst dist p k elements, ∀ b ∈ left,
        dist a < dist b ∨ dist a = dist b ∧ (p a = true → p b = true) := by
  set sorted := elements.insertionSort fun a b => toLex (dist a, p a) ≤ toLex (dist b, p b)
    with hsorted
  have hfront : selectOthersFirst dist p k elements = sorted.take k := rfl
  have hpairwise := List.pairwise_insertionSort
    (fun a b => toLex (dist a, p a) ≤ toLex (dist b, p b)) elements
  rw [← hsorted, ← List.take_append_drop k sorted, List.pairwise_append] at hpairwise
  rw [hfront]
  refine ⟨sorted.drop k, ?_, fun a ha b hb => ?_⟩
  · rw [List.take_append_drop]
    exact List.perm_insertionSort _ elements
  · simpa only [Prod.Lex.toLex_le_toLex, Bool.le_iff_imp] using hpairwise.2.2 a ha b hb

theorem length_selectOthersFirst (dist : α → D) (p : α → Bool) (k : Nat) (elements : List α) :
    (selectOthersFirst dist p k elements).length = min k elements.length := by
  simp [selectOthersFirst]

theorem isNearest_selectOthersFirst (dist : α → D) (p : α → Bool) (k : Nat) (elements : List α) :
    IsNearest dist k elements (selectOthersFirst dist p k elements) := by
  obtain ⟨left, hleft, hbehind⟩ := selectOthersFirst_left dist p k elements
  refine ⟨length_selectOthersFirst dist p k elements, left, hleft, fun a ha b hb => ?_⟩
  rcases hbehind a ha b hb with hlt | ⟨heq, -⟩
  · exact hlt.le
  · exact heq.le

/-- If that selection has enough elements with the property, the elements are unobstructed. -/
theorem unobstructed_of_selectOthersFirst {p : α → Bool}
    (hfull : ((selectOthersFirst dist p k elements).filter p).length =
      min k (elements.filter p).length) : Unobstructed dist k p elements := by
  intro b hb hpb c hc hpc hle
  rw [(isNearest_selectOthersFirst dist p k elements).filter_full_iff] at hfull
  have hlength := length_selectOthersFirst dist p k elements
  obtain ⟨left, hleft, hbehind⟩ := selectOthersFirst_left dist p k elements
  generalize selectOthersFirst dist p k elements = front at hfull hlength hleft hbehind
  have htotal := hleft.length_eq
  rw [List.length_append] at htotal
  rcases hfull with hothers | hmore
  · -- the front has the property throughout, so that `b` is behind it and all of it is nearer
    left
    have hb' : b ∈ left := by
      rcases List.mem_append.mp (hleft.mem_iff.mpr hb) with hmem | hmem
      · simp [hothers b hmem] at hpb
      · exact hmem
    have hnearer : front.countP (fun a => decide (dist a < dist b)) = front.length := by
      rw [List.countP_eq_length]
      intro a ha
      rcases hbehind a ha b hb' with hlt | ⟨-, hp⟩
      · simpa using hlt
      · simp [hp (hothers a ha)] at hpb
    have hpos := List.length_pos_of_mem hb'
    rw [nearer, ← hleft.countP_eq, List.countP_append, hnearer]
    omega
  · -- all that has the property is in the front, so that what is behind it is farther than `c`
    right
    have hnone : left.filter p = [] := by
      rw [← (hleft.filter p).length_eq, List.filter_append, List.length_append] at hmore
      exact List.length_eq_zero_iff.mp (by omega)
    have hc' : c ∈ front := by
      rcases List.mem_append.mp (hleft.mem_iff.mpr hc) with hmem | hmem
      · exact hmem
      · exact absurd hpc (List.filter_eq_nil_iff.mp hnone c hmem)
    have hfarther : left.countP (fun a => decide (dist a ≤ dist c)) = 0 := by
      rw [List.countP_eq_zero]
      intro a ha
      rcases hbehind c hc' a ha with hlt | ⟨-, hp⟩
      · simpa using hlt
      · exact absurd (hp hpc) (List.filter_eq_nil_iff.mp hnone a ha)
    have hcount := List.countP_le_length (p := fun a => decide (dist a ≤ dist c)) (l := front)
    rw [within, ← hleft.countP_eq, List.countP_append, hfarther]
    omega

/-- Every selection has enough of the elements with a property exactly if the elements are
unobstructed. -/
theorem forall_filter_full_iff {p : α → Bool} :
    (∀ selected, IsNearest dist k elements selected →
      (selected.filter p).length = min k (elements.filter p).length) ↔
        Unobstructed dist k p elements :=
  ⟨fun h => unobstructed_of_selectOthersFirst (h _ (isNearest_selectOthersFirst dist p k elements)),
    fun hfree _ h => h.filter_full hfree⟩

end ReactRuntime.Library
