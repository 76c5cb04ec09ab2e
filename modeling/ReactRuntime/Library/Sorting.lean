import Mathlib.Data.List.Destutter
import Mathlib.Data.List.Perm.Basic
import Mathlib.Data.List.Sort

/-!
# Stable sorting by a key

A list is sorted by a key of its elements, and elements with one key keep their order. Where no key
is there twice, the sorted list does not depend on the order before.
-/
namespace ReactRuntime.Library
variable {α β γ κ : Type}

def sortBy [LinearOrder κ] (key : α → κ) (xs : List α) : List α :=
  xs.mergeSort fun a b => decide (key a ≤ key b)

section
variable [LinearOrder κ] {key : α → κ} {xs ys : List α}

theorem sortBy_perm (key : α → κ) (xs : List α) : (sortBy key xs).Perm xs :=
  List.mergeSort_perm xs _

theorem pairwise_sortBy (key : α → κ) (xs : List α) :
    (sortBy key xs).Pairwise fun a b => key a ≤ key b := by
  have hpairwise : (sortBy key xs).Pairwise fun a b => decide (key a ≤ key b) = true := by
    apply List.pairwise_mergeSort
    · intro a b c hab hbc
      simp only [decide_eq_true_eq] at *
      exact hab.trans hbc
    · intro a b
      simpa using le_total (key a) (key b)
  exact hpairwise.imp fun hab => of_decide_eq_true hab

/-- Two orders of one list are sorted alike if the key tells its elements apart. -/
theorem sortBy_eq_of_perm (h : xs.Perm ys) (hinj : ∀ a ∈ xs, ∀ b ∈ xs, key a = key b → a = b) :
    sortBy key xs = sortBy key ys := by
  have hperm : (sortBy key xs).Perm (sortBy key ys) :=
    (sortBy_perm key xs).trans (h.trans (sortBy_perm key ys).symm)
  refine hperm.eq_of_pairwise (fun a b ha hb hab hba => ?_) (pairwise_sortBy key xs)
    (pairwise_sortBy key ys)
  exact hinj a ((sortBy_perm key xs).mem_iff.mp ha) b
    (h.mem_iff.mpr ((sortBy_perm key ys).mem_iff.mp hb)) (le_antisymm hab hba)

/-- The elements with one key keep their order. -/
theorem filter_sortBy (key : α → κ) (xs : List α) (k : κ) :
    (sortBy key xs).filter (fun x => key x = k) = xs.filter fun x => key x = k := by
  have hsorted : (xs.filter fun x => key x = k).Pairwise fun a b => decide (key a ≤ key b) = true := by
    refine List.pairwise_of_forall_mem_list fun a ha b hb => ?_
    simp only [List.mem_filter, decide_eq_true_eq] at ha hb ⊢
    exact le_of_eq (ha.2.trans hb.2.symm)
  have hsublist : (xs.filter fun x => key x = k).Sublist (sortBy key xs) := by
    refine List.sublist_mergeSort ?_ ?_ hsorted List.filter_sublist
    · intro a b c hab hbc
      simp only [decide_eq_true_eq] at *
      exact hab.trans hbc
    · intro a b
      simpa using le_total (key a) (key b)
  have hfiltered := hsublist.filter fun x => decide (key x = k)
  rw [List.filter_filter] at hfiltered
  simp only [Bool.and_self] at hfiltered
  exact (hfiltered.eq_of_length ((sortBy_perm key xs).filter _).length_eq.symm).symm

/-- Sorted lists agree if they have the same elements, in the same order, under each key. -/
theorem eq_of_filter_eq (hxs : xs.Pairwise fun a b => key a ≤ key b)
    (hys : ys.Pairwise fun a b => key a ≤ key b)
    (h : ∀ k, (xs.filter fun x => key x = k) = ys.filter fun x => key x = k) : xs = ys := by
  induction xs generalizing ys with
  | nil =>
    cases ys with
    | nil => rfl
    | cons y ys => simpa using h (key y)
  | cons x xs ih =>
    cases ys with
    | nil => simpa using h (key x)
    | cons y ys =>
      rw [List.pairwise_cons] at hxs hys
      -- each head stands in the other list, so neither key is below the other
      have hx : x ∈ (y :: ys).filter fun a => key a = key x := h (key x) ▸ by simp
      have hy : y ∈ (x :: xs).filter fun a => key a = key y := h (key y) ▸ by simp
      have hyx : key y ≤ key x := by
        rcases List.mem_cons.mp (List.mem_of_mem_filter hx) with rfl | hmem
        · exact le_rfl
        · exact hys.1 x hmem
      have hxy : key x ≤ key y := by
        rcases List.mem_cons.mp (List.mem_of_mem_filter hy) with rfl | hmem
        · exact le_rfl
        · exact hxs.1 y hmem
      have hkey : key x = key y := le_antisymm hxy hyx
      have hhead := h (key x)
      rw [List.filter_cons_of_pos (by simp), List.filter_cons_of_pos (by simp [hkey])] at hhead
      obtain ⟨rfl, -⟩ := List.cons.inj hhead
      rw [ih hxs.2 hys.2 fun k => ?_]
      have hk := h k
      by_cases hxk : key x = k
      · rw [List.filter_cons_of_pos (by simp [hxk]), List.filter_cons_of_pos (by simp [hxk])] at hk
        exact (List.cons.inj hk).2
      · rwa [List.filter_cons_of_neg (by simp [hxk]), List.filter_cons_of_neg (by simp [hxk])] at hk

theorem sortBy_eq_iff : sortBy key xs = sortBy key ys ↔
    ∀ k, (xs.filter fun x => key x = k) = ys.filter fun x => key x = k := by
  constructor
  · intro h k
    rw [← filter_sortBy, h, filter_sortBy]
  · intro h
    refine eq_of_filter_eq (pairwise_sortBy key xs) (pairwise_sortBy key ys) fun k => ?_
    rw [filter_sortBy, filter_sortBy, h k]

end

section
variable [LinearOrder κ] {xs ys : List κ}

/-- Sorted, and then without an element that repeats the one before it. -/
def sortDedup (xs : List κ) : List κ := (sortBy id xs).destutter (· ≠ ·)

theorem sortDedup_eq_dedup (xs : List κ) : sortDedup xs = (sortBy id xs).dedup := by
  have hsorted : (sortBy id xs).Pairwise (· ≤ ·) := pairwise_sortBy id xs
  exact hsorted.destutter_eq_dedup

@[simp] theorem mem_sortDedup {x : κ} : x ∈ sortDedup xs ↔ x ∈ xs := by
  rw [sortDedup_eq_dedup, List.mem_dedup]
  exact (sortBy_perm id xs).mem_iff

theorem pairwise_sortDedup (xs : List κ) : (sortDedup xs).Pairwise (· < ·) := by
  have hle : (sortDedup xs).Pairwise (· ≤ ·) :=
    (pairwise_sortBy id xs).sublist (List.destutter_sublist _ _)
  have hne : (sortDedup xs).Nodup := sortDedup_eq_dedup xs ▸ List.nodup_dedup _
  exact (hle.and hne).imp fun h => lt_of_le_of_ne h.1 h.2

theorem sortDedup_congr (h : ∀ {x}, x ∈ xs ↔ x ∈ ys) : sortDedup xs = sortDedup ys :=
  (pairwise_sortDedup xs).eq_of_mem_iff (pairwise_sortDedup ys) fun _ =>
    mem_sortDedup.trans (h.trans mem_sortDedup.symm)

/-- What is strictly sorted is determined by its elements. -/
theorem sortDedup_eq (hys : ys.Pairwise (· < ·)) (h : ∀ x, x ∈ xs ↔ x ∈ ys) : sortDedup xs = ys :=
  (pairwise_sortDedup xs).eq_of_mem_iff hys fun x => mem_sortDedup.trans (h x)

end

/-- What is a permutation in one view is one in any view that the first determines. -/
theorem perm_map_of_determined {f : α → β} {g : α → γ} {xs ys : List α}
    (h : (xs.map f).Perm (ys.map f)) (hfg : ∀ x ∈ xs, ∀ y ∈ ys, f x = f y → g x = g y) :
    (xs.map g).Perm (ys.map g) := by
  induction xs generalizing ys with
  | nil => simpa using h
  | cons x xs ih =>
    obtain ⟨y, hy, hxy⟩ := List.mem_map.mp (h.mem_iff.mp (List.mem_cons_self : f x ∈ _))
    obtain ⟨front, back, rfl⟩ := List.append_of_mem hy
    have hmiddle : (front ++ y :: back).Perm (y :: (front ++ back)) := List.perm_middle
    have hrest : (xs.map f).Perm ((front ++ back).map f) := by
      have hcons := h.trans (hmiddle.map f)
      rw [List.map_cons, List.map_cons, hxy] at hcons
      exact hcons.cons_inv
    have hg := ih hrest fun x' hx' y' hy' =>
      hfg x' (List.mem_cons_of_mem x hx') y' (hmiddle.mem_iff.mpr (List.mem_cons_of_mem y hy'))
    have hhead : g x = g y := hfg x List.mem_cons_self y hy hxy.symm
    rw [List.map_cons, hhead]
    exact (hg.cons (g y)).trans (hmiddle.map g).symm

end ReactRuntime.Library
