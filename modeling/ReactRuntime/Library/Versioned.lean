import Mathlib.Data.List.Basic
import Mathlib.Logic.Function.Basic

/-!
# Optimistic concurrency over a versioned object

An object is replaced under the condition that its tag is still the expected one,
where the tag is a function of the content. The contents it has held form a list
that only grows. A client reads the tag and the content in two separate steps, so
the content may be newer than the tag. If no content ever returns after it was
replaced by another one, such a pair is harmless: as soon as the tag is current,
the content is.
-/
namespace ReactRuntime.Library
variable {α E : Type}

/-- The object held `x` at some moment since it had been written `n` times. -/
def HeldFrom (n : Nat) (held : List α) (x : α) : Prop := ∃ j, n ≤ j + 1 ∧ held[j]? = some x

/-- A tag together with a content that was read no earlier. -/
def Snapshot (tag : α → E) (held : List α) (e : E) (x : α) : Prop :=
  ∃ (i j : Nat) (y : α), i ≤ j ∧ held[i]? = some y ∧ tag y = e ∧ held[j]? = some x

/-- No content returns after it was replaced by another one. -/
def NoReturn (held : List α) : Prop :=
  ∀ (i j k : Nat) (x : α), i ≤ j → j ≤ k → held[i]? = some x → held[k]? = some x → held[j]? = some x

theorem getElem?_of_isPrefix {xs ys : List α} (h : xs <+: ys) {i : Nat} {x : α}
    (hx : xs[i]? = some x) : ys[i]? = some x := by
  obtain ⟨zs, rfl⟩ := h
  have hi := (List.getElem?_eq_some_iff.mp hx).1
  rw [List.getElem?_append_left hi]
  exact hx

theorem getElem?_of_getLast? {xs : List α} {x : α} (h : xs.getLast? = some x) :
    xs[xs.length - 1]? = some x := by
  rwa [List.getLast?_eq_getElem?] at h

namespace HeldFrom
variable {n m : Nat} {held held' : List α} {x : α}

theorem grow (h : HeldFrom n held x) (hp : held <+: held') : HeldFrom n held' x := by
  obtain ⟨j, hj, hx⟩ := h
  exact ⟨j, hj, getElem?_of_isPrefix hp hx⟩

theorem weaken (h : HeldFrom n held x) (hm : m ≤ n) : HeldFrom m held x := by
  obtain ⟨j, hj, hx⟩ := h
  exact ⟨j, Nat.le_trans hm hj, hx⟩

theorem of_getLast? (h : held.getLast? = some x) : HeldFrom held.length held x := by
  have hpos : 0 < held.length := by
    cases held with
    | nil => cases h
    | cons y ys => simp
  exact ⟨held.length - 1, by omega, getElem?_of_getLast? h⟩

end HeldFrom

namespace Snapshot
variable {tag : α → E} {held held' : List α} {e : E} {x y z : α}

theorem grow (h : Snapshot tag held e x) (hp : held <+: held') : Snapshot tag held' e x := by
  obtain ⟨i, j, y, hij, hi, he, hj⟩ := h
  exact ⟨i, j, y, hij, getElem?_of_isPrefix hp hi, he, getElem?_of_isPrefix hp hj⟩

theorem of_getLast? (h : held.getLast? = some x) : Snapshot tag held (tag x) x :=
  ⟨_, _, x, Nat.le_refl _, getElem?_of_getLast? h, rfl, getElem?_of_getLast? h⟩

/-- A tag read first and a content read later make a snapshot. -/
theorem of_reads {seen : List α} (hy : y ∈ seen) (he : tag y = e) (hp : seen <+: held)
    (hx : HeldFrom seen.length held x) : Snapshot tag held e x := by
  obtain ⟨i, hi⟩ := List.mem_iff_getElem?.mp hy
  obtain ⟨j, hj, hxj⟩ := hx
  have hlt := (List.getElem?_eq_some_iff.mp hi).1
  exact ⟨i, j, y, by omega, getElem?_of_isPrefix hp hi, he, hxj⟩

/-- The content of a snapshot is current as soon as its tag is. -/
theorem current (hn : NoReturn held) (htag : Function.Injective tag)
    (h : Snapshot tag held e x) (hz : held.getLast? = some z) (he : tag z = e) : x = z := by
  obtain ⟨i, j, y, hij, hi, hy, hj⟩ := h
  have hyz : y = z := htag (hy.trans he.symm)
  have hlt := (List.getElem?_eq_some_iff.mp hj).1
  have hback := hn i j (held.length - 1) y hij (by omega) hi (hyz ▸ getElem?_of_getLast? hz)
  rw [hj] at hback
  exact (Option.some.inj hback).trans hyz

/-- Where the tag of a snapshot was current, its content was held from then on or before. -/
theorem heldFrom {n : Nat} (hn : NoReturn held) (htag : Function.Injective tag)
    (h : Snapshot tag held e x) (hy : HeldFrom n held y) (he : tag y = e) : HeldFrom n held x := by
  obtain ⟨i, j, z, hij, hi, hz, hj⟩ := h
  obtain ⟨k, hk, hyk⟩ := hy
  have hzy : z = y := htag (hz.trans he.symm)
  by_cases hjk : j ≤ k
  · have hback := hn i j k y hij hjk (hzy ▸ hi) hyk
    rw [hj] at hback
    exact ⟨k, hk, hback ▸ hyk⟩
  · exact ⟨j, by omega, hj⟩

end Snapshot

namespace NoReturn
variable {held : List α} {x : α}

theorem nil : NoReturn ([] : List α) := by
  intro i j k x _ _ hi _
  simp at hi

/-- A write that repeats the current content or is new keeps the property. -/
theorem snoc (h : NoReturn held) (hx : held.getLast? = some x ∨ x ∉ held) :
    NoReturn (held ++ [x]) := by
  intro i j k y hij hjk hi hk
  have hlen := (List.getElem?_eq_some_iff.mp hk).1
  rw [List.length_append, List.length_singleton] at hlen
  by_cases hkl : k < held.length
  · rw [List.getElem?_append_left hkl] at hk
    rw [List.getElem?_append_left (by omega)] at hi ⊢
    exact h i j k y hij hjk hi hk
  · have hke : k = held.length := by omega
    subst hke
    have hyx : x = y := by simpa using hk
    subst hyx
    by_cases hjl : j < held.length
    · rw [List.getElem?_append_left (by omega)] at hi
      rw [List.getElem?_append_left hjl]
      cases hx with
      | inl hlast =>
        exact h i j (held.length - 1) x hij (by omega) hi (getElem?_of_getLast? hlast)
      | inr hnew => exact absurd (List.mem_of_getElem? hi) hnew
    · have hje : j = held.length := by omega
      subst hje
      simp

end NoReturn
end ReactRuntime.Library
