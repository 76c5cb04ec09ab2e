import Mathlib.Logic.Function.Basic
import Mathlib.Data.List.Basic

/-!
# Labelled step machines

A machine is a partial step function on labels. A label is what a scheduler
chooses: which party moves, and how an outcome left open by the program is
resolved. Every statement about "any interleaving" is a statement about every
list of labels.
-/
namespace ReactRuntime.Library

structure Machine (σ ι : Type*) where
  step : σ → ι → Option σ

namespace Machine
variable {σ ι : Type*} (M : Machine σ ι)

/-- Take the labels in order; `none` as soon as one of them is refused. -/
def run : σ → List ι → Option σ
  | s, [] => some s
  | s, i :: is => (M.step s i).bind fun s' => run s' is

@[simp] theorem run_nil (s : σ) : M.run s [] = some s := rfl

theorem run_cons {s s' : σ} {i : ι} {is : List ι} :
    M.run s (i :: is) = some s' ↔ ∃ m, M.step s i = some m ∧ M.run m is = some s' := by
  simp [run, Option.bind_eq_some_iff]

theorem run_append {s s' : σ} {is js : List ι} :
    M.run s (is ++ js) = some s' ↔ ∃ m, M.run s is = some m ∧ M.run m js = some s' := by
  induction is generalizing s with
  | nil => simp
  | cons i is ih =>
    rw [List.cons_append, run_cons]
    simp only [ih, run_cons]
    constructor
    · rintro ⟨m, hm, n, hn, h⟩
      exact ⟨n, ⟨m, hm, hn⟩, h⟩
    · rintro ⟨n, ⟨m, hm, hn⟩, h⟩
      exact ⟨m, hm, n, hn, h⟩

/-- The steps that a run takes, each with the states before and after it. -/
def steps : σ → List ι → List (σ × ι × σ)
  | _, [] => []
  | s, i :: is => match M.step s i with
    | none => []
    | some s' => (s, i, s') :: steps s' is

theorem steps_append {s m : σ} {is : List ι} (h : M.run s is = some m) (js : List ι) :
    M.steps s (is ++ js) = M.steps s is ++ M.steps m js := by
  induction is generalizing s with
  | nil =>
    cases h
    rfl
  | cons i is ih =>
    obtain ⟨s', hs', hrest⟩ := (run_cons M).mp h
    simp only [List.cons_append, steps, hs', ih hrest]

/-- A run with one more step. -/
theorem steps_concat {s m s' : σ} {is : List ι} {i : ι} (h : M.run s is = some m)
    (hstep : M.step m i = some s') : M.steps s (is ++ [i]) = M.steps s is ++ [(m, i, s')] := by
  rw [steps_append M h]
  simp only [steps, hstep]

/-- Every step that the run takes is taken in a state where `G` allows it. -/
def Along (G : σ → ι → Prop) : σ → List ι → Prop
  | _, [] => True
  | s, i :: is => G s i ∧ ∀ s', M.step s i = some s' → Along G s' is

theorem along_nil (G : σ → ι → Prop) (s : σ) : M.Along G s [] := trivial

instance decidableAlong {G : σ → ι → Prop} [∀ s i, Decidable (G s i)] :
    (s : σ) → (is : List ι) → Decidable (M.Along G s is)
  | _, [] => isTrue trivial
  | s, i :: is =>
    have : Decidable (∀ s', M.step s i = some s' → M.Along G s' is) :=
      match M.step s i with
      | none => isTrue fun _ hs => nomatch hs
      | some m => match decidableAlong m is with
        | isTrue hm => isTrue fun _ hs => Option.some.inj hs ▸ hm
        | isFalse hm => isFalse fun hall => hm (hall m rfl)
    inferInstanceAs (Decidable (G s i ∧ ∀ s', M.step s i = some s' → M.Along G s' is))

theorem along_of_forall {G : σ → ι → Prop} (h : ∀ s i, G s i) (s : σ) (is : List ι) :
    M.Along G s is := by
  induction is generalizing s with
  | nil => trivial
  | cons i is ih => exact ⟨h s i, fun s' _ => ih s'⟩

variable {M}

/-- The guard in terms of the states that the run passes. -/
theorem along_iff {G : σ → ι → Prop} {s : σ} {is : List ι} :
    M.Along G s is ↔
      ∀ before i after m, is = before ++ i :: after → M.run s before = some m → G m i := by
  induction is generalizing s with
  | nil => simp [Along]
  | cons i is ih =>
    constructor
    · rintro ⟨hi, hrest⟩ before j after m heq hm
      cases before with
      | nil =>
        cases heq
        cases hm
        exact hi
      | cons k before =>
        cases heq
        obtain ⟨s', hs', hm⟩ := (run_cons _).mp hm
        exact ih.mp (hrest s' hs') before j after m rfl hm
    · intro h
      refine ⟨h [] i is s rfl rfl, fun s' hs' => ih.mpr fun before j after m heq hm => ?_⟩
      exact h (i :: before) j after m (by rw [heq]; rfl) ((run_cons _).mpr ⟨s', hs', hm⟩)

theorem Along.of_isPrefix {G : σ → ι → Prop} {s : σ} {is js : List ι} (h : M.Along G s is)
    (hjs : js <+: is) : M.Along G s js := by
  obtain ⟨more, rfl⟩ := hjs
  rw [along_iff] at h ⊢
  rintro before i after m rfl hm
  exact h before i (after ++ more) m (by simp) hm

theorem Along.of_append {G : σ → ι → Prop} {s m : σ} {is js : List ι} (h : M.Along G s (is ++ js))
    (hm : M.run s is = some m) : M.Along G m js := by
  rw [along_iff] at h ⊢
  rintro before i after n rfl hn
  exact h (is ++ before) i after n (by simp) ((run_append M).mpr ⟨m, hm, hn⟩)

/-- An invariant that allows every step allows every run. -/
theorem along_of_invariant {G : σ → ι → Prop} {P : σ → Prop}
    (hstep : ∀ s i s', P s → M.step s i = some s' → P s') (hG : ∀ s i, P s → G s i)
    {s : σ} (h0 : P s) (is : List ι) : M.Along G s is := by
  induction is generalizing s with
  | nil => trivial
  | cons i is ih => exact ⟨hG s i h0, fun s' hs => ih (hstep s i s' h0 hs)⟩

/-- The run rule: what every allowed step preserves, every allowed run preserves. -/
theorem run_invariant_along {G : σ → ι → Prop} {P : σ → Prop}
    (hstep : ∀ s i s', P s → G s i → M.step s i = some s' → P s')
    {s s' : σ} {is : List ι} (h0 : P s) (hG : M.Along G s is) (hrun : M.run s is = some s') :
    P s' := by
  induction is generalizing s with
  | nil =>
    rw [run_nil] at hrun
    exact Option.some.inj hrun ▸ h0
  | cons i is ih =>
    obtain ⟨m, hm, hrest⟩ := (run_cons M).mp hrun
    exact ih (hstep s i m h0 hG.1 hm) (hG.2 m hm) hrest

theorem run_invariant {P : σ → Prop} (hstep : ∀ s i s', P s → M.step s i = some s' → P s')
    {s s' : σ} {is : List ι} (h0 : P s) (hrun : M.run s is = some s') : P s' :=
  run_invariant_along (G := fun _ _ => True) (fun s i s' hp _ h => hstep s i s' hp h) h0
    (along_of_forall M (fun _ _ => trivial) s is) hrun

/-- The two-state form: a reflexive and transitive relation kept by every step relates the two
ends of every run. -/
theorem run_relation {R : σ → σ → Prop} (hrefl : ∀ s, R s s)
    (htrans : ∀ a b c, R a b → R b c → R a c) (hstep : ∀ s i s', M.step s i = some s' → R s s')
    {s s' : σ} {is : List ι} (hrun : M.run s is = some s') : R s s' :=
  run_invariant (P := fun m => R s m)
    (fun a i b ha hb => htrans s a b ha (hstep a i b hb)) (hrefl s) hrun

/-- A property that a step leaves exactly if it is allowed is there in the end exactly if it was
there at the start and every step was allowed. -/
theorem run_iff_along {G : σ → ι → Prop} {I P : σ → Prop}
    (hinv : ∀ s i s', I s → M.step s i = some s' → I s')
    (hstep : ∀ s i s', I s → M.step s i = some s' → (P s' ↔ P s ∧ G s i))
    {s s' : σ} {is : List ι} (h0 : I s) (hrun : M.run s is = some s') :
    P s' ↔ P s ∧ M.Along G s is := by
  induction is generalizing s with
  | nil =>
    cases hrun
    exact (and_iff_left trivial).symm
  | cons i is ih =>
    obtain ⟨m, hm, hrest⟩ := (run_cons M).mp hrun
    have htail : (∀ t, M.step s i = some t → M.Along G t is) ↔ M.Along G m is := by
      rw [hm]
      exact ⟨fun h => h m rfl, fun h t ht => Option.some.inj ht ▸ h⟩
    rw [ih (hinv s i m h0 hm) hrest, hstep s i m h0 hm, Along, htail, and_assoc]

/-- A property that a step keeps exactly if it is allowed is there in every state that the run
passes exactly if every step was allowed. -/
theorem forall_prefix_iff_along {G : σ → ι → Prop} {P : σ → Prop}
    (hstep : ∀ s i s', P s → M.step s i = some s' → (P s' ↔ G s i))
    {s s' : σ} {is : List ι} (h0 : P s) (hrun : M.run s is = some s') :
    (∀ front m, front <+: is → M.run s front = some m → P m) ↔ M.Along G s is := by
  induction is generalizing s with
  | nil =>
    refine ⟨fun _ => trivial, fun _ front m hfront hm => ?_⟩
    rw [List.prefix_nil.mp hfront] at hm
    cases hm
    exact h0
  | cons i is ih =>
    obtain ⟨m, hm, hrest⟩ := (run_cons M).mp hrun
    constructor
    · intro hall
      have hkept : P m := hall [i] m ⟨is, rfl⟩ ((run_cons M).mpr ⟨m, hm, rfl⟩)
      refine ⟨(hstep s i m h0 hm).mp hkept, fun t ht => ?_⟩
      obtain rfl : m = t := Option.some.inj (hm.symm.trans ht)
      refine (ih hkept hrest).mp fun front t hfront ht => ?_
      exact hall (i :: front) t (List.cons_prefix_cons.mpr ⟨rfl, hfront⟩)
        ((run_cons M).mpr ⟨m, hm, ht⟩)
    · rintro ⟨hi, hafter⟩ front t hfront ht
      have hkept : P m := (hstep s i m h0 hm).mpr hi
      cases front with
      | nil =>
        cases ht
        exact h0
      | cons j front =>
        obtain ⟨rfl, hrests⟩ := List.cons_prefix_cons.mp hfront
        obtain ⟨m', hm', ht⟩ := (run_cons M).mp ht
        obtain rfl : m = m' := Option.some.inj (hm.symm.trans hm')
        exact (ih hkept hrest).mpr (hafter m hm) front t hrests ht

end Machine
end ReactRuntime.Library
