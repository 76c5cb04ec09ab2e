import Mathlib.Logic.Relation
import ReactRuntime.Library.Program

/-!
# Rely and guarantee

Each party promises what every one of its calls does to the shared state, and may rely on what the
others promise. A party that has returned makes no more calls, so from then on the others need not
count with it.
-/
namespace ReactRuntime.Library

/-- A run in which a party makes no call leaves it where it is. -/
theorem World.task_of_run {τ ι σ C α : Type} {A : C → Type} [DecidableEq τ] {W : World τ ι σ C A}
    {p p' : Pool τ σ C A α} {ls : List (τ × ι)} {t : τ} (ht : ∀ l ∈ ls, l.1 ≠ t)
    (hrun : (W.machine α).run p ls = some p') : p'.task t = p.task t := by
  induction ls generalizing p with
  | nil =>
    cases hrun
    rfl
  | cons l ls ih =>
    obtain ⟨m, hm, hrest⟩ := (Machine.run_cons _).mp hrun
    obtain ⟨c, k, s, a, -, -, rfl⟩ := World.step_eq_some.mp hm
    rw [ih (fun l hl => ht l (List.mem_cons_of_mem _ hl)) hrest]
    exact Function.update_of_ne (ht l List.mem_cons_self).symm _ _

structure Promises {τ ι σ C : Type} {A : C → Type} (W : World τ ι σ C A) where
  inv : σ → Prop
  guarantee : τ → σ → σ → Prop

namespace Promises
variable {τ ι σ C : Type} {A : C → Type} {α β : Type} {W : World τ ι σ C A} (P : Promises W)

/-- One step of a party other than `t` that is not retired. -/
def Foreign (retired : τ → Prop) (t : τ) (s s' : σ) : Prop :=
  ∃ u, u ≠ t ∧ ¬ retired u ∧ P.inv s ∧ P.inv s' ∧ P.guarantee u s s'

/-- What the others may do between two calls of `t`. -/
def Rely (retired : τ → Prop) (t : τ) : σ → σ → Prop :=
  Relation.ReflTransGen (P.Foreign retired t)

/-- From `s`, and whatever the others do in between, party `t` running the program keeps the
invariant and its promise at each call, and returns only what `Q` says. -/
def Respects (retired : τ → Prop) (t : τ) (Q : α → σ → Prop) : Program C A α → σ → Prop
  | .ret a, s => ∀ s', P.Rely retired t s s' → P.inv s' → Q a s'
  | .call c k, s => ∀ s', P.Rely retired t s s' → P.inv s' →
      ∀ i s'' a, W.exec t i c s' = some (s'', a) →
        P.inv s'' ∧ P.guarantee t s' s'' ∧ Respects retired t Q (k a) s''

variable {P} {retired : τ → Prop} {t : τ}

/-- A property of states that no promise of another party takes away. -/
theorem Rely.keeps {S : σ → Prop} {s s' : σ}
    (hS : ∀ u a b, u ≠ t → ¬ retired u → P.inv a → P.inv b → P.guarantee u a b → S a → S b)
    (h : P.Rely retired t s s') (hs : S s) : S s' := by
  induction h with
  | refl => exact hs
  | tail _ hstep ih =>
    obtain ⟨u, hu, hlive, ha, hb, hg⟩ := hstep
    exact hS u _ _ hu hlive ha hb hg ih

theorem Rely.retire {other : τ → Prop} (hle : ∀ u, other u → retired u) {s s' : σ}
    (h : P.Rely retired t s s') : P.Rely other t s s' :=
  Relation.ReflTransGen.mono
    (fun _ _ ⟨u, hu, hlive, hrest⟩ => ⟨u, hu, fun ho => hlive (hle u ho), hrest⟩) _ _ h

theorem Respects.stable {Q : α → σ → Prop} {p : Program C A α} {s s' : σ}
    (h : P.Respects retired t Q p s) (hr : P.Rely retired t s s') : P.Respects retired t Q p s' := by
  cases p with
  | ret a => exact fun m hm => h m (hr.trans hm)
  | call c k => exact fun m hm => h m (hr.trans hm)

theorem Respects.mono {Q R : α → σ → Prop} {p : Program C A α} {s : σ}
    (hQR : ∀ a m, P.inv m → Q a m → R a m) (h : P.Respects retired t Q p s) :
    P.Respects retired t R p s := by
  induction p generalizing s with
  | ret a => exact fun m hm hi => hQR a m hi (h m hm hi)
  | call c k ih =>
    intro m hm hi i m' a he
    obtain ⟨hi', hg, hk⟩ := h m hm hi i m' a he
    exact ⟨hi', hg, ih a hk⟩

/-- With fewer parties moving, nothing new can go wrong. -/
theorem Respects.retire {other : τ → Prop} (hle : ∀ u, retired u → other u) {Q : α → σ → Prop}
    {p : Program C A α} {s : σ} (h : P.Respects retired t Q p s) : P.Respects other t Q p s := by
  induction p generalizing s with
  | ret a => exact fun m hm hi => h m (hm.retire hle) hi
  | call c k ih =>
    intro m hm hi i m' a he
    obtain ⟨hi', hg, hk⟩ := h m (hm.retire hle) hi i m' a he
    exact ⟨hi', hg, ih a hk⟩

theorem respects_ret {Q : α → σ → Prop} {a : α} {s : σ} :
    P.Respects retired t Q (.ret a : Program C A α) s ↔
      ∀ s', P.Rely retired t s s' → P.inv s' → Q a s' := Iff.rfl

theorem respects_call {Q : α → σ → Prop} {c : C} {k : A c → Program C A α} {s : σ} :
    P.Respects retired t Q (.call c k) s ↔ ∀ s', P.Rely retired t s s' → P.inv s' →
      ∀ i s'' a, W.exec t i c s' = some (s'', a) →
        P.inv s'' ∧ P.guarantee t s' s'' ∧ P.Respects retired t Q (k a) s'' := Iff.rfl

/-- A value returned at once, with a postcondition that the others leave alone. -/
theorem Respects.ret {Q : α → σ → Prop} {a : α} {s : σ}
    (hQ : ∀ s', P.Rely retired t s s' → P.inv s' → Q a s') :
    P.Respects retired t Q (.ret a : Program C A α) s := hQ

theorem Respects.perform {c : C} {Q : A c → σ → Prop} {s : σ}
    (h : ∀ m, P.Rely retired t s m → P.inv m → ∀ i m' a, W.exec t i c m = some (m', a) →
      P.inv m' ∧ P.guarantee t m m' ∧ ∀ m'', P.Rely retired t m' m'' → P.inv m'' → Q a m'') :
    P.Respects retired t Q (Program.perform c : Program C A (A c)) s := h

/-- Sequencing: the first part hands its postcondition to the rest. -/
theorem Respects.bind {Q : β → σ → Prop} {p : Program C A α} {f : α → Program C A β} {s : σ}
    (h : P.Respects retired t (fun a m => P.Respects retired t Q (f a) m) p s) :
    P.Respects retired t Q (p.bind f) s := by
  induction p generalizing s with
  | ret a =>
    -- A returned value leaves the invariant to the next call, so only stability is needed.
    change P.Respects retired t Q (f a) s
    cases hf : f a with
    | ret b =>
      intro m hm hi
      have hb := h m hm hi
      simp only [hf] at hb
      exact hb m .refl hi
    | call c k =>
      intro m hm hi
      have hb := h m hm hi
      simp only [hf] at hb
      exact hb m .refl hi
  | call c k ih =>
    intro m hm hi i m' a he
    obtain ⟨hi', hg, hk⟩ := h m hm hi i m' a he
    exact ⟨hi', hg, ih a hk⟩

/-- Sequencing with early return: the error of the first part is the error of the whole. -/
theorem Respects.andThen {ε : Type} {Q : Except ε β → σ → Prop} {R : Except ε α → σ → Prop}
    {p : Program C A (Except ε α)} {f : α → Program C A (Except ε β)} {s : σ}
    (h : P.Respects retired t R p s)
    (hok : ∀ a m, P.inv m → R (.ok a) m → P.Respects retired t Q (f a) m)
    (herror : ∀ e m, P.inv m → R (.error e) m → P.Respects retired t Q (.ret (.error e)) m) :
    P.Respects retired t Q (p.andThen f) s := by
  apply Respects.bind
  apply h.mono
  intro r m hm hr
  cases r with
  | ok a => exact hok a m hm hr
  | error e => exact herror e m hm hr

/-- What no promise takes away, one's own included, is there at the end as well. -/
theorem Respects.frame {Q : α → σ → Prop} {S : σ → Prop} {p : Program C A α} {s : σ}
    (hS : ∀ u a b, P.inv a → P.inv b → P.guarantee u a b → S a → S b)
    (h : P.Respects retired t Q p s) (hs : S s) :
    P.Respects retired t (fun a m => Q a m ∧ S m) p s := by
  have hkeeps {a b : σ} (hr : P.Rely retired t a b) (ha : S a) : S b :=
    hr.keeps (fun u a b _ _ hi hi' hg => hS u a b hi hi' hg) ha
  induction p generalizing s with
  | ret a => exact fun m hm hi => ⟨h m hm hi, hkeeps hm hs⟩
  | call c k ih =>
    intro m hm hi i m' a he
    obtain ⟨hi', hg, hk⟩ := h m hm hi i m' a he
    exact ⟨hi', hg, ih a hk (hS t m m' hi hi' hg (hkeeps hm hs))⟩

/-- A program each of whose possible calls keeps the promise keeps it. -/
theorem Respects.of_makes {p : Program C A α} {allowed : C → Prop} (hp : p.Makes allowed)
    (hcall : ∀ c, allowed c → ∀ m i m' a, P.inv m → W.exec t i c m = some (m', a) →
      P.inv m' ∧ P.guarantee t m m') (s : σ) : P.Respects retired t (fun _ _ => True) p s := by
  induction p generalizing s with
  | ret a => exact fun _ _ _ => trivial
  | call c k ih =>
    intro m _ hi i m' a he
    obtain ⟨hinv, hg⟩ := hcall c hp.1 m i m' a hi he
    exact ⟨hinv, hg, ih a (hp.2 a) m'⟩

-- From here on a contract is only taken apart by its rules: unfolding it would run the program.
attribute [irreducible] Respects

section Pools
variable [DecidableEq τ]

/-- All parties respect their promises, and a retired party has returned. -/
structure Sound (P : Promises W) (retired : τ → Prop) (Q : τ → α → σ → Prop)
    (p : Pool τ σ C A α) : Prop where
  inv : P.inv p.shared
  tasks : ∀ t, P.Respects retired t (Q t) (p.task t) p.shared
  returned : ∀ t, retired t → ∃ a, p.task t = .ret a

variable {Q : τ → α → σ → Prop} {p p' : Pool τ σ C A α} {l : τ × ι}

omit [DecidableEq τ] in
theorem Sound.post (h : P.Sound retired Q p) {a : α} (ht : p.task t = .ret a) :
    Q t a p.shared := by
  have hm := h.tasks t
  rw [ht, respects_ret] at hm
  exact hm p.shared .refl h.inv

/-- The moving party keeps its promise, and the pool stays sound. -/
theorem Sound.step (h : P.Sound retired Q p) (hs : W.step p l = some p') :
    P.Sound retired Q p' ∧ ¬ retired l.1 ∧ P.guarantee l.1 p.shared p'.shared := by
  obtain ⟨c, k, s, a, hp, he, rfl⟩ := World.step_eq_some.mp hs
  have hl := h.tasks l.1
  rw [hp, respects_call] at hl
  obtain ⟨hi, hg, hk⟩ := hl p.shared .refl h.inv l.2 s a he
  have hlive : ¬ retired l.1 := fun hr => by
    obtain ⟨b, hb⟩ := h.returned l.1 hr
    rw [hp] at hb
    cases hb
  refine ⟨⟨hi, fun t => ?_, fun t ht => ?_⟩, hlive, hg⟩
  · by_cases ht : t = l.1
    · subst ht
      simpa using hk
    · have hr : P.Rely retired t p.shared s := .single ⟨l.1, Ne.symm ht, hlive, h.inv, hi, hg⟩
      simpa [Function.update_of_ne ht] using (h.tasks t).stable hr
  · have hne : t ≠ l.1 := fun heq => hlive (heq ▸ ht)
    simpa [Function.update_of_ne hne] using h.returned t ht

/-- The rule for whole runs. -/
theorem Sound.run {ls : List (τ × ι)} (h : P.Sound retired Q p)
    (hrun : (W.machine α).run p ls = some p') : P.Sound retired Q p' :=
  Machine.run_invariant (fun _ _ _ hp hs => (hp.step hs).1) h hrun

/-- What no promise takes away is there at the end of a run. -/
theorem Sound.run_keeps {S : σ → Prop} {ls : List (τ × ι)} (h : P.Sound retired Q p)
    (hS : ∀ u a b, ¬ retired u → P.inv a → P.inv b → P.guarantee u a b → S a → S b)
    (hrun : (W.machine α).run p ls = some p') (hs : S p.shared) : S p'.shared := by
  have hboth : P.Sound retired Q p' ∧ S p'.shared := by
    apply Machine.run_invariant (M := W.machine α)
      (P := fun m => P.Sound retired Q m ∧ S m.shared) ?_ ⟨h, hs⟩ hrun
    intro a l b ha hstep
    obtain ⟨hb, hlive, hg⟩ := ha.1.step hstep
    exact ⟨hb, hS l.1 a.shared b.shared hlive ha.1.inv hb.inv hg ha.2⟩
  exact hboth.2

omit [DecidableEq τ] in
/-- From a state on, the parties that have returned are retired, and a party that respects a
stronger postcondition from there on may be held to it. -/
theorem Sound.retire {other : τ → Prop} {R : τ → α → σ → Prop} (h : P.Sound retired Q p)
    (hle : ∀ u, retired u → other u) (hother : ∀ u, other u → ∃ a, p.task u = .ret a)
    (hR : ∀ t, R t = Q t ∨ P.Respects other t (R t) (p.task t) p.shared) :
    P.Sound other R p where
  inv := h.inv
  tasks t := by
    rcases hR t with heq | hnew
    · rw [heq]
      exact (h.tasks t).retire hle
    · exact hnew
  returned := hother

end Pools
end Promises
end ReactRuntime.Library
