import ReactRuntime.Library.Program

/-!
# Monitors

A monitor reads the calls that a program makes, each with its answer, and refuses those that break a
rule. A program follows a monitor if none of its calls is refused, whatever is answered.
-/
namespace ReactRuntime.Library

/-- A call and what was answered. -/
abbrev Event (C : Type) (A : C → Type) := (c : C) × A c

abbrev Monitor (C : Type) (A : C → Type) (μ : Type) := μ → (c : C) → A c → Option μ

namespace Monitor
variable {C : Type} {A : C → Type} {μ : Type} (M : Monitor C A μ)

/-- The state after some events, if none of them is refused. -/
def run : μ → List (Event C A) → Option μ
  | m, [] => some m
  | m, e :: es => (M m e.1 e.2).bind fun m => run m es

theorem run_append (m : μ) (es fs : List (Event C A)) :
    M.run m (es ++ fs) = (M.run m es).bind fun m => M.run m fs := by
  induction es generalizing m with
  | nil => rfl
  | cons e es ih =>
    rw [List.cons_append, run, run, Option.bind_assoc]
    exact congrArg _ (funext ih)

end Monitor

namespace Program
variable {C : Type} {A : C → Type} {α β σ μ : Type}

/-- The calls of a program that is run alone, with their answers. -/
def trace (h : (c : C) → σ → σ × A c) : Program C A α → σ → List (Event C A)
  | .ret _, _ => []
  | .call c k, s => ⟨c, (h c s).2⟩ :: trace h (k (h c s).2) (h c s).1

/-- Whatever is answered as expected, the monitor accepts every call, and `Q` holds of what is
returned and the last state of the monitor. -/
def Follows (M : Monitor C A μ) (expected : (c : C) → A c → Prop) (Q : α → μ → Prop) :
    Program C A α → μ → Prop
  | .ret a, m => Q a m
  | .call c k, m => ∀ a, expected c a → ∃ m', M m c a = some m' ∧ Follows M expected Q (k a) m'

section
variable {M : Monitor C A μ} {expected : (c : C) → A c → Prop} {Q R : α → μ → Prop} {m : μ}

theorem Follows.ret {a : α} (h : Q a m) : (.ret a : Program C A α).Follows M expected Q m := h

theorem Follows.perform {c : C} {Q : A c → μ → Prop}
    (h : ∀ a, expected c a → ∃ m', M m c a = some m' ∧ Q a m') :
    (perform c : Program C A (A c)).Follows M expected Q m := h

theorem Follows.mono {p : Program C A α} (h : p.Follows M expected Q m) (hQ : ∀ a m, Q a m → R a m) :
    p.Follows M expected R m := by
  induction p generalizing m with
  | ret a => exact hQ a m h
  | call c k ih =>
    intro a ha
    obtain ⟨m', hm, hrest⟩ := h a ha
    exact ⟨m', hm, ih a hrest⟩

theorem Follows.bind {p : Program C A α} {f : α → Program C A β} {R : β → μ → Prop}
    (hp : p.Follows M expected Q m) (hf : ∀ a m, Q a m → (f a).Follows M expected R m) :
    (p.bind f).Follows M expected R m := by
  induction p generalizing m with
  | ret a => exact hf a m hp
  | call c k ih =>
    intro a ha
    obtain ⟨m', hm, hrest⟩ := hp a ha
    exact ⟨m', hm, ih a hrest⟩

theorem Follows.andThen {ε : Type} {p : Program C A (Except ε α)}
    {f : α → Program C A (Except ε β)} {Q : Except ε α → μ → Prop} {R : Except ε β → μ → Prop}
    (hp : p.Follows M expected Q m) (hok : ∀ a m, Q (.ok a) m → (f a).Follows M expected R m)
    (herror : ∀ e m, Q (.error e) m → R (.error e) m) : (p.andThen f).Follows M expected R m := by
  refine hp.bind fun r m hr => ?_
  cases r with
  | ok a => exact hok a m hr
  | error e => exact herror e m hr

/-- The events of a run are accepted. -/
theorem Follows.run_trace {p : Program C A α} (hp : p.Follows M expected Q m)
    {h : (c : C) → σ → σ × A c} (hexpected : ∀ c s, expected c (h c s).2) (s : σ) :
    ∃ m', M.run m (p.trace h s) = some m' ∧ Q (p.eval h s).2 m' := by
  induction p generalizing m s with
  | ret a => exact ⟨m, rfl, hp⟩
  | call c k ih =>
    obtain ⟨m', hm, hrest⟩ := hp (h c s).2 (hexpected c s)
    obtain ⟨m'', hrun, hQ⟩ := ih _ hrest (h c s).1
    refine ⟨m'', ?_, hQ⟩
    rw [trace, Monitor.run, hm]
    exact hrun

end
end Program
end ReactRuntime.Library
