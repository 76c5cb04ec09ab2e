import ReactRuntime.Library.Machine

/-!
# Programs as trees of calls

A program either returns or makes one call and goes on with the answer. The
calls are the points where other parties may run in between, so the type says
exactly which reads and writes are atomic. A pool runs one program for each
party over a shared state, one call for each step.
-/
namespace ReactRuntime.Library

inductive Program (C : Type) (A : C → Type) (α : Type) : Type where
  | ret (a : α)
  | call (c : C) (k : A c → Program C A α)

namespace Program
variable {C : Type} {A : C → Type} {α β γ : Type}

def bind : Program C A α → (α → Program C A β) → Program C A β
  | .ret a, f => f a
  | .call c k, f => .call c fun x => bind (k x) f

instance : Monad (Program C A) where
  pure := .ret
  bind := bind

/-- Make one call and return its answer. -/
def perform (c : C) : Program C A (A c) := .call c .ret

/-- Go on with the value of a fallible program, and end with its error otherwise. -/
def andThen {ε : Type} (p : Program C A (Except ε α)) (f : α → Program C A (Except ε β)) :
    Program C A (Except ε β) :=
  p.bind fun r => match r with
    | .ok a => f a
    | .error e => .ret (.error e)

theorem bind_assoc (p : Program C A α) (f : α → Program C A β) (g : β → Program C A γ) :
    (p.bind f).bind g = p.bind fun a => (f a).bind g := by
  induction p with
  | ret a => rfl
  | call c k ih => exact congrArg (Program.call c) (funext fun x => ih x)

@[simp] theorem pure_eq (a : α) : (pure a : Program C A α) = .ret a := rfl
@[simp] theorem bind_eq (p : Program C A α) (f : α → Program C A β) : p >>= f = p.bind f := rfl

/-- The value of a program that has returned. -/
def returned? : Program C A α → Option α
  | .ret a => some a
  | .call _ _ => none

theorem returned?_eq_some {p : Program C A α} {a : α} : p.returned? = some a ↔ p = .ret a := by
  cases p <;> simp [returned?]

/-- Run alone to the end, each call answered at once by `h`. -/
def eval {σ : Type} (h : (c : C) → σ → σ × A c) : Program C A α → σ → σ × α
  | .ret a, s => (s, a)
  | .call c k, s => eval h (k (h c s).2) (h c s).1

section Eval
variable {σ : Type} (h : (c : C) → σ → σ × A c)

@[simp] theorem eval_ret (a : α) (s : σ) : eval h (.ret a : Program C A α) s = (s, a) := rfl

@[simp] theorem eval_call (c : C) (k : A c → Program C A α) (s : σ) :
    eval h (.call c k) s = eval h (k (h c s).2) (h c s).1 := rfl

@[simp] theorem eval_perform (c : C) (s : σ) : eval h (perform c : Program C A (A c)) s = h c s := rfl

@[simp] theorem eval_bind (p : Program C A α) (f : α → Program C A β) (s : σ) :
    eval h (p.bind f) s = eval h (f (eval h p s).2) (eval h p s).1 := by
  induction p generalizing s with
  | ret a => rfl
  | call c k ih => exact ih (h c s).2 (h c s).1

variable {h}

theorem eval_bind_of {p : Program C A α} {f : α → Program C A β} {s s' : σ} {a : α}
    (hp : eval h p s = (s', a)) : eval h (p.bind f) s = eval h (f a) s' := by
  rw [eval_bind, hp]

theorem eval_andThen_ok {ε : Type} {p : Program C A (Except ε α)}
    {f : α → Program C A (Except ε β)} {s s' : σ} {a : α} (hp : eval h p s = (s', .ok a)) :
    eval h (p.andThen f) s = eval h (f a) s' := by
  rw [andThen, eval_bind_of hp]

theorem eval_andThen_error {ε : Type} {p : Program C A (Except ε α)}
    {f : α → Program C A (Except ε β)} {s s' : σ} {e : ε} (hp : eval h p s = (s', .error e)) :
    eval h (p.andThen f) s = (s', .error e) := by
  rw [andThen, eval_bind_of hp]
  rfl

end Eval

/-! What a program run alone ensures, from its calls upwards. -/

section Ensures
variable {σ : Type} {h : (c : C) → σ → σ × A c} {I J : σ → Prop} {Q R : α → σ → Prop}

/-- Run alone from a state with `I`, the program ends in a state and with a value that `Q`
allows. -/
def Ensures (h : (c : C) → σ → σ × A c) (I : σ → Prop) (p : Program C A α)
    (Q : α → σ → Prop) : Prop :=
  ∀ s, I s → Q (p.eval h s).2 (p.eval h s).1

theorem Ensures.ret {a : α} (hQ : ∀ s, I s → Q a s) : Ensures h I (.ret a) Q := hQ

theorem Ensures.perform {c : C} {Q : A c → σ → Prop} (hQ : ∀ s, I s → Q (h c s).2 (h c s).1) :
    Ensures h I (perform c) Q := hQ

theorem Ensures.mono {p : Program C A α} (hp : Ensures h I p Q) (hQ : ∀ a s, Q a s → R a s) :
    Ensures h I p R :=
  fun s hs => hQ _ _ (hp s hs)

theorem Ensures.of_imp {p : Program C A α} (hp : Ensures h I p Q) (hI : ∀ s, J s → I s) :
    Ensures h J p Q :=
  fun s hs => hp s (hI s hs)

/-- Sequencing: the first part hands what it ensures to the rest. -/
theorem Ensures.bind {p : Program C A α} {f : α → Program C A β} {R : β → σ → Prop}
    (hp : Ensures h I p Q) (hf : ∀ a, Ensures h (Q a) (f a) R) : Ensures h I (p.bind f) R := by
  intro s hs
  rw [eval_bind]
  exact hf _ _ (hp s hs)

/-- Sequencing with early return: the error of the first part is the error of the whole. -/
theorem Ensures.andThen {ε : Type} {p : Program C A (Except ε α)}
    {f : α → Program C A (Except ε β)} {Q : Except ε α → σ → Prop} {R : Except ε β → σ → Prop}
    (hp : Ensures h I p Q) (hok : ∀ a, Ensures h (Q (.ok a)) (f a) R)
    (herror : ∀ e s, Q (.error e) s → R (.error e) s) : Ensures h I (p.andThen f) R := by
  refine hp.bind fun r => ?_
  cases r with
  | ok a => exact hok a
  | error e => exact fun s hs => herror e s hs

/-- The program keeps an invariant. -/
def Keeps (h : (c : C) → σ → σ × A c) (I : σ → Prop) (p : Program C A α) : Prop :=
  Ensures h I p fun _ => I

theorem Keeps.ret {a : α} : Keeps h I (.ret a) := fun _ hs => hs

theorem Keeps.perform {c : C} (hc : ∀ s, I s → I (h c s).1) : Keeps h I (perform c) := hc

theorem Keeps.bind {p : Program C A α} {f : α → Program C A β} (hp : Keeps h I p)
    (hf : ∀ a, Keeps h I (f a)) : Keeps h I (p.bind f) :=
  Ensures.bind hp hf

theorem Keeps.andThen {ε : Type} {p : Program C A (Except ε α)}
    {f : α → Program C A (Except ε β)} (hp : Keeps h I p) (hf : ∀ a, Keeps h I (f a)) :
    Keeps h I (p.andThen f) :=
  Ensures.andThen hp hf fun _ _ hs => hs

end Ensures

/-! Which calls a program can make, and what follows for the states it does not touch. -/

section Makes
variable {P : C → Prop}

/-- Every call that the program can make, whatever the answers, has the property. -/
def Makes (P : C → Prop) : Program C A α → Prop
  | .ret _ => True
  | .call c k => P c ∧ ∀ a, Makes P (k a)

theorem Makes.ret {a : α} : Makes P (.ret a : Program C A α) := trivial

theorem Makes.perform {c : C} (hc : P c) : Makes P (perform c : Program C A (A c)) :=
  ⟨hc, fun _ => trivial⟩

theorem Makes.bind {p : Program C A α} {f : α → Program C A β} (hp : p.Makes P)
    (hf : ∀ a, (f a).Makes P) : (p.bind f).Makes P := by
  induction p with
  | ret a => exact hf a
  | call c k ih => exact ⟨hp.1, fun a => ih a (hp.2 a)⟩

theorem Makes.andThen {ε : Type} {p : Program C A (Except ε α)}
    {f : α → Program C A (Except ε β)} (hp : p.Makes P) (hf : ∀ a, (f a).Makes P) :
    (p.andThen f).Makes P := by
  refine hp.bind fun r => ?_
  cases r with
  | ok a => exact hf a
  | error e => exact Makes.ret

variable {σ : Type} {h : (c : C) → σ → σ × A c}

/-- What each of the calls keeps is kept by the program. -/
theorem Makes.keeps {I : σ → Prop} {p : Program C A α} (hp : p.Makes P)
    (hc : ∀ c, P c → ∀ s, I s → I (h c s).1) : p.Keeps h I := by
  induction p with
  | ret a => exact Keeps.ret
  | call c k ih =>
    intro s hs
    exact ih (h c s).2 (hp.2 _) _ (hc c hp.1 s hs)

/-- Two handlers that answer the calls alike, from related states to related states, give the
program one value. -/
theorem Makes.eval_eq {σ' : Type} {h' : (c : C) → σ' → σ' × A c} {R : σ → σ' → Prop}
    {p : Program C A α} (hp : p.Makes P)
    (hc : ∀ c, P c → ∀ s s', R s s' → R (h c s).1 (h' c s').1 ∧ (h c s).2 = (h' c s').2) {s : σ}
    {s' : σ'} (hs : R s s') :
    R (p.eval h s).1 (p.eval h' s').1 ∧ (p.eval h s).2 = (p.eval h' s').2 := by
  induction p generalizing s s' with
  | ret a => exact ⟨hs, rfl⟩
  | call c k ih =>
    obtain ⟨hnext, hanswer⟩ := hc c hp.1 s s' hs
    rw [eval_call, eval_call, ← hanswer]
    exact ih (h c s).2 (hp.2 _) hnext

end Makes
end Program

/-- How one call of party `t` acts on the shared state. The label `i` resolves what the
environment is free to choose; `none` blocks the party for now. -/
structure World (τ ι σ : Type) (C : Type) (A : C → Type) where
  exec : τ → ι → (c : C) → σ → Option (σ × A c)

structure Pool (τ σ : Type) (C : Type) (A : C → Type) (α : Type) where
  shared : σ
  task : τ → Program C A α

namespace World
variable {τ ι σ C : Type} {A : C → Type} {α : Type} [DecidableEq τ]

/-- Party `t` makes its next call; a party that has returned does not move. -/
def step (W : World τ ι σ C A) (p : Pool τ σ C A α) (l : τ × ι) : Option (Pool τ σ C A α) :=
  match p.task l.1 with
  | .ret _ => none
  | .call c k => (W.exec l.1 l.2 c p.shared).map fun r =>
      { shared := r.1, task := Function.update p.task l.1 (k r.2) }

/-- The interleavings of a pool. -/
def machine (W : World τ ι σ C A) (α : Type) : Machine (Pool τ σ C A α) (τ × ι) where
  step := W.step

theorem step_eq_some {W : World τ ι σ C A} {p p' : Pool τ σ C A α} {l : τ × ι} :
    W.step p l = some p' ↔ ∃ c k s a, p.task l.1 = .call c k ∧
      W.exec l.1 l.2 c p.shared = some (s, a) ∧
      p' = { shared := s, task := Function.update p.task l.1 (k a) } := by
  unfold step
  cases hp : p.task l.1 with
  | ret a => simp
  | call c k =>
    simp only [Option.map_eq_some_iff, Prod.exists]
    constructor
    · rintro ⟨s, a, he, rfl⟩
      exact ⟨c, k, s, a, rfl, he, rfl⟩
    · rintro ⟨c', k', s, a, hc, he, rfl⟩
      cases hc
      exact ⟨s, a, he, rfl⟩

/-! A world can keep a record beside its state. The record never decides what a call does. -/

section Instrument
variable {γ : Type}

/-- The same world with a record of what happened. `note` sees the party, the call, its answer and
the state the call was made in. -/
def instrument (W : World τ ι σ C A) (note : τ → (c : C) → A c → σ → γ → γ) :
    World τ ι (σ × γ) C A where
  exec t i c s := (W.exec t i c s.1).map fun r => ((r.1, note t c r.2 s.1 s.2), r.2)

variable {W : World τ ι σ C A} {note : τ → (c : C) → A c → σ → γ → γ}

omit [DecidableEq τ] in
theorem instrument_exec {t : τ} {i : ι} {c : C} {s s' : σ × γ} {a : A c} :
    (W.instrument note).exec t i c s = some (s', a) ↔
      W.exec t i c s.1 = some (s'.1, a) ∧ s'.2 = note t c a s.1 s.2 := by
  simp only [instrument, Option.map_eq_some_iff, Prod.mk.injEq]
  constructor
  · rintro ⟨⟨m, b⟩, he, hs, rfl⟩
    cases s' with
    | mk s₁ g₁ =>
      cases hs
      exact ⟨he, rfl⟩
  · rintro ⟨he, hg⟩
    refine ⟨(s'.1, a), he, ?_, rfl⟩
    rw [← hg]

/-- Forget the record. -/
def Pool.erase (p : Pool τ (σ × γ) C A α) : Pool τ σ C A α := ⟨p.shared.1, p.task⟩

theorem instrument_step (p : Pool τ (σ × γ) C A α) (l : τ × ι) :
    ((W.instrument note).step p l).map Pool.erase = W.step (Pool.erase p) l := by
  unfold step Pool.erase
  cases p.task l.1 with
  | ret a => rfl
  | call c k => cases he : W.exec l.1 l.2 c p.shared.1 <;> simp [instrument, he]

/-- The record restricts no run: every run of the world is the visible part of a recorded run. -/
theorem instrument_run (p : Pool τ (σ × γ) C A α) (ls : List (τ × ι)) :
    (((W.instrument note).machine α).run p ls).map Pool.erase =
      (W.machine α).run (Pool.erase p) ls := by
  induction ls generalizing p with
  | nil => rfl
  | cons l ls ih =>
    have hstep : ((W.instrument note).step p l).map Pool.erase = W.step (Pool.erase p) l :=
      instrument_step p l
    change (((W.instrument note).step p l).bind _).map Pool.erase =
      (W.step (Pool.erase p) l).bind _
    rw [← hstep]
    cases (W.instrument note).step p l with
    | none => rfl
    | some m => exact ih m

end Instrument
end World

/-- A shared invariant, what each party may rely on while others move, and when a call is
allowed. Every call of one party, whatever its program, stays within what the others rely on. -/
structure Protocol {τ ι σ C : Type} {A : C → Type} (W : World τ ι σ C A) where
  inv : σ → Prop
  rely : τ → σ → σ → Prop
  guard : τ → C → σ → Prop
  rely_refl : ∀ t s, rely t s s
  rely_trans : ∀ t a b c, rely t a b → rely t b c → rely t a c
  frame : ∀ u i c s s' a, W.exec u i c s = some (s', a) → ∀ t, t ≠ u → rely t s s'

namespace Protocol
variable {τ ι σ C : Type} {A : C → Type} {α β : Type} {W : World τ ι σ C A} (P : Protocol W)

/-- From `s`, and whatever the others do in between, party `t` running the program keeps the
invariant at each of its calls and returns only what `Q` says. -/
def Meets (t : τ) (Q : α → σ → Prop) : Program C A α → σ → Prop
  | .ret a, s => ∀ s', P.rely t s s' → P.inv s' → Q a s'
  | .call c k, s => ∀ s', P.rely t s s' → P.inv s' → P.guard t c s' →
      ∀ i s'' a, W.exec t i c s' = some (s'', a) → P.inv s'' ∧ Meets t Q (k a) s''

variable {P} {t : τ}

theorem Meets.stable {Q : α → σ → Prop} {p : Program C A α} {s s' : σ} (h : P.Meets t Q p s)
    (hr : P.rely t s s') : P.Meets t Q p s' := by
  cases p with
  | ret a => exact fun m hm => h m (P.rely_trans t s s' m hr hm)
  | call c k => exact fun m hm => h m (P.rely_trans t s s' m hr hm)

/-- Sequencing: the first part hands its postcondition to the rest. -/
theorem Meets.bind {Q : β → σ → Prop} {p : Program C A α} {f : α → Program C A β} {s : σ}
    (h : P.Meets t (fun a m => P.Meets t Q (f a) m) p s) : P.Meets t Q (p.bind f) s := by
  induction p generalizing s with
  | ret a =>
    -- A returned value leaves the invariant to the next call, so only stability is needed.
    change P.Meets t Q (f a) s
    cases hf : f a with
    | ret b =>
      intro m hm hi
      have hb := h m hm hi
      simp only [hf] at hb
      exact hb m (P.rely_refl t m) hi
    | call c k =>
      intro m hm hi
      have hb := h m hm hi
      simp only [hf] at hb
      exact hb m (P.rely_refl t m) hi
  | call c k ih =>
    intro m hm hi hg i m' a he
    obtain ⟨hi', hk⟩ := h m hm hi hg i m' a he
    exact ⟨hi', ih a hk⟩

theorem Meets.mono {Q R : α → σ → Prop} {p : Program C A α} {s : σ}
    (hQR : ∀ a m, P.inv m → Q a m → R a m) (h : P.Meets t Q p s) : P.Meets t R p s := by
  induction p generalizing s with
  | ret a => exact fun m hm hi => hQR a m hi (h m hm hi)
  | call c k ih =>
    intro m hm hi hg i m' a he
    obtain ⟨hi', hk⟩ := h m hm hi hg i m' a he
    exact ⟨hi', ih a hk⟩

/-- What no call of the party and no move of the others takes away can be carried along. -/
theorem Meets.carry {Q : α → σ → Prop} {S : σ → Prop} {p : Program C A α} {s : σ}
    (h : P.Meets t Q p s) (hs : S s) (hrely : ∀ a b, P.rely t a b → S a → S b)
    (hown : ∀ i c a b x, W.exec t i c a = some (b, x) → S a → S b) :
    P.Meets t (fun a m => Q a m ∧ S m) p s := by
  induction p generalizing s with
  | ret a => exact fun m hm hi => ⟨h m hm hi, hrely s m hm hs⟩
  | call c k ih =>
    intro m hm hi hg i m' a he
    obtain ⟨hi', hk⟩ := h m hm hi hg i m' a he
    exact ⟨hi', ih a hk (hown i c m m' a he (hrely s m hm hs))⟩

/-- Sequencing with early return: the error of the first part is the error of the whole. -/
theorem Meets.andThen {ε : Type} {Q : Except ε β → σ → Prop} {R : Except ε α → σ → Prop}
    {p : Program C A (Except ε α)} {f : α → Program C A (Except ε β)} {s : σ}
    (h : P.Meets t R p s) (hok : ∀ a m, P.inv m → R (.ok a) m → P.Meets t Q (f a) m)
    (herror : ∀ e m, P.inv m → R (.error e) m → P.Meets t Q (.ret (.error e)) m) :
    P.Meets t Q (p.andThen f) s := by
  apply Meets.bind
  apply h.mono
  intro r m hm hr
  cases r with
  | ok a => exact hok a m hm hr
  | error e => exact herror e m hm hr

variable [DecidableEq τ]

/-- The allowed labels of a pool run. -/
def Allows (P : Protocol W) (p : Pool τ σ C A α) (l : τ × ι) : Prop :=
  ∀ c k, p.task l.1 = .call c k → P.guard l.1 c p.shared

instance decidableAllows (P : Protocol W) [∀ t c s, Decidable (P.guard t c s)]
    (p : Pool τ σ C A α) (l : τ × ι) : Decidable (P.Allows p l) :=
  match h : p.task l.1 with
  | .ret _ => isTrue fun _ _ hc => nomatch h.symm.trans hc
  | .call c _ => decidable_of_iff (P.guard l.1 c p.shared)
      ⟨fun hg c' k' hc => by
        rw [h] at hc
        cases hc
        exact hg, fun hall => hall c _ h⟩

/-- All parties meet their contracts, and the shared invariant holds. -/
def Sound (P : Protocol W) (Q : τ → α → σ → Prop) (p : Pool τ σ C A α) : Prop :=
  P.inv p.shared ∧ ∀ t, P.Meets t (Q t) (p.task t) p.shared

theorem Sound.step {Q : τ → α → σ → Prop} {p p' : Pool τ σ C A α} {l : τ × ι}
    (h : P.Sound Q p) (hg : P.Allows p l) (hs : W.step p l = some p') : P.Sound Q p' := by
  obtain ⟨c, k, s, a, hp, he, rfl⟩ := World.step_eq_some.mp hs
  have hl := h.2 l.1
  rw [hp] at hl
  obtain ⟨hi, hk⟩ := hl p.shared (P.rely_refl _ _) h.1 (hg c k hp) l.2 s a he
  refine ⟨hi, fun t => ?_⟩
  by_cases ht : t = l.1
  · subst ht
    simpa using hk
  · simpa [Function.update_of_ne ht] using (h.2 t).stable (P.frame l.1 l.2 c p.shared s a he t ht)

/-- The rule for whole runs: contracts met at the start are met in every state reached. -/
theorem Sound.run {Q : τ → α → σ → Prop} {p p' : Pool τ σ C A α} {ls : List (τ × ι)}
    (h : P.Sound Q p) (hg : (W.machine α).Along P.Allows p ls)
    (hrun : (W.machine α).run p ls = some p') : P.Sound Q p' :=
  Machine.run_invariant_along (fun _ _ _ hp ha hs => hp.step ha hs) h hg hrun

omit [DecidableEq τ] in
theorem Sound.returned {Q : τ → α → σ → Prop} {p : Pool τ σ C A α} (h : P.Sound Q p) {a : α}
    (ht : p.task t = .ret a) : Q t a p.shared := by
  have hm := h.2 t
  rw [ht] at hm
  exact hm p.shared (P.rely_refl _ _) h.1

end Protocol
end ReactRuntime.Library
