import ReactRuntime.Core.Error
import ReactRuntime.Library.Monitor
import ReactRuntime.Library.RelyGuarantee

/-!
# Retry with backoff

A failed call is made again after each delay for as long as its error asks for
it. The delays themselves take no part in any result: only their number counts.
-/
namespace ReactRuntime.Core
open Library
variable {C : Type} {A : C → Type} {ε α : Type}

/-- The rounds that are left after the answer `last`. -/
def retryRounds [Classify ε] (op : Program C A (Except ε α)) :
    List Nat → Except ε α → Program C A (Except ε α)
  | [], last => .ret last
  | _ :: delays, .error e => if Classify.retry e then op.bind (retryRounds op delays)
      else .ret (.error e)
  | _ :: _, .ok a => .ret (.ok a)

def retryClassified [Classify ε] (delaysMs : List Nat) (op : Program C A (Except ε α)) :
    Program C A (Except ε α) :=
  op.bind (retryRounds op delaysMs)

section Eval
variable {σ : Type} {h : (c : C) → σ → σ × A c} {op : Program C A (Except ε α)} {s s' : σ}
  [Classify ε]

@[simp] theorem eval_retryClassified_nil : (retryClassified [] op).eval h s = op.eval h s := by
  rw [retryClassified, Program.eval_bind]
  rfl

/-- A first answer that asks for no retry is the answer of the whole. -/
theorem eval_retryClassified_of_final {r : Except ε α} (hop : op.eval h s = (s', r))
    (hr : ∀ e, r = .error e → Classify.retry e = false) (delaysMs : List Nat) :
    (retryClassified delaysMs op).eval h s = (s', r) := by
  rw [retryClassified, Program.eval_bind, hop]
  cases delaysMs with
  | nil => rfl
  | cons d delays =>
    cases r with
    | ok a => rfl
    | error e => simp [retryRounds, hr e rfl]

/-- A retryable error uses up one delay. -/
theorem eval_retryClassified_of_retry {e : ε} (hop : op.eval h s = (s', .error e))
    (he : Classify.retry e = true) (d : Nat) (delaysMs : List Nat) :
    (retryClassified (d :: delaysMs) op).eval h s = (retryClassified delaysMs op).eval h s' := by
  rw [retryClassified, Program.eval_bind, hop]
  simp [retryRounds, he, retryClassified]

/-- What one attempt ensures, and every failure leaves ready for the next attempt, the whole
ensures. -/
theorem ensures_retryClassified {I : σ → Prop} {Q : Except ε α → σ → Prop}
    (hop : op.Ensures h I Q) (hagain : ∀ e s, Q (.error e) s → I s) (delaysMs : List Nat) :
    (retryClassified delaysMs op).Ensures h I Q := by
  have hrounds : ∀ delays r, (retryRounds op delays r).Ensures h (Q r) Q := by
    intro delays
    induction delays with
    | nil => exact fun r => Program.Ensures.ret fun _ hr => hr
    | cons d delays ih =>
      intro r
      cases r with
      | ok a => exact Program.Ensures.ret fun _ hr => hr
      | error e =>
        rw [retryRounds]
        split_ifs
        · exact (hop.of_imp (hagain e)).bind ih
        · exact Program.Ensures.ret fun _ hr => hr
  exact hop.bind (hrounds delaysMs)

theorem keeps_retryClassified {I : σ → Prop} (hop : op.Keeps h I) (delaysMs : List Nat) :
    (retryClassified delaysMs op).Keeps h I :=
  ensures_retryClassified hop (fun _ _ hs => hs) delaysMs

end Eval

theorem makes_retryClassified [Classify ε] {P : C → Prop} {op : Program C A (Except ε α)}
    (hop : op.Makes P) (delaysMs : List Nat) : (retryClassified delaysMs op).Makes P := by
  have hrounds : ∀ delays r, (retryRounds op delays r).Makes P := by
    intro delays
    induction delays with
    | nil => exact fun r => Program.Makes.ret
    | cons d delays ih =>
      intro r
      cases r with
      | ok a => exact Program.Makes.ret
      | error e =>
        rw [retryRounds]
        split_ifs
        · exact hop.bind ih
        · exact Program.Makes.ret
  exact hop.bind (hrounds delaysMs)

section Follows
variable {μ : Type} {M : Monitor C A μ} {expected : (c : C) → A c → Prop}

/-- The number is that of the delays left: an attempt starts with `I`, and a failure that asks for
another one leaves it ready with one delay fewer. -/
theorem follows_retryClassified [Classify ε] {op : Program C A (Except ε α)} {I : Nat → μ → Prop}
    {Q : Nat → Except ε α → μ → Prop} (hop : ∀ n m, I n m → op.Follows M expected (Q n) m)
    (hagain : ∀ n e m, Classify.retry e = true → Q (n + 1) (.error e) m → I n m)
    (delaysMs : List Nat) {m : μ} (hm : I delaysMs.length m) :
    (retryClassified delaysMs op).Follows M expected (fun r m => ∃ n, Q n r m) m := by
  have hrounds : ∀ (delays : List Nat) (r : Except ε α) (m : μ), Q delays.length r m →
      (retryRounds op delays r).Follows M expected (fun r m => ∃ n, Q n r m) m := by
    intro delays
    induction delays with
    | nil => exact fun r m hr => Program.Follows.ret ⟨0, hr⟩
    | cons d delays ih =>
      intro r m hr
      cases r with
      | ok a => exact Program.Follows.ret ⟨_, hr⟩
      | error e =>
        rw [retryRounds]
        split_ifs with he
        · exact (hop _ m (hagain _ e m he hr)).bind ih
        · exact Program.Follows.ret ⟨_, hr⟩
  exact (hop _ m hm).bind (hrounds delaysMs)

end Follows

section Protocol
variable {τ ι σ : Type} {W : World τ ι σ C A} {P : Protocol W} {t : τ}

/-- A contract of one attempt that every failure leaves ready for the next attempt is a contract
of the whole retry. -/
theorem meets_retryClassified [Classify ε] {op : Program C A (Except ε α)} {I : σ → Prop}
    {Q : Except ε α → σ → Prop} (hop : ∀ s, I s → P.Meets t Q op s)
    (hagain : ∀ e s, P.inv s → Q (.error e) s → I s)
    (hstable : ∀ r a b, P.rely t a b → P.inv b → Q r a → Q r b) (delaysMs : List Nat) {s : σ}
    (hs : I s) : P.Meets t Q (retryClassified delaysMs op) s := by
  have hrounds : ∀ delays r m, P.inv m → Q r m → P.Meets t Q (retryRounds op delays r) m := by
    intro delays
    induction delays with
    | nil => exact fun r m _ hr m' hm hi => hstable r m m' hm hi hr
    | cons d delays ih =>
      intro r m hi hr
      cases r with
      | ok a => exact fun m' hm hi' => hstable _ m m' hm hi' hr
      | error e =>
        rw [retryRounds]
        split_ifs
        · apply Protocol.Meets.bind
          exact (hop m (hagain e m hi hr)).mono fun r m hm hq => ih r m hm hq
        · exact fun m' hm hi' => hstable _ m m' hm hi' hr
  apply Protocol.Meets.bind
  exact (hop s hs).mono fun r m hm hq => hrounds delaysMs r m hm hq

end Protocol

section Promises
variable {τ ι σ : Type} {W : World τ ι σ C A} {P : Promises W} {retired : τ → Prop} {t : τ}

/-- A contract of one attempt that every failure leaves ready for the next attempt is a contract
of the whole retry. -/
theorem respects_retryClassified [Classify ε] {op : Program C A (Except ε α)} {I : σ → Prop}
    {Q : Except ε α → σ → Prop} (hop : ∀ s, I s → P.Respects retired t Q op s)
    (hagain : ∀ e s, P.inv s → Q (.error e) s → I s)
    (hstable : ∀ r a b, P.Rely retired t a b → P.inv b → Q r a → Q r b) (delaysMs : List Nat)
    {s : σ} (hs : I s) : P.Respects retired t Q (retryClassified delaysMs op) s := by
  have hrounds : ∀ delays r m, P.inv m → Q r m →
      P.Respects retired t Q (retryRounds op delays r) m := by
    intro delays
    induction delays with
    | nil =>
      exact fun r m _ hr => Promises.Respects.ret fun m' hm hi => hstable r m m' hm hi hr
    | cons d delays ih =>
      intro r m hi hr
      cases r with
      | ok a => exact Promises.Respects.ret fun m' hm hi' => hstable _ m m' hm hi' hr
      | error e =>
        rw [retryRounds]
        split_ifs
        · apply Promises.Respects.bind
          exact (hop m (hagain e m hi hr)).mono fun r m hm hq => ih r m hm hq
        · exact Promises.Respects.ret fun m' hm hi' => hstable _ m m' hm hi' hr
  apply Promises.Respects.bind
  exact (hop s hs).mono fun r m hm hq => hrounds delaysMs r m hm hq

end Promises
end ReactRuntime.Core
