import ReactRuntime.Library.Machine
import Mathlib.Data.Fintype.Basic

/-!
# Cooperative cancellation

A cancel flag and a notifier. `notify_waiters` wakes the futures that exist at
that moment and leaves nothing behind for later ones. A waiter looks at the flag
first and creates its future afterwards, so a notification in between is lost on it.
-/
namespace ReactRuntime.Core
open Library

variable {τ : Type}

inductive CancelOp where
  | cancel
  | cancelled
deriving DecidableEq, Repr

/-- Where a call stands. `cancel` stores the flag, notifies and has then `cancelled` the token.
`cancelled` checks the flag, creates its future, and is parked on it until it is woken. -/
inductive CancelPc where
  | store
  | notify
  | cancelled
  | check
  | create
  | parked (woken : Bool)
  | returned
deriving DecidableEq, Repr

def CancelOp.entry : CancelOp → CancelPc
  | .cancel => .store
  | .cancelled => .check

/-- `notify_waiters`: every future that exists is woken. -/
def CancelPc.wake : CancelPc → CancelPc
  | .parked _ => .parked true
  | pc => pc

structure Cancelling (τ : Type) where
  flag : Bool
  pc : τ → CancelPc

namespace Cancelling

def start (op : τ → CancelOp) : Cancelling τ := ⟨false, fun t => (op t).entry⟩

variable [DecidableEq τ]

/-- Call `t` is now at `pc`. -/
def move (s : Cancelling τ) (t : τ) (flag : Bool) (pc : CancelPc) : Cancelling τ :=
  ⟨flag, Function.update s.pc t pc⟩

@[simp] theorem flag_move (s : Cancelling τ) (t : τ) (flag : Bool) (pc : CancelPc) :
    (s.move t flag pc).flag = flag := rfl

theorem pc_move (s : Cancelling τ) (t u : τ) (flag : Bool) (pc : CancelPc) :
    (s.move t flag pc).pc u = if u = t then pc else s.pc u := Function.update_apply ..

/-- All futures are woken. -/
def wakeAll (s : Cancelling τ) : Cancelling τ := ⟨s.flag, fun u => (s.pc u).wake⟩

/-- The next atomic step of call `t`; a future that has not been woken does not move. -/
def step (s : Cancelling τ) (t : τ) : Option (Cancelling τ) :=
  match s.pc t with
  | .store => some (s.move t true .notify)
  | .notify => some (s.wakeAll.move t s.flag .cancelled)
  | .check => some (s.move t s.flag (if s.flag then .returned else .create))
  | .create => some (s.move t s.flag (.parked false))
  | .parked true => some (s.move t s.flag .check)
  | .parked false | .cancelled | .returned => none

def machine (τ : Type) [DecidableEq τ] : Machine (Cancelling τ) τ where
  step := step

/-- What one step can do. -/
inductive Steps (t : τ) (s : Cancelling τ) : Cancelling τ → Prop
  | store (hpc : s.pc t = .store) : Steps t s (s.move t true .notify)
  | notify (hpc : s.pc t = .notify) : Steps t s (s.wakeAll.move t s.flag .cancelled)
  | check (hpc : s.pc t = .check) :
      Steps t s (s.move t s.flag (if s.flag then .returned else .create))
  | create (hpc : s.pc t = .create) : Steps t s (s.move t s.flag (.parked false))
  | resume (hpc : s.pc t = .parked true) : Steps t s (s.move t s.flag .check)

theorem steps_of_step {s s' : Cancelling τ} {t : τ} (h : step s t = some s') : Steps t s s' := by
  unfold step at h
  split at h
  case h_1 hpc =>
    cases h
    exact .store hpc
  case h_2 hpc =>
    cases h
    exact .notify hpc
  case h_3 hpc =>
    cases h
    exact .check hpc
  case h_4 hpc =>
    cases h
    exact .create hpc
  case h_5 hpc =>
    cases h
    exact .resume hpc
  all_goals cases h

variable {op : τ → CancelOp} {s s' : Cancelling τ} {t u : τ}

omit [DecidableEq τ] in
theorem wake_ne_parked_false (pc : CancelPc) : pc.wake ≠ .parked false := by
  cases pc <;> simp [CancelPc.wake]

omit [DecidableEq τ] in
theorem wake_eq_iff {pc pc' : CancelPc} (h : ∀ woken, pc' ≠ .parked woken) :
    pc.wake = pc' ↔ pc = pc' := by
  cases pc with
  | parked woken => exact ⟨fun he => absurd he.symm (h true), fun he => absurd he.symm (h woken)⟩
  | store | notify | cancelled | check | create | returned => exact Iff.rfl

/-- A cancel has returned, and a waiter is parked on a future that has not been woken. -/
def Lost (s : Cancelling τ) : Prop :=
  (∃ u, s.pc u = .cancelled) ∧ ∃ t, s.pc t = .parked false

/-- No waiters are notified while a waiter is between its check of the flag and its future. -/
def NoWaiterInGap (s : Cancelling τ) (t : τ) : Prop :=
  s.pc t = .notify → ∀ u, s.pc u ≠ .create

instance [Fintype τ] (s : Cancelling τ) (t : τ) : Decidable (NoWaiterInGap s t) :=
  inferInstanceAs (Decidable (s.pc t = .notify → ∀ u, s.pc u ≠ .create))

/-- A cancel that has stored the flag has set it. Once one has returned, no waiter is about to park
or parked for good. -/
structure Awake (s : Cancelling τ) : Prop where
  flag_set : ∀ u, s.pc u = .notify ∨ s.pc u = .cancelled → s.flag = true
  no_gap : ∀ u, s.pc u = .cancelled → ∀ t, s.pc t ≠ .create
  no_parked : ∀ u, s.pc u = .cancelled → ∀ t, s.pc t ≠ .parked false

omit [DecidableEq τ] in
theorem awake_start : Awake (start op) := by
  have hentry : ∀ t, (start op).pc t = .store ∨ (start op).pc t = .check := by
    intro t
    change (op t).entry = _ ∨ (op t).entry = _
    cases op t <;> simp [CancelOp.entry]
  constructor
  all_goals
    intro u hu
    rcases hentry u with h | h <;> simp [h] at hu

/-- Only the new position of the moving call needs a look, if it is no cancel that returns. -/
theorem Awake.move (h : Awake s) {flag : Bool} {pc : CancelPc} (hflag : s.flag = true → flag = true)
    (hpc : pc ≠ .cancelled) (hnotify : pc = .notify → flag = true)
    (hok : ∀ u, s.pc u = .cancelled → pc ≠ .create ∧ pc ≠ .parked false) :
    Awake (s.move t flag pc) := by
  have hold : ∀ u, (s.move t flag pc).pc u = .cancelled → s.pc u = .cancelled := by
    intro u hu
    rw [pc_move] at hu
    split_ifs at hu
    · exact absurd hu hpc
    · exact hu
  constructor
  · intro u hu
    rw [pc_move] at hu
    split_ifs at hu
    · exact hnotify (hu.resolve_right hpc)
    · exact hflag (h.flag_set u hu)
  · intro u hu v
    rw [pc_move]
    split_ifs
    · exact (hok u (hold u hu)).1
    · exact h.no_gap u (hold u hu) v
  · intro u hu v
    rw [pc_move]
    split_ifs
    · exact (hok u (hold u hu)).2
    · exact h.no_parked u (hold u hu) v

theorem Awake.step (h : Awake s) (hgap : NoWaiterInGap s t) (hs : Steps t s s') : Awake s' := by
  cases hs with
  | store hpc => exact h.move (fun _ => rfl) (by simp) (fun _ => rfl) (by simp)
  | notify hpc =>
    constructor
    · exact fun _ _ => h.flag_set t (Or.inl hpc)
    · intro u hu v
      rw [pc_move]
      split_ifs
      · simp
      · exact fun hv => hgap hpc v ((wake_eq_iff (by simp)).mp hv)
    · intro u hu v
      rw [pc_move]
      split_ifs
      · simp
      · exact wake_ne_parked_false _
  | check hpc =>
    refine h.move id ?_ ?_ fun u hu => ?_
    · split_ifs <;> simp
    · split_ifs <;> simp
    · rw [if_pos (h.flag_set u (Or.inr hu))]
      simp
  | create hpc => exact h.move id (by simp) (by simp) fun u hu => absurd hpc (h.no_gap u hu t)
  | resume hpc => exact h.move id (by simp) (by simp) (by simp)

omit [DecidableEq τ] in
theorem Awake.not_lost (h : Awake s) : ¬ Lost s := by
  rintro ⟨⟨u, hu⟩, t, ht⟩
  exact h.no_parked u hu t ht

/-- One more step loses nothing, even if it notifies at a bad moment. -/
theorem Awake.not_lost_step (h : Awake s) (hs : Steps t s s') : ¬ Lost s' := by
  by_cases hpc : s.pc t = .notify
  · cases hs with
    | notify =>
      rintro ⟨-, v, hv⟩
      rw [pc_move] at hv
      split_ifs at hv
      · exact wake_ne_parked_false _ hv
    | store hpc' | check hpc' | create hpc' | resume hpc' => simp [hpc] at hpc'
  · exact (h.step (fun hn => absurd hn hpc) hs).not_lost

/-- A waiter that is notified in its gap parks for good. -/
theorem lost_of_gap (ht : s.pc t = .notify) (hu : s.pc u = .create) :
    ∃ m m', step s t = some m ∧ step m u = some m' ∧ Lost m' ∧ step m' u = none := by
  have hne : u ≠ t := by
    rintro rfl
    simp [ht] at hu
  have hm : (s.wakeAll.move t s.flag .cancelled).pc u = .create := by
    rw [pc_move, if_neg hne]
    exact (wake_eq_iff (by simp)).mpr hu
  refine ⟨s.wakeAll.move t s.flag .cancelled,
    (s.wakeAll.move t s.flag .cancelled).move u s.flag (.parked false), ?_, ?_, ?_, ?_⟩
  · simp only [step, ht]
  · simp only [step, hm, flag_move]
  · refine ⟨⟨t, ?_⟩, u, ?_⟩
    · rw [pc_move, if_neg (Ne.symm hne), pc_move, if_pos rfl]
    · rw [pc_move, if_pos rfl]
  · simp [step, pc_move]

/-- Neither the states of a run nor those one step further are lost exactly if no waiters are
notified while one of them is between its check of the flag and its future. -/
theorem cancelled_neverLost_iff (op : τ → CancelOp) (ls : List τ) :
    (∀ before, before <+: ls → ∀ t m, (machine τ).run (start op) (before ++ [t]) = some m →
      ¬ Lost m) ↔ (machine τ).Along NoWaiterInGap (start op) ls := by
  constructor
  · intro h
    rw [Machine.along_iff]
    rintro before t after m rfl hm ht u hu
    obtain ⟨m₁, m₂, hstep, hstep', hlost, -⟩ := lost_of_gap ht hu
    refine h (before ++ [t]) ⟨after, by simp⟩ u m₂ ?_ hlost
    rw [List.append_assoc]
    exact (Machine.run_append _).mpr ⟨m, hm, (Machine.run_cons _).mpr ⟨m₁, hstep,
      (Machine.run_cons _).mpr ⟨m₂, hstep', rfl⟩⟩⟩
  · intro h before hbefore t m hm
    obtain ⟨q, hq, hlast⟩ := (Machine.run_append _).mp hm
    obtain ⟨m', hstep, hnil⟩ := (Machine.run_cons _).mp hlast
    cases hnil
    have hawake : Awake q := Machine.run_invariant_along
      (fun _ _ _ hp hgap hs => hp.step hgap (steps_of_step hs)) awake_start
      (h.of_isPrefix hbefore) hq
    exact hawake.not_lost_step (steps_of_step hstep)

def oneCancelOp (t : Bool) : CancelOp := if t then .cancel else .cancelled

/-- The waiter parks before the cancel notifies, and returns. -/
theorem cancelled_neverLost_parkedFirst :
    ∃ s, (machine Bool).run (start oneCancelOp) [false, false, true, true, false, false] =
      some s ∧ s.pc false = .returned ∧
    ∀ before, before <+: [false, false, true, true, false, false] → ∀ t m,
      (machine Bool).run (start oneCancelOp) (before ++ [t]) = some m → ¬ Lost m := by
  have hrun : ((machine Bool).run (start oneCancelOp) [false, false, true, true, false, false]).map
      (fun s => s.pc false) = some .returned := by
    decide
  obtain ⟨s, hs, hpc⟩ := Option.map_eq_some_iff.mp hrun
  have hgap : (machine Bool).Along NoWaiterInGap (start oneCancelOp)
      [false, false, true, true, false, false] := by
    decide
  exact ⟨s, hs, hpc, (cancelled_neverLost_iff oneCancelOp _).mpr hgap⟩

/-- The waiter finds the flag down, the cancel runs to its end, and the waiter parks. Nobody is left
to wake it. -/
theorem cancelled_lost_checkedFirst :
    ∃ s, (machine Bool).run (start oneCancelOp) [false, true, true, false] = some s ∧
    s.flag = true ∧ Lost s ∧ ∀ t, (machine Bool).step s t = none := by
  have hrun : ((machine Bool).run (start oneCancelOp) [false, true, true, false]).map
      (fun s => (s.flag, s.pc false, s.pc true)) = some (true, .parked false, .cancelled) := by
    decide
  obtain ⟨s, hs, heq⟩ := Option.map_eq_some_iff.mp hrun
  simp only [Prod.mk.injEq] at heq
  obtain ⟨hflag, hwaiter, hcancel⟩ := heq
  refine ⟨s, hs, hflag, ⟨⟨true, hcancel⟩, false, hwaiter⟩, fun t => ?_⟩
  cases t with
  | false => simp only [machine, step, hwaiter]
  | true => simp only [machine, step, hcancel]

end Cancelling
end ReactRuntime.Core
