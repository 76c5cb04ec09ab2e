import ReactRuntime.Core.Budget
import ReactRuntime.Library.Machine
import Mathlib.Data.Fintype.Basic
import Mathlib.Data.Finset.Card

/-!
# Concurrent calls on one meter

A charge takes a snapshot of its ceiling and then loops over load and
compare-exchange. A raise replaces the whole budget under the write lock, so it
also replaces the ceilings of model and tool calls.
-/
namespace ReactRuntime.Core
open Library

variable {τ : Type}

inductive MeterOp where
  | charge (c : Charge)
  | raise (maxAgentSteps : UInt32)
deriving DecidableEq, Repr

/-- Where a call stands: before its lock, before a load, before a compare-exchange, or at its
end. -/
inductive MeterPc where
  | called
  | bounded (max : UInt32)
  | loaded (max n : UInt32)
  | returned (r : Except BudgetExhausted Unit)
deriving DecidableEq

structure Metered (τ : Type) where
  meter : BudgetMeter
  pc : τ → MeterPc

namespace Metered

def start (budget : RunBudget) : Metered τ := ⟨.new budget, fun _ => .called⟩

variable [DecidableEq τ]

/-- Call `t` is now at `pc`, and the meter is `m`. -/
def move (s : Metered τ) (t : τ) (m : BudgetMeter) (pc : MeterPc) : Metered τ :=
  ⟨m, Function.update s.pc t pc⟩

section Move
variable (s : Metered τ) {t u : τ} (m : BudgetMeter) (pc : MeterPc)

@[simp] theorem meter_move : (s.move t m pc).meter = m := rfl

@[simp] theorem pc_move_self : (s.move t m pc).pc t = pc := Function.update_self ..

theorem pc_move_of_ne (h : u ≠ t) : (s.move t m pc).pc u = s.pc u := Function.update_of_ne h ..

/-- Where a call is after a move: it has moved there, or it was there. -/
theorem pc_of_move {s : Metered τ} {m : BudgetMeter} {pc q : MeterPc}
    (h : (s.move t m pc).pc u = q) : u = t ∧ pc = q ∨ u ≠ t ∧ s.pc u = q := by
  by_cases hut : u = t
  · subst hut
    exact .inl ⟨rfl, (pc_move_self ..).symm.trans h⟩
  · exact .inr ⟨hut, (pc_move_of_ne s m pc hut).symm.trans h⟩

end Move

/-- The next atomic step of call `t`. -/
def step (op : τ → MeterOp) (s : Metered τ) (t : τ) : Option (Metered τ) :=
  match op t, s.pc t with
  | .raise n, .called => some (s.move t (s.meter.raiseAgentSteps n) (.returned (.ok ())))
  | .charge c, .called => some (s.move t s.meter (.bounded (s.meter.budget.ceiling c)))
  | .charge c, .bounded max =>
    if s.meter.counter c ≥ max then some (s.move t s.meter (.returned (.error c.exhausted)))
    else some (s.move t s.meter (.loaded max (s.meter.counter c)))
  | .charge c, .loaded max n =>
    if s.meter.counter c = n then
      some (s.move t (s.meter.setCounter c (n + 1)) (.returned (.ok ())))
    else some (s.move t s.meter (.bounded max))
  | _, _ => none

/-- What one step can do. -/
inductive Steps (op : τ → MeterOp) (t : τ) (s : Metered τ) : Metered τ → Prop
  | raise (n : UInt32) (hop : op t = .raise n) (hpc : s.pc t = .called) :
      Steps op t s (s.move t (s.meter.raiseAgentSteps n) (.returned (.ok ())))
  | snapshot (c : Charge) (hop : op t = .charge c) (hpc : s.pc t = .called) :
      Steps op t s (s.move t s.meter (.bounded (s.meter.budget.ceiling c)))
  | refuse (c : Charge) (max : UInt32) (hop : op t = .charge c) (hpc : s.pc t = .bounded max)
      (hmax : max ≤ s.meter.counter c) :
      Steps op t s (s.move t s.meter (.returned (.error c.exhausted)))
  | load (c : Charge) (max : UInt32) (hop : op t = .charge c) (hpc : s.pc t = .bounded max)
      (hmax : s.meter.counter c < max) :
      Steps op t s (s.move t s.meter (.loaded max (s.meter.counter c)))
  | grant (c : Charge) (max n : UInt32) (hop : op t = .charge c) (hpc : s.pc t = .loaded max n)
      (hn : s.meter.counter c = n) :
      Steps op t s (s.move t (s.meter.setCounter c (n + 1)) (.returned (.ok ())))
  | again (c : Charge) (max n : UInt32) (hop : op t = .charge c) (hpc : s.pc t = .loaded max n)
      (hn : s.meter.counter c ≠ n) :
      Steps op t s (s.move t s.meter (.bounded max))

theorem steps_of_step {op : τ → MeterOp} {s s' : Metered τ} {t : τ}
    (h : step op s t = some s') : Steps op t s s' := by
  unfold step at h
  split at h
  case h_1 n hop hpc =>
    cases h
    exact .raise n hop hpc
  case h_2 c hop hpc =>
    cases h
    exact .snapshot c hop hpc
  case h_3 c max hop hpc =>
    split_ifs at h with hmax <;> cases h
    · exact .refuse c max hop hpc hmax
    · exact .load c max hop hpc (UInt32.not_le.mp hmax)
  case h_4 c max n hop hpc =>
    split_ifs at h with hn <;> cases h
    · exact .grant c max n hop hpc hn
    · exact .again c max n hop hpc hn
  case h_5 => cases h

def machine (op : τ → MeterOp) : Machine (Metered τ) τ where
  step := step op

section Alone
variable {op : τ → MeterOp} {s : Metered τ} {t : τ} {c : Charge} {max n : UInt32}

theorem step_snapshot (hop : op t = .charge c) (hpc : s.pc t = .called) :
    step op s t = some (s.move t s.meter (.bounded (s.meter.budget.ceiling c))) := by
  simp only [step, hop, hpc]

theorem step_refuse (hop : op t = .charge c) (hpc : s.pc t = .bounded max)
    (hmax : max ≤ s.meter.counter c) :
    step op s t = some (s.move t s.meter (.returned (.error c.exhausted))) := by
  simp only [step, hop, hpc]
  exact if_pos hmax

theorem step_load (hop : op t = .charge c) (hpc : s.pc t = .bounded max)
    (hmax : ¬ max ≤ s.meter.counter c) :
    step op s t = some (s.move t s.meter (.loaded max (s.meter.counter c))) := by
  simp only [step, hop, hpc]
  exact if_neg hmax

theorem step_grant (hop : op t = .charge c) (hpc : s.pc t = .loaded max n)
    (hn : s.meter.counter c = n) :
    step op s t = some (s.move t (s.meter.setCounter c (n + 1)) (.returned (.ok ()))) := by
  simp only [step, hop, hpc]
  exact if_pos hn

theorem move_move (m m' : BudgetMeter) (pc pc' : MeterPc) :
    (s.move t m pc).move t m' pc' = s.move t m' pc' := by
  simp [move]

/-- A charge that nothing disturbs is the sequential one. -/
theorem run_charge_alone (hop : op t = .charge c) (hpc : s.pc t = .called) :
    ∃ n, (machine op).run s (List.replicate n t) =
      some (s.move t (s.meter.charge c).1 (.returned (s.meter.charge c).2)) := by
  by_cases hmax : s.meter.budget.ceiling c ≤ s.meter.counter c
  · refine ⟨2, (Machine.run_cons _).mpr ⟨_, step_snapshot hop hpc,
      (Machine.run_cons _).mpr ⟨_, step_refuse hop (pc_move_self ..) hmax, ?_⟩⟩⟩
    simp only [List.replicate_zero, Machine.run_nil, meter_move, move_move, BudgetMeter.charge,
      ge_iff_le, if_pos hmax]
  · refine ⟨3, (Machine.run_cons _).mpr ⟨_, step_snapshot hop hpc,
      (Machine.run_cons _).mpr ⟨_, step_load hop (pc_move_self ..) hmax,
        (Machine.run_cons _).mpr ⟨_, step_grant hop (pc_move_self ..) rfl, ?_⟩⟩⟩⟩
    simp only [List.replicate_zero, Machine.run_nil, meter_move, move_move, BudgetMeter.charge,
      ge_iff_le, if_neg hmax]

end Alone

section Counters
variable [Fintype τ] {op : τ → MeterOp} {s s' : Metered τ} {t : τ}

/-- The number of charges of one kind that have returned `Ok`. -/
def granted (op : τ → MeterOp) (s : Metered τ) (c : Charge) : Nat :=
  (Finset.univ.filter fun t => op t = .charge c ∧ s.pc t = .returned (.ok ())).card

omit [DecidableEq τ] in
theorem granted_start (budget : RunBudget) (c : Charge) :
    granted op (start budget) c = 0 := by
  rw [granted, Finset.card_eq_zero, Finset.filter_eq_empty_iff]
  rintro t - ⟨-, h⟩
  cases h

/-- A call that does not return a granted charge counts for nothing. -/
theorem granted_move (m : BudgetMeter) {pc : MeterPc} {c : Charge}
    (hbefore : s.pc t ≠ .returned (.ok ())) (hafter : op t = .charge c → pc ≠ .returned (.ok ())) :
    granted op (s.move t m pc) c = granted op s c := by
  unfold granted
  congr 1
  ext u
  simp only [Finset.mem_filter, Finset.mem_univ, true_and]
  by_cases hu : u = t
  · subst hu
    rw [pc_move_self]
    exact ⟨fun h => absurd h.2 (hafter h.1), fun h => absurd h.2 hbefore⟩
  · rw [pc_move_of_ne _ _ _ hu]

/-- A granted charge is one more of its kind. -/
theorem granted_move_grant (m : BudgetMeter) {c : Charge} (hop : op t = .charge c)
    (hbefore : s.pc t ≠ .returned (.ok ())) :
    granted op (s.move t m (.returned (.ok ()))) c = granted op s c + 1 := by
  unfold granted
  rw [← Finset.card_insert_of_notMem (a := t)]
  · congr 1
    ext u
    simp only [Finset.mem_filter, Finset.mem_univ, true_and, Finset.mem_insert]
    by_cases hu : u = t
    · subst hu
      simp [hop]
    · simp [pc_move_of_ne _ _ _ hu, hu]
  · simp [hbefore]

/-- Every counter is the number of granted charges of its kind, and no compare-exchange would pass
the snapshot of its call. -/
structure Counted (op : τ → MeterOp) (s : Metered τ) : Prop where
  granted_eq : ∀ c, granted op s c = (s.meter.counter c).toNat
  loaded_lt : ∀ t max n, s.pc t = .loaded max n → n < max

omit [DecidableEq τ] in
theorem counted_start (budget : RunBudget) : Counted op (start (τ := τ) budget) where
  granted_eq c := by
    rw [granted_start]
    exact (congrArg UInt32.toNat (BudgetMeter.counter_new c budget)).symm
  loaded_lt t max n h := nomatch h

/-- A step that changes neither a counter nor the number of granted charges. -/
theorem Counted.move (h : Counted op s) {m : BudgetMeter} {pc : MeterPc}
    (hcounter : ∀ c, m.counter c = s.meter.counter c)
    (hgranted : ∀ c, granted op (s.move t m pc) c = granted op s c)
    (hloaded : ∀ max n, pc = .loaded max n → n < max) : Counted op (s.move t m pc) where
  granted_eq c := by rw [hgranted, meter_move, hcounter, h.granted_eq]
  loaded_lt u max n hu := by
    rcases pc_of_move hu with ⟨rfl, hpc⟩ | ⟨-, hu⟩
    · exact hloaded max n hpc
    · exact h.loaded_lt u max n hu

theorem Counted.step (h : Counted op s) (hs : Steps op t s s') : Counted op s' := by
  cases hs with
  | raise n hop hpc =>
    refine h.move (fun c => BudgetMeter.counter_raiseAgentSteps _ c n) (fun c => ?_)
      fun _ _ he => nomatch he
    exact granted_move _ (by simp [hpc]) fun hc => nomatch hop.symm.trans hc
  | snapshot c hop hpc =>
    exact h.move (fun _ => rfl) (fun c => granted_move _ (by simp [hpc]) (by simp))
      fun _ _ he => nomatch he
  | refuse c max hop hpc hmax =>
    exact h.move (fun _ => rfl) (fun c => granted_move _ (by simp [hpc]) (by simp))
      fun _ _ he => nomatch he
  | load c max hop hpc hmax =>
    refine h.move (fun _ => rfl) (fun c => granted_move _ (by simp [hpc]) (by simp)) ?_
    rintro _ _ he
    cases he
    exact hmax
  | again c max n hop hpc hn =>
    exact h.move (fun _ => rfl) (fun c => granted_move _ (by simp [hpc]) (by simp))
      fun _ _ he => nomatch he
  | grant c max n hop hpc hn =>
    have hlt : s.meter.counter c < max := hn ▸ h.loaded_lt t max n hpc
    constructor
    · intro d
      rw [meter_move, BudgetMeter.counter_setCounter]
      split_ifs with hd
      · subst hd
        rw [granted_move_grant _ hop (by simp [hpc]), h.granted_eq, ← hn,
          BudgetMeter.toNat_succ_of_lt hlt]
      · rw [granted_move _ (by simp [hpc]), h.granted_eq]
        intro hd'
        cases hop.symm.trans hd'
        exact absurd rfl hd
    · intro u max' n' hu
      rcases pc_of_move hu with ⟨-, hpc⟩ | ⟨-, hu⟩
      · cases hpc
      · exact h.loaded_lt u max' n' hu

end Counters

section Refused
variable {op : τ → MeterOp} {s₀ s s' : Metered τ} {t u : τ} {c : Charge} {ls : List τ}

/-- Call `t` took its snapshot of the ceiling `max` in this run. -/
def SnapshotTaken (op : τ → MeterOp) (s₀ : Metered τ) (ls : List τ) (t : τ) (c : Charge)
    (max : UInt32) : Prop :=
  ∃ before since q, ls = before ++ t :: since ∧ (machine op).run s₀ before = some q ∧
    q.pc t = .called ∧ q.meter.budget.ceiling c = max

/-- Call `t` found its counter, at the step that ends it, at a ceiling that was in force when it took
its first step. -/
def RefusedAtCeiling (op : τ → MeterOp) (s₀ : Metered τ) (ls : List τ) (t : τ) (c : Charge) :
    Prop :=
  ∃ before during after q q', ls = before ++ t :: during ++ t :: after ∧
    (machine op).run s₀ before = some q ∧ q.pc t = .called ∧
    (machine op).run s₀ (before ++ t :: during) = some q' ∧
    q.meter.budget.ceiling c ≤ q'.meter.counter c

theorem SnapshotTaken.append {max : UInt32} (h : SnapshotTaken op s₀ ls t c max) (more : List τ) :
    SnapshotTaken op s₀ (ls ++ more) t c max := by
  obtain ⟨before, since, q, rfl, hq⟩ := h
  exact ⟨before, since ++ more, q, by simp, hq⟩

theorem RefusedAtCeiling.append (h : RefusedAtCeiling op s₀ ls t c) (more : List τ) :
    RefusedAtCeiling op s₀ (ls ++ more) t c := by
  obtain ⟨before, during, after, q, q', rfl, hq⟩ := h
  exact ⟨before, during, after ++ more, q, q', by simp, hq⟩

/-- What the position of a call says about the run so far. -/
structure Explained (op : τ → MeterOp) (s₀ : Metered τ) (ls : List τ) (s : Metered τ) : Prop where
  run_eq : (machine op).run s₀ ls = some s
  bounded : ∀ t c max, op t = .charge c → s.pc t = .bounded max → SnapshotTaken op s₀ ls t c max
  loaded : ∀ t c max n, op t = .charge c → s.pc t = .loaded max n →
    SnapshotTaken op s₀ ls t c max
  refused : ∀ t c e, op t = .charge c → s.pc t = .returned (.error e) →
    RefusedAtCeiling op s₀ ls t c

/-- The calls that do not move keep their explanation, so only the new position of the moving call
needs one. -/
theorem Explained.move (h : Explained op s₀ ls s) {m : BudgetMeter} {pc : MeterPc}
    (hstep : step op s t = some (s.move t m pc))
    (hbounded : ∀ c max, op t = .charge c → pc = .bounded max →
      SnapshotTaken op s₀ (ls ++ [t]) t c max)
    (hloaded : ∀ c max n, op t = .charge c → pc = .loaded max n →
      SnapshotTaken op s₀ (ls ++ [t]) t c max)
    (hrefused : ∀ c e, op t = .charge c → pc = .returned (.error e) →
      RefusedAtCeiling op s₀ (ls ++ [t]) t c) :
    Explained op s₀ (ls ++ [t]) (s.move t m pc) where
  run_eq := (Machine.run_append _).mpr ⟨s, h.run_eq, (Machine.run_cons _).mpr ⟨_, hstep, rfl⟩⟩
  bounded u c max hop hu := by
    rcases pc_of_move hu with ⟨rfl, hpc⟩ | ⟨-, hu⟩
    · exact hbounded c max hop hpc
    · exact (h.bounded u c max hop hu).append _
  loaded u c max n hop hu := by
    rcases pc_of_move hu with ⟨rfl, hpc⟩ | ⟨-, hu⟩
    · exact hloaded c max n hop hpc
    · exact (h.loaded u c max n hop hu).append _
  refused u c e hop hu := by
    rcases pc_of_move hu with ⟨rfl, hpc⟩ | ⟨-, hu⟩
    · exact hrefused c e hop hpc
    · exact (h.refused u c e hop hu).append _

theorem Explained.step (h : Explained op s₀ ls s) (hs : step op s t = some s') :
    Explained op s₀ (ls ++ [t]) s' := by
  have hsteps := steps_of_step hs
  cases hsteps with
  | raise n hop hpc =>
    exact h.move hs (fun _ _ _ he => nomatch he) (fun _ _ _ _ he => nomatch he)
      fun _ _ _ he => nomatch he
  | snapshot c hop hpc =>
    refine h.move hs ?_ (fun _ _ _ _ he => nomatch he) fun _ _ _ he => nomatch he
    intro c' max hop' he
    cases hop.symm.trans hop'
    exact ⟨ls, [], s, rfl, h.run_eq, hpc, MeterPc.bounded.inj he⟩
  | refuse c max hop hpc hmax =>
    refine h.move hs (fun _ _ _ he => nomatch he) (fun _ _ _ _ he => nomatch he) ?_
    intro c' e hop' he
    cases hop.symm.trans hop'
    obtain ⟨before, during, q, rfl, hq, hcalled, rfl⟩ := h.bounded t c max hop hpc
    exact ⟨before, during, [], q, s, rfl, hq, hcalled, h.run_eq, hmax⟩
  | load c max hop hpc hmax =>
    refine h.move hs (fun _ _ _ he => nomatch he) ?_ fun _ _ _ he => nomatch he
    intro c' max' n hop' he
    cases hop.symm.trans hop'
    rw [← (MeterPc.loaded.inj he).1]
    exact (h.bounded t c max hop hpc).append _
  | grant c max n hop hpc hn =>
    exact h.move hs (fun _ _ _ he => nomatch he) (fun _ _ _ _ he => nomatch he)
      fun _ _ _ he => nomatch he
  | again c max n hop hpc hn =>
    refine h.move hs ?_ (fun _ _ _ _ he => nomatch he) fun _ _ _ he => nomatch he
    intro c' max' hop' he
    cases hop.symm.trans hop'
    rw [← MeterPc.bounded.inj he]
    exact (h.loaded t c max n hop hpc).append _

end Refused

section Ceilings
variable {op : τ → MeterOp} {s s' : Metered τ} {t : τ}

/-- The next step of call `t` lowers no ceiling. -/
def KeepsCeilings (op : τ → MeterOp) (s : Metered τ) (t : τ) : Prop :=
  ∀ s', step op s t = some s' → ∀ c, s.meter.budget.ceiling c ≤ s'.meter.budget.ceiling c

/-- A raise meets the ceilings that are in force: the calls that its steps are granted are no fewer
than the budget has now. -/
def MeetsCeilings (op : τ → MeterOp) (s : Metered τ) (t : τ) : Prop :=
  ∀ n, op t = .raise n → s.pc t = .called →
    s.meter.budget.maxLlmCalls ≤ RunBudget.callsFor (max n s.meter.budget.maxAgentSteps) ∧
    s.meter.budget.maxToolCalls ≤ RunBudget.callsFor (max n s.meter.budget.maxAgentSteps)

theorem ceiling_le_raised {b : RunBudget} {n : UInt32}
    (hllm : b.maxLlmCalls ≤ RunBudget.callsFor (max n b.maxAgentSteps))
    (htool : b.maxToolCalls ≤ RunBudget.callsFor (max n b.maxAgentSteps)) (c : Charge) :
    b.ceiling c ≤ (b.raised n).ceiling c := by
  cases c with
  | llmCall => exact hllm
  | toolCall => exact htool
  | agentStep => exact RunBudget.le_max_right n b.maxAgentSteps

theorem keepsCeilings_iff (op : τ → MeterOp) (s : Metered τ) (t : τ) :
    KeepsCeilings op s t ↔ MeetsCeilings op s t := by
  constructor
  · intro h n hop hpc
    have hstep : step op s t =
        some (s.move t (s.meter.raiseAgentSteps n) (.returned (.ok ()))) := by
      simp only [step, hop, hpc]
    exact ⟨h _ hstep .llmCall, h _ hstep .toolCall⟩
  · intro h s' hs c
    cases steps_of_step hs with
    | raise n hop hpc =>
      obtain ⟨hllm, htool⟩ := h n hop hpc
      exact ceiling_le_raised hllm htool c
    | grant d max n hop hpc hn =>
      rw [meter_move, BudgetMeter.budget_setCounter]
      exact UInt32.le_refl _
    | snapshot | refuse | load | again => exact UInt32.le_refl _

/-- No counter is above its ceiling, and no charge works with a snapshot above its ceiling. -/
structure Covered (op : τ → MeterOp) (s : Metered τ) : Prop where
  within : s.meter.Within
  bounded : ∀ t c max, op t = .charge c → s.pc t = .bounded max → max ≤ s.meter.budget.ceiling c
  loaded : ∀ t c max n, op t = .charge c → s.pc t = .loaded max n →
    n < max ∧ max ≤ s.meter.budget.ceiling c

omit [DecidableEq τ] in
theorem covered_start (budget : RunBudget) : Covered op (start (τ := τ) budget) :=
  ⟨BudgetMeter.within_new budget, fun _ _ _ _ h => (nomatch h), fun _ _ _ _ _ h => (nomatch h)⟩

/-- Under ceilings that do not fall, only the new position of the moving call needs cover. -/
theorem Covered.move (h : Covered op s) {m : BudgetMeter} {pc : MeterPc}
    (hceiling : ∀ c, s.meter.budget.ceiling c ≤ m.budget.ceiling c) (hwithin : m.Within)
    (hbounded : ∀ c max, op t = .charge c → pc = .bounded max → max ≤ m.budget.ceiling c)
    (hloaded : ∀ c max n, op t = .charge c → pc = .loaded max n →
      n < max ∧ max ≤ m.budget.ceiling c) : Covered op (s.move t m pc) where
  within := hwithin
  bounded u c max hop hu := by
    rcases pc_of_move hu with ⟨rfl, hpc⟩ | ⟨-, hu⟩
    · exact hbounded c max hop hpc
    · exact UInt32.le_trans (h.bounded u c max hop hu) (hceiling c)
  loaded u c max n hop hu := by
    rcases pc_of_move hu with ⟨rfl, hpc⟩ | ⟨-, hu⟩
    · exact hloaded c max n hop hpc
    · obtain ⟨hn, hmax⟩ := h.loaded u c max n hop hu
      exact ⟨hn, UInt32.le_trans hmax (hceiling c)⟩

theorem Covered.step (h : Covered op s) (hmeets : MeetsCeilings op s t)
    (hs : step op s t = some s') : Covered op s' := by
  cases steps_of_step hs with
  | raise n hop hpc =>
    obtain ⟨hllm, htool⟩ := hmeets n hop hpc
    have hceiling := ceiling_le_raised hllm htool
    refine h.move hceiling (fun c => ?_) (fun _ _ _ he => nomatch he) fun _ _ _ _ he => nomatch he
    rw [BudgetMeter.counter_raiseAgentSteps]
    exact UInt32.le_trans (h.within c) (hceiling c)
  | snapshot c hop hpc =>
    refine h.move (fun _ => UInt32.le_refl _) h.within ?_ fun _ _ _ _ he => nomatch he
    intro c' max hop' he
    cases hop.symm.trans hop'
    cases he
    exact UInt32.le_refl _
  | refuse c max hop hpc hmax =>
    exact h.move (fun _ => UInt32.le_refl _) h.within (fun _ _ _ he => nomatch he)
      fun _ _ _ _ he => nomatch he
  | load c max hop hpc hmax =>
    refine h.move (fun _ => UInt32.le_refl _) h.within (fun _ _ _ he => nomatch he) ?_
    intro c' max' n hop' he
    cases hop.symm.trans hop'
    cases he
    exact ⟨hmax, h.bounded t c max hop hpc⟩
  | grant c max n hop hpc hn =>
    obtain ⟨hlt, hmax⟩ := h.loaded t c max n hop hpc
    have hbudget := BudgetMeter.budget_setCounter s.meter c (n + 1)
    refine h.move (fun _ => ?_) (fun d => ?_) (fun _ _ _ he => nomatch he)
      fun _ _ _ _ he => nomatch he
    · rw [hbudget]
      exact UInt32.le_refl _
    · rw [hbudget, BudgetMeter.counter_setCounter]
      split_ifs with hd
      · subst hd
        have hn := UInt32.lt_iff_toNat_lt.mp hlt
        have hm := UInt32.le_iff_toNat_le.mp hmax
        rw [UInt32.le_iff_toNat_le, BudgetMeter.toNat_succ_of_lt hlt]
        omega
      · exact h.within d
  | again c max n hop hpc hn =>
    refine h.move (fun _ => UInt32.le_refl _) h.within ?_ fun _ _ _ _ he => nomatch he
    intro c' max' hop' he
    cases hop.symm.trans hop'
    cases he
    exact (h.loaded t c max n hop hpc).2

/-- A budget that is made from its number of steps stays one, and every raise meets it. -/
theorem along_meetsCeilings_agentSteps (n : UInt32) (ls : List τ) :
    (machine op).Along (MeetsCeilings op) (start (.agentSteps n)) ls := by
  refine Machine.along_of_invariant
    (P := fun s => s.meter.budget = .agentSteps s.meter.budget.maxAgentSteps) ?_ ?_ rfl ls
  · intro s t s' h hs
    cases steps_of_step hs with
    | raise n hop hpc => rfl
    | grant c max n hop hpc hn => simpa using h
    | snapshot | refuse | load | again => exact h
  · intro s t h n hop hpc
    have hcalls := RunBudget.callsFor_mono (RunBudget.le_max_right n s.meter.budget.maxAgentSteps)
    constructor
    · exact (congrArg RunBudget.maxLlmCalls h).trans_le hcalls
    · exact (congrArg RunBudget.maxToolCalls h).trans_le hcalls

end Ceilings

section Runs
variable {op : τ → MeterOp} {budget : RunBudget} {ls : List τ} {s : Metered τ}

/-- The promise of the meter in the state a run ends in. -/
structure Kept [Fintype τ] (op : τ → MeterOp) (budget : RunBudget) (ls : List τ)
    (s : Metered τ) : Prop where
  never_lowered : (machine op).Along (KeepsCeilings op) (start budget) ls
  granted_eq : ∀ c, granted op s c = (s.meter.counter c).toNat
  within : ∀ c, s.meter.counter c ≤ s.meter.budget.ceiling c
  refused : ∀ t c e, op t = .charge c → s.pc t = .returned (.error e) →
    RefusedAtCeiling op (start budget) ls t c

theorem explained_run (hrun : (machine op).run (start budget) ls = some s) :
    Explained op (start budget) ls s := by
  induction ls using List.reverseRecOn generalizing s with
  | nil =>
    cases hrun
    exact ⟨rfl, fun _ _ _ _ h => (nomatch h), fun _ _ _ _ _ h => (nomatch h),
      fun _ _ _ _ h => (nomatch h)⟩
  | append_singleton ls t ih =>
    obtain ⟨m, hm, hlast⟩ := (Machine.run_append _).mp hrun
    obtain ⟨m', hstep, hnil⟩ := (Machine.run_cons _).mp hlast
    cases hnil
    exact (ih hm).step hstep

/-- In every interleaving, the meter keeps its promise exactly if every raise meets the ceilings that
are in force when it takes the lock. -/
theorem meter_kept_iff [Fintype τ]
    (hrun : (machine op).run (start budget) ls = some s) :
    Kept op budget ls s ↔ (machine op).Along (MeetsCeilings op) (start budget) ls := by
  have hguards : KeepsCeilings op = MeetsCeilings op :=
    funext fun s => funext fun t => propext (keepsCeilings_iff op s t)
  have hcounted : Counted op s := Machine.run_invariant
    (fun _ _ _ hp hstep => hp.step (steps_of_step hstep)) (counted_start budget) hrun
  constructor
  · intro h
    rw [← hguards]
    exact h.never_lowered
  · intro h
    have hcovered : Covered op s := Machine.run_invariant_along
      (fun _ _ _ hp hmeets hstep => hp.step hmeets hstep) (covered_start budget) h hrun
    exact ⟨hguards ▸ h, hcounted.granted_eq, hcovered.within, (explained_run hrun).refused⟩

end Runs

/-- Nine charges and a raise to the one step that the budget already has. -/
def lateRaiseOp (t : Fin 10) : MeterOp := if t = 9 then .raise 1 else .charge .llmCall

/-- Two charges race, and the ceiling is raised between their loads. -/
def racingOp (t : Fin 3) : MeterOp := if t = 2 then .raise 20 else .charge .llmCall

/-- The charge that loses the race charges again, under ceilings that have risen. -/
theorem meter_kept_racing :
    ∃ s, (machine racingOp).run (start (.agentSteps 10)) [0, 1, 0, 1, 2, 0, 1, 1, 1] = some s ∧
    s.meter.llmCalls = 2 ∧ Kept racingOp (.agentSteps 10) [0, 1, 0, 1, 2, 0, 1, 1, 1] s := by
  have hrun : ((machine racingOp).run (start (.agentSteps 10)) [0, 1, 0, 1, 2, 0, 1, 1, 1]).map
      (fun s => s.meter.llmCalls) = some 2 := by
    decide +kernel
  obtain ⟨s, hs, hcalls⟩ := Option.map_eq_some_iff.mp hrun
  exact ⟨s, hs, hcalls, (meter_kept_iff hs).mpr (along_meetsCeilings_agentSteps 10 _)⟩

/-- A budget of nine model calls for one step: after nine charges, a raise to one step leaves eight
calls, fewer than have been made. -/
theorem meter_lowered_lateRaise :
    ∃ s, (machine lateRaiseOp).run (start ⟨9, 9, 1⟩)
      ((List.finRange 9).flatMap (fun t => List.replicate 3 t.castSucc) ++ [9]) = some s ∧
    s.meter.budget.maxLlmCalls < s.meter.llmCalls ∧
    ¬ Kept lateRaiseOp ⟨9, 9, 1⟩
      ((List.finRange 9).flatMap (fun t => List.replicate 3 t.castSucc) ++ [9]) s := by
  have hrun : ((machine lateRaiseOp).run (start ⟨9, 9, 1⟩)
      ((List.finRange 9).flatMap (fun t => List.replicate 3 t.castSucc) ++ [9])).map
      (fun s => (s.meter.llmCalls, s.meter.budget.maxLlmCalls)) = some (9, 8) := by
    decide +kernel
  obtain ⟨s, hs, hcalls⟩ := Option.map_eq_some_iff.mp hrun
  rw [Prod.mk.injEq] at hcalls
  have hlt : s.meter.budget.maxLlmCalls < s.meter.llmCalls := by
    rw [hcalls.1, hcalls.2]
    decide
  exact ⟨s, hs, hlt, fun h => absurd (h.within .llmCall) (UInt32.not_le.mpr hlt)⟩

end Metered
end ReactRuntime.Core
