import ReactRuntime.Core.Error
import ReactRuntime.Serde.Json
import Mathlib.Logic.Function.Basic

/-!
# Ceilings of one agent run

A meter counts model calls, tool calls and agent steps against fixed ceilings.
The action ledger counts how often one action has failed.
-/
namespace ReactRuntime.Core
open Serde

def MAX_REPEATED_ACTION_FAILURES : Nat := 3

def U32_MAX : UInt32 := 4294967295

def MAX_AUTO_RESUMES : UInt8 := 8

/-- Charge one auto-resume to the count that is already used. -/
def chargeAutoResume (used : UInt8) : Except BudgetExhausted UInt8 :=
  if used = 255 then .error .autoResumes
  else if MAX_AUTO_RESUMES < used + 1 then .error .autoResumes
  else .ok (used + 1)

inductive Charge where
  | llmCall
  | toolCall
  | agentStep
deriving DecidableEq, Repr

def Charge.exhausted : Charge → BudgetExhausted
  | .llmCall => .llmCalls
  | .toolCall => .toolCalls
  | .agentStep => .agentSteps

structure RunBudget where
  maxLlmCalls : UInt32
  maxToolCalls : UInt32
  maxAgentSteps : UInt32
deriving DecidableEq, Repr

namespace RunBudget

/-- The calls that a number of steps is granted of either kind: eight for each step, at least eight
and at most what the counter holds. -/
def callsFor (maxAgentSteps : UInt32) : UInt32 :=
  let per := if maxAgentSteps = 0 then 8
    else if maxAgentSteps > U32_MAX / 8 then U32_MAX
    else maxAgentSteps * 8
  if per < 8 then 8 else per

def agentSteps (maxAgentSteps : UInt32) : RunBudget :=
  ⟨callsFor maxAgentSteps, callsFor maxAgentSteps, maxAgentSteps⟩

def withAgentSteps (_ : RunBudget) (maxAgentSteps : UInt32) : RunBudget := agentSteps maxAgentSteps

/-- The budget after a raise to `maxAgentSteps`. -/
def raised (b : RunBudget) (maxAgentSteps : UInt32) : RunBudget :=
  b.withAgentSteps (max maxAgentSteps b.maxAgentSteps)

def ceiling (b : RunBudget) : Charge → UInt32
  | .llmCall => b.maxLlmCalls
  | .toolCall => b.maxToolCalls
  | .agentStep => b.maxAgentSteps

theorem toNat_callsFor (n : UInt32) :
    (callsFor n).toNat = max 8 (min (8 * n.toNat) U32_MAX.toNat) := by
  have hn := n.toNat_lt
  have hmax : U32_MAX.toNat = 4294967295 := rfl
  unfold callsFor
  dsimp only
  by_cases h0 : n = 0
  · subst h0
    rfl
  · rw [if_neg h0]
    have hpos : 0 < n.toNat := by
      rcases Nat.eq_zero_or_pos n.toNat with hz | hp
      · exact absurd (UInt32.toNat_inj.mp hz) h0
      · exact hp
    by_cases hbig : n > U32_MAX / 8
    · rw [if_pos hbig]
      have hb : 536870911 < n.toNat := UInt32.lt_iff_toNat_lt.mp hbig
      rw [if_neg (by decide)]
      omega
    · rw [if_neg hbig]
      have hb : ¬ 536870911 < n.toNat := fun h => hbig (UInt32.lt_iff_toNat_lt.mpr h)
      have hmul : (n * 8).toNat = 8 * n.toNat := by
        rw [UInt32.toNat_mul]
        change n.toNat * 8 % 2 ^ 32 = _
        omega
      have hge : ¬ n * 8 < 8 := by
        rw [UInt32.lt_iff_toNat_lt, hmul]
        change ¬ 8 * n.toNat < 8
        omega
      rw [if_neg hge, hmul]
      omega

/-- More steps are granted no fewer calls. -/
theorem callsFor_mono {n m : UInt32} (h : n ≤ m) : callsFor n ≤ callsFor m := by
  have hnat := UInt32.le_iff_toNat_le.mp h
  rw [UInt32.le_iff_toNat_le, toNat_callsFor, toNat_callsFor]
  omega

theorem le_max_right (n m : UInt32) : m ≤ max n m := by
  change m ≤ if n ≤ m then m else n
  split_ifs with hn
  · exact UInt32.le_refl _
  · exact UInt32.le_of_lt (UInt32.not_le.mp hn)

end RunBudget

structure BudgetMeter where
  budget : RunBudget
  llmCalls : UInt32
  toolCalls : UInt32
  agentSteps : UInt32
deriving DecidableEq, Repr

namespace BudgetMeter

def new (budget : RunBudget) : BudgetMeter := ⟨budget, 0, 0, 0⟩

def counter (m : BudgetMeter) : Charge → UInt32
  | .llmCall => m.llmCalls
  | .toolCall => m.toolCalls
  | .agentStep => m.agentSteps

def setCounter (m : BudgetMeter) (c : Charge) (n : UInt32) : BudgetMeter :=
  match c with
  | .llmCall => { m with llmCalls := n }
  | .toolCall => { m with toolCalls := n }
  | .agentStep => { m with agentSteps := n }

def raiseAgentSteps (m : BudgetMeter) (maxAgentSteps : UInt32) : BudgetMeter :=
  { m with budget := m.budget.raised maxAgentSteps }

/-- A charge that nothing disturbs. -/
def charge (m : BudgetMeter) (c : Charge) : BudgetMeter × Except BudgetExhausted Unit :=
  if m.counter c ≥ m.budget.ceiling c then (m, .error c.exhausted)
  else (m.setCounter c (m.counter c + 1), .ok ())

section Counters
variable (m : BudgetMeter) (c d : Charge) (n : UInt32)

@[simp] theorem budget_setCounter : (m.setCounter c n).budget = m.budget := by
  cases c <;> rfl

@[simp] theorem counter_setCounter_self : (m.setCounter c n).counter c = n := by
  cases c <;> rfl

theorem counter_setCounter : (m.setCounter c n).counter d = if d = c then n else m.counter d := by
  cases c <;> cases d <;> rfl

@[simp] theorem counter_raiseAgentSteps : (m.raiseAgentSteps n).counter c = m.counter c := by
  cases c <;> rfl

@[simp] theorem counter_new (b : RunBudget) : (new b).counter c = 0 := by
  cases c <;> rfl

@[simp] theorem budget_charge : (m.charge c).1.budget = m.budget := by
  unfold charge
  split_ifs <;> simp

/-- A counter below its ceiling does not wrap. -/
theorem toNat_succ_of_lt {n b : UInt32} (h : n < b) : (n + 1).toNat = n.toNat + 1 := by
  have hn : n.toNat < b.toNat := UInt32.lt_iff_toNat_lt.mp h
  have hb := b.toNat_lt
  rw [UInt32.toNat_add]
  change (n.toNat + 1) % 2 ^ 32 = _
  omega

variable {m c}

theorem charge_ok (h : (m.charge c).2 = .ok ()) : m.counter c < m.budget.ceiling c ∧
    (m.charge c).1 = m.setCounter c (m.counter c + 1) := by
  unfold charge at h ⊢
  split_ifs with hc
  · simp [hc] at h
  · exact ⟨UInt32.not_le.mp hc, rfl⟩

theorem charge_error {e : BudgetExhausted} (h : (m.charge c).2 = .error e) :
    m.budget.ceiling c ≤ m.counter c ∧ (m.charge c).1 = m ∧ e = c.exhausted := by
  unfold charge at h ⊢
  split_ifs with hc
  · rw [if_pos hc] at h
    cases h
    exact ⟨hc, rfl, rfl⟩
  · simp [hc] at h

variable (m c)

theorem counter_le_charge : m.counter d ≤ (m.charge c).1.counter d := by
  rcases hr : (m.charge c).2 with e | ⟨⟩
  · rw [(charge_error hr).2.1]
    exact UInt32.le_refl _
  · obtain ⟨hlt, hm⟩ := charge_ok hr
    rw [hm, counter_setCounter, UInt32.le_iff_toNat_le]
    split_ifs with hd
    · rw [toNat_succ_of_lt hlt, hd]
      omega
    · exact Nat.le_refl _

end Counters

/-- No counter is above its ceiling. -/
def Within (m : BudgetMeter) : Prop := ∀ c, m.counter c ≤ m.budget.ceiling c

theorem within_new (b : RunBudget) : (new b).Within := by
  intro c
  rw [counter_new]
  exact UInt32.le_iff_toNat_le.mpr (Nat.zero_le _)

theorem Within.charge {m : BudgetMeter} (h : m.Within) (c : Charge) : (m.charge c).1.Within := by
  intro d
  rcases hr : (m.charge c).2 with e | ⟨⟩
  · rw [(charge_error hr).2.1]
    exact h d
  · obtain ⟨hlt, hm⟩ := charge_ok hr
    rw [hm, counter_setCounter, budget_setCounter]
    split_ifs with hd
    · subst hd
      have hn := UInt32.lt_iff_toNat_lt.mp hlt
      rw [UInt32.le_iff_toNat_le, toNat_succ_of_lt hlt]
      omega
    · exact h d

/-- What charges may do to a meter: the budget stays, and no counter falls or passes its
ceiling. -/
structure Later (m m' : BudgetMeter) : Prop where
  budget : m'.budget = m.budget
  counters : ∀ c, m.counter c ≤ m'.counter c
  within : m.Within → m'.Within

theorem Later.refl (m : BudgetMeter) : Later m m := ⟨rfl, fun _ => UInt32.le_refl _, id⟩

theorem Later.trans {m₁ m₂ m₃ : BudgetMeter} (h : Later m₁ m₂) (h' : Later m₂ m₃) :
    Later m₁ m₃ :=
  ⟨h'.budget.trans h.budget, fun c => UInt32.le_trans (h.counters c) (h'.counters c),
    fun hw => h'.within (h.within hw)⟩

theorem Later.toNat_le {m m' : BudgetMeter} (h : Later m m') (c : Charge) :
    (m.counter c).toNat ≤ (m'.counter c).toNat :=
  UInt32.le_iff_toNat_le.mp (h.counters c)

theorem later_charge (m : BudgetMeter) (c : Charge) : Later m (m.charge c).1 :=
  ⟨budget_charge m c, fun d => counter_le_charge m c d, fun hw => hw.charge c⟩

/-- The meter after some charges. -/
def charges (m : BudgetMeter) (cs : List Charge) : BudgetMeter :=
  cs.foldl (fun m c => (m.charge c).1) m

theorem later_charges (m : BudgetMeter) (cs : List Charge) : Later m (m.charges cs) := by
  induction cs generalizing m with
  | nil => exact Later.refl m
  | cons c cs ih => exact (later_charge m c).trans (ih _)

end BudgetMeter

/-- Failures of each action, by tool name and fingerprint of the arguments. -/
structure ActionLedger where
  seen : String × UInt64 → Nat

namespace ActionLedger

def default : ActionLedger := ⟨fun _ => 0⟩

/-- Count one more failure; the third one is an error. The count stops at 255. -/
def recordFailure (self : ActionLedger) (hashArgs : Json → UInt64) (tool : String) (args : Json) :
    ActionLedger × Except Nat Nat :=
  let n := min (self.seen (tool, hashArgs args) + 1) 255
  (⟨Function.update self.seen (tool, hashArgs args) n⟩,
    if n ≥ MAX_REPEATED_ACTION_FAILURES then .error n else .ok n)

theorem recordFailure_ok {self self' : ActionLedger} {hashArgs : Json → UInt64} {tool : String}
    {args : Json} {n : Nat} (h : self.recordFailure hashArgs tool args = (self', .ok n)) :
    n < MAX_REPEATED_ACTION_FAILURES ∧ n = min (self.seen (tool, hashArgs args) + 1) 255 ∧
      self'.seen = Function.update self.seen (tool, hashArgs args) n := by
  simp only [recordFailure, Prod.mk.injEq] at h
  obtain ⟨rfl, hn⟩ := h
  split_ifs at hn with hlt
  cases hn
  exact ⟨Nat.lt_of_not_ge hlt, rfl, rfl⟩

end ActionLedger
end ReactRuntime.Core
