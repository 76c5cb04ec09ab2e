import ReactRuntime.Library.Census
import ReactRuntime.Library.Machine

/-!
# Requests in flight

A limiter counts the permits that are out. A client that finds no free slot waits on a condition
variable and looks again when it is woken; a permit that is dropped wakes one of the waiters.
-/
namespace ReactRuntime.Llm
open Library

structure InflightLimiter where
  maxInflight : Nat
  pos : 1 ≤ maxInflight

def InflightLimiter.new (maxInflight : Nat) : InflightLimiter :=
  ⟨max maxInflight 1, Nat.le_max_right ..⟩

/-- Where a client stands: it has no permit, waits on the condition variable, was woken and has to
take the mutex again, or has a permit. -/
inductive ClientPc where
  | idle
  | parked
  | woken
  | holding
deriving DecidableEq, Repr

structure Inflight (τ : Type) where
  slots : Nat
  pc : τ → ClientPc

/-- What the scheduler chooses: the client that takes the mutex next, and who is woken by a permit
that is dropped. A waiter can also wake up without a notification. -/
inductive InflightLabel (τ : Type) where
  | acquire (t : τ)
  | recheck (t : τ)
  | release (t : τ) (notified : Option τ)
  | spurious (t : τ)
deriving DecidableEq, Repr

namespace Inflight
variable {τ : Type} [Fintype τ] [DecidableEq τ]

def start (τ : Type) : Inflight τ := ⟨0, fun _ => .idle⟩

def move (s : Inflight τ) (t : τ) (pc : ClientPc) : Inflight τ := ⟨s.slots, Function.update s.pc t pc⟩

/-- The loop of `acquire` with the mutex taken: take a slot or wait. -/
def tryAcquire (limiter : InflightLimiter) (s : Inflight τ) (t : τ) : Inflight τ :=
  if s.slots ≥ limiter.maxInflight then s.move t .parked
  else { s.move t .holding with slots := s.slots + 1 }

/-- The slot that `release` gives back. -/
def free (s : Inflight τ) (t : τ) : Inflight τ :=
  { s.move t .idle with slots := if s.slots > 0 then s.slots - 1 else s.slots }

/-- `notify_one` wakes a waiter if there is one. -/
def notifyOne (s : Inflight τ) : Option τ → Option (Inflight τ)
  | some u => if s.pc u = .parked then some (s.move u .woken) else none
  | none => if ∀ u, s.pc u ≠ .parked then some s else none

def step (limiter : InflightLimiter) (s : Inflight τ) : InflightLabel τ → Option (Inflight τ)
  | .acquire t => if s.pc t = .idle then some (s.tryAcquire limiter t) else none
  | .recheck t => if s.pc t = .woken then some (s.tryAcquire limiter t) else none
  | .release t notified => if s.pc t = .holding then (s.free t).notifyOne notified else none
  | .spurious t => if s.pc t = .parked then some (s.move t .woken) else none

def machine (limiter : InflightLimiter) : Machine (Inflight τ) (InflightLabel τ) where
  step := step limiter

/-- What one step can do. -/
inductive Steps (limiter : InflightLimiter) (s : Inflight τ) : Inflight τ → Prop
  | enter (t : τ) (hpc : s.pc t = .idle ∨ s.pc t = .woken) (hfree : s.slots < limiter.maxInflight) :
      Steps limiter s { s.move t .holding with slots := s.slots + 1 }
  | wait (t : τ) (hpc : s.pc t = .idle ∨ s.pc t = .woken) (hfull : limiter.maxInflight ≤ s.slots) :
      Steps limiter s (s.move t .parked)
  | handOver (t u : τ) (hpc : s.pc t = .holding) (hparked : s.pc u = .parked) :
      Steps limiter s ((s.free t).move u .woken)
  | release (t : τ) (hpc : s.pc t = .holding) (hnone : ∀ u, s.pc u ≠ .parked) :
      Steps limiter s (s.free t)
  | spurious (t : τ) (hpc : s.pc t = .parked) : Steps limiter s (s.move t .woken)

/-- What a run keeps: the counter is the number of permits, there are not too many of them, and while
someone waits every free slot has a client that was woken for it. -/
structure Inv (limiter : InflightLimiter) (s : Inflight τ) : Prop where
  slots : s.slots = census s.pc .holding
  bound : s.slots ≤ limiter.maxInflight
  wakeups : ∀ t, s.pc t = .parked → limiter.maxInflight ≤ s.slots + census s.pc .woken

variable {limiter : InflightLimiter} {s s' : Inflight τ} {l : InflightLabel τ}

omit [Fintype τ] in
theorem steps_tryAcquire {t : τ} (hpc : s.pc t = .idle ∨ s.pc t = .woken) :
    Steps limiter s (s.tryAcquire limiter t) := by
  unfold tryAcquire
  split_ifs with hfull
  · exact .wait t hpc hfull
  · exact .enter t hpc (not_le.mp hfull)

theorem steps_of_step (h : step limiter s l = some s') : Steps limiter s s' := by
  unfold step at h
  cases l with
  | acquire t =>
    dsimp only at h
    split_ifs at h with hpc
    cases h
    exact steps_tryAcquire (.inl hpc)
  | recheck t =>
    dsimp only at h
    split_ifs at h with hpc
    cases h
    exact steps_tryAcquire (.inr hpc)
  | spurious t =>
    dsimp only at h
    split_ifs at h with hpc
    cases h
    exact .spurious t hpc
  | release t notified =>
    dsimp only at h
    split_ifs at h with hpc
    have hpcs : ∀ u, (s.free t).pc u = if u = t then .idle else s.pc u :=
      fun u => Function.update_apply ..
    cases notified with
    | some u =>
      rw [notifyOne] at h
      split_ifs at h with hparked
      cases h
      rw [hpcs] at hparked
      split_ifs at hparked
      exact .handOver t u hpc hparked
    | none =>
      rw [notifyOne] at h
      split_ifs at h with hnone
      cases h
      refine .release t hpc fun u hu => hnone u ?_
      rw [hpcs, if_neg, hu]
      rintro rfl
      rw [hpc] at hu
      cases hu

omit [DecidableEq τ] in
theorem inv_start (limiter : InflightLimiter) : Inv limiter (start τ) where
  slots := (census_eq_zero.mpr fun _ => by simp [start]).symm
  bound := Nat.zero_le _
  wakeups := by simp [start]

/-- A client that moves takes its part of the numbers along. -/
theorem census_move (s : Inflight τ) (t : τ) (pc q : ClientPc) :
    census (s.move t pc).pc q + (if s.pc t = q then 1 else 0) =
      census s.pc q + (if pc = q then 1 else 0) := census_update ..

omit [Fintype τ] in
theorem parked_of_move {t u : τ} {pc : ClientPc} (hpc : pc ≠ .parked)
    (hu : (s.move t pc).pc u = .parked) : s.pc u = .parked := by
  change Function.update s.pc t pc u = .parked at hu
  rw [Function.update_apply] at hu
  split_ifs at hu
  · exact absurd hu hpc
  · exact hu

/-- A newcomer takes one of the free slots, a woken client the one that it was woken for. -/
theorem Inv.enter (h : Inv limiter s) {t : τ} (hpc : s.pc t = .idle ∨ s.pc t = .woken)
    (hfree : s.slots < limiter.maxInflight) :
    Inv limiter { s.move t .holding with slots := s.slots + 1 } := by
  have hslots := h.slots
  have hholding := census_move s t .holding .holding
  have hwoken := census_move s t .holding .woken
  constructor
  · rcases hpc with hpc | hpc <;> simp [hpc] at hholding ⊢ <;> omega
  · exact hfree
  · intro u hu
    have hwakeups := h.wakeups u (parked_of_move (by simp) hu)
    rcases hpc with hpc | hpc <;> simp [hpc] at hwoken ⊢ <;> omega

/-- A client that waits finds no free slot. -/
theorem Inv.wait (h : Inv limiter s) {t : τ} (hpc : s.pc t = .idle ∨ s.pc t = .woken)
    (hfull : limiter.maxInflight ≤ s.slots) : Inv limiter (s.move t .parked) := by
  have hholding := census_move s t .parked .holding
  constructor
  · rw [← show s.slots = (s.move t .parked).slots from rfl, h.slots]
    rcases hpc with hpc | hpc <;> simpa [hpc] using hholding.symm
  · exact h.bound
  · exact fun _ _ => hfull.trans (Nat.le_add_right ..)

theorem census_wake {t : τ} (hpc : s.pc t = .parked) :
    census (s.move t .woken).pc .holding = census s.pc .holding ∧
      census (s.move t .woken).pc .woken = census s.pc .woken + 1 := by
  constructor
  · simpa [hpc] using census_move s t .woken .holding
  · simpa [hpc] using census_move s t .woken .woken

theorem Inv.wake (h : Inv limiter s) {t : τ} (hpc : s.pc t = .parked) :
    Inv limiter (s.move t .woken) := by
  obtain ⟨hholding, hwoken⟩ := census_wake hpc
  refine ⟨h.slots.trans hholding.symm, h.bound, fun u hu => ?_⟩
  rw [hwoken]
  exact (h.wakeups u (parked_of_move (by simp) hu)).trans (Nat.le_succ _)

/-- The slot of a permit that is dropped is free, and the counter is what it should be. -/
theorem Inv.free_slots (h : Inv limiter s) {t : τ} (hpc : s.pc t = .holding) :
    (s.free t).slots + 1 = s.slots ∧ (s.free t).slots = census (s.free t).pc .holding ∧
      census (s.free t).pc .woken = census s.pc .woken := by
  have hslots := h.slots
  have hpos : 0 < census s.pc .holding := census_pos.mpr ⟨t, hpc⟩
  have hholding : census (s.move t .idle).pc .holding + 1 = census s.pc .holding := by
    simpa [hpc] using census_move s t .idle .holding
  have hwoken : census (s.move t .idle).pc .woken = census s.pc .woken := by
    simpa [hpc] using census_move s t .idle .woken
  have hfree : (s.free t).slots = s.slots - 1 := if_pos (by omega)
  have hpcs : (s.free t).pc = (s.move t .idle).pc := rfl
  rw [hpcs]
  exact ⟨by omega, by omega, hwoken⟩

/-- The free slot of a permit goes along with a client that is woken for it. -/
theorem Inv.handOver (h : Inv limiter s) {t u : τ} (hpc : s.pc t = .holding)
    (hparked : s.pc u = .parked) : Inv limiter ((s.free t).move u .woken) := by
  obtain ⟨hone, hslots, hwoken⟩ := h.free_slots hpc
  have hne : u ≠ t := by
    rintro rfl
    rw [hpc] at hparked
    cases hparked
  have hstays : (s.free t).pc u = .parked := (Function.update_of_ne hne ..).trans hparked
  obtain ⟨hholding, hwake⟩ := census_wake hstays
  have hbound := h.bound
  have hcounter : ((s.free t).move u .woken).slots = (s.free t).slots := rfl
  constructor
  · rw [hcounter, hslots, hholding]
  · omega
  · intro v hv
    have hwakeups := h.wakeups v (parked_of_move (by simp) (parked_of_move (by simp) hv))
    omega

theorem Inv.step (h : Inv limiter s) (hs : Steps limiter s s') : Inv limiter s' := by
  cases hs with
  | enter t hpc hfree => exact h.enter hpc hfree
  | wait t hpc hfull => exact h.wait hpc hfull
  | handOver t u hpc hparked => exact h.handOver hpc hparked
  | spurious t hpc => exact h.wake hpc
  | release t hpc hnone =>
    obtain ⟨hone, hslots, -⟩ := h.free_slots hpc
    have hbound := h.bound
    refine ⟨hslots, by omega, fun u hu => absurd ?_ (hnone u)⟩
    exact parked_of_move (by simp) hu

/-- In every run the counter is the number of permits, which stays in its bound, and no slot is free
while a client waits and none was woken. -/
theorem inflight_limited (maxInflight : Nat) {labels : List (InflightLabel τ)}
    (hrun : (machine (.new maxInflight)).run (start τ) labels = some s) :
    census s.pc .holding = s.slots ∧ s.slots ≤ max maxInflight 1 ∧
      ¬ (s.slots < max maxInflight 1 ∧ (∃ t, s.pc t = .parked) ∧ ∀ t, s.pc t ≠ .woken) := by
  have hinv : Inv (.new maxInflight) s :=
    Machine.run_invariant (fun _ _ _ h hstep => h.step (steps_of_step hstep)) (inv_start _) hrun
  refine ⟨hinv.slots.symm, hinv.bound, ?_⟩
  rintro ⟨hfree, ⟨t, ht⟩, hnone⟩
  have hwakeups := hinv.wakeups t ht
  rw [census_eq_zero.mpr hnone] at hwakeups
  exact absurd hfree (not_lt.mpr hwakeups)

/-- Two clients and one slot. -/
theorem inflight_limited_two : ∃ s : Inflight Bool, (s.pc false = .idle ∧ s.pc true = .woken) ∧
    census s.pc .holding = s.slots ∧ s.slots ≤ max 1 1 ∧
      ¬ (s.slots < max 1 1 ∧ (∃ t, s.pc t = .parked) ∧ ∀ t, s.pc t ≠ .woken) :=
  have hrun : (machine (.new 1)).run (start Bool)
      [.acquire false, .acquire true, .release false (some true)] = some _ := rfl
  ⟨_, ⟨rfl, rfl⟩, inflight_limited 1 hrun⟩

end Inflight
end ReactRuntime.Llm
