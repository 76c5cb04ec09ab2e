import Mathlib.Data.List.Basic

/-!
# The event hub

The hub is a broadcast channel of a fixed capacity. A receiver that falls behind is told so once,
and goes on with the oldest message that the channel still holds. The channel is closed when the
run is over, and the receiver then reads what is left.
-/
namespace ReactRuntime.Transport

/-- What `recv` gives before the channel is closed. -/
inductive Recv (M : Type) where
  | ok (msg : M)
  | lagged (skipped : Nat)
deriving DecidableEq, Repr

/-- What happens on the channel: a message is sent, or the receiver asks for the next one. -/
inductive HubAction (M : Type) where
  | emit (msg : M)
  | poll
deriving DecidableEq, Repr

/-- All messages that were sent, and how many of them the receiver is past. -/
structure EventHub (M : Type) where
  sent : List M
  next : Nat
deriving DecidableEq, Repr

namespace EventHub
variable {M : Type}

def new : EventHub M := ⟨[], 0⟩

def emit (hub : EventHub M) (msg : M) : EventHub M := { hub with sent := hub.sent ++ [msg] }

section
variable (capacity : Nat)

/-- One `recv`; nothing is there if the receiver is past all messages. -/
def recv (hub : EventHub M) : Option (Recv M × EventHub M) :=
  if hub.next + capacity < hub.sent.length then
    let oldest := hub.sent.length - capacity
    some (.lagged (oldest - hub.next), { hub with next := oldest })
  else
    hub.sent[hub.next]?.map fun msg => (.ok msg, { hub with next := hub.next + 1 })

/-- What the receiver reads of a closed channel. -/
def drain (hub : EventHub M) : List (Recv M) :=
  if hub.next + capacity < hub.sent.length then
    let oldest := hub.sent.length - capacity
    .lagged (oldest - hub.next) :: (hub.sent.drop oldest).map .ok
  else (hub.sent.drop hub.next).map .ok

/-- What the receiver reads in all. -/
def received (hub : EventHub M) : List (HubAction M) → List (Recv M)
  | [] => hub.drain capacity
  | .emit msg :: actions => (hub.emit msg).received actions
  | .poll :: actions => match hub.recv capacity with
    | none => hub.received actions
    | some (r, hub) => r :: hub.received actions

end

/-- The messages that are sent. -/
def emitted (actions : List (HubAction M)) : List M :=
  actions.filterMap fun action => match action with
    | .emit msg => some msg
    | .poll => none

section
variable {capacity : Nat}

theorem mem_of_drain {hub : EventHub M} {msg : M} (h : .ok msg ∈ hub.drain capacity) :
    msg ∈ hub.sent := by
  unfold drain at h
  split_ifs at h
  · rw [List.mem_cons, List.mem_map] at h
    rcases h with heq | ⟨m, hm, heq⟩
    · cases heq
    · cases heq
      exact List.mem_of_mem_drop hm
  · obtain ⟨m, hm, heq⟩ := List.mem_map.mp h
    cases heq
    exact List.mem_of_mem_drop hm

/-- What `recv` gives was sent. -/
theorem recv_spec {hub hub' : EventHub M} {r : Recv M} (h : hub.recv capacity = some (r, hub')) :
    hub'.sent = hub.sent ∧ match r with
      | .ok msg => hub.sent[hub.next]? = some msg ∧ hub'.next = hub.next + 1
      | .lagged _ => hub'.next = hub.sent.length - capacity := by
  unfold recv at h
  split_ifs at h
  · cases h
    exact ⟨rfl, rfl⟩
  · obtain ⟨msg, hmsg, heq⟩ := Option.map_eq_some_iff.mp h
    cases heq
    exact ⟨rfl, hmsg, rfl⟩

/-- Only sent messages are received. -/
theorem mem_of_received {hub : EventHub M} {actions : List (HubAction M)} {msg : M}
    (h : .ok msg ∈ hub.received capacity actions) : msg ∈ hub.sent ++ emitted actions := by
  induction actions generalizing hub with
  | nil => exact List.mem_append_left _ (mem_of_drain h)
  | cons action actions ih =>
    cases action with
    | emit m =>
      have hmem := ih h
      rwa [emit, List.append_assoc] at hmem
    | poll =>
      rw [received] at h
      cases hrecv : hub.recv capacity with
      | none =>
        rw [hrecv] at h
        exact ih h
      | some next =>
        obtain ⟨r, hub'⟩ := next
        obtain ⟨hsent, hr⟩ := recv_spec hrecv
        rw [hrecv] at h
        rcases List.mem_cons.mp h with rfl | hrest
        · exact List.mem_append_left _ (List.mem_of_getElem? hr.1)
        · have hmem := ih hrest
          rwa [hsent] at hmem

theorem mem_drain {hub : EventHub M} {msg : M} {i : Nat} (hmsg : hub.sent[i]? = some msg)
    (hlast : hub.sent.length ≤ i + capacity) (hnext : hub.next ≤ i) :
    .ok msg ∈ hub.drain capacity := by
  have hdrop {n : Nat} (hn : n ≤ i) : Recv.ok msg ∈ (hub.sent.drop n).map Recv.ok := by
    refine List.mem_map_of_mem (List.mem_of_getElem? (i := i - n) ?_)
    rw [List.getElem?_drop, Nat.add_sub_cancel' hn]
    exact hmsg
  unfold drain
  split_ifs
  · exact List.mem_cons_of_mem _ (hdrop (by omega))
  · exact hdrop hnext

/-- The last messages, as many as the channel holds, are never skipped. -/
theorem mem_received_of_last {hub : EventHub M} {actions : List (HubAction M)} {msg : M} {i : Nat}
    (hmsg : (hub.sent ++ emitted actions)[i]? = some msg)
    (hlast : (hub.sent ++ emitted actions).length ≤ i + capacity) (hnext : hub.next ≤ i) :
    .ok msg ∈ hub.received capacity actions := by
  induction actions generalizing hub with
  | nil =>
    rw [emitted, List.filterMap_nil, List.append_nil] at hmsg hlast
    exact mem_drain hmsg hlast hnext
  | cons action actions ih =>
    cases action with
    | emit m =>
      have hsent : (hub.emit m).sent ++ emitted actions = hub.sent ++ m :: emitted actions := by
        rw [emit, List.append_assoc]
        rfl
      exact ih (hsent ▸ hmsg) (hsent ▸ hlast) hnext
    | poll =>
      rw [received]
      cases hrecv : hub.recv capacity with
      | none => exact ih hmsg hlast hnext
      | some next =>
        obtain ⟨r, hub'⟩ := next
        obtain ⟨hsent, hr⟩ := recv_spec hrecv
        cases r with
        | lagged skipped =>
          have hle : hub.sent.length ≤ i + capacity := by
            rw [List.length_append] at hlast
            omega
          refine List.mem_cons_of_mem _ (ih (hsent ▸ hmsg) (hsent ▸ hlast) ?_)
          rw [hr]
          omega
        | ok m =>
          obtain ⟨hm, hnext'⟩ := hr
          by_cases heq : hub.next = i
          · have hlength := (List.getElem?_eq_some_iff.mp hm).1
            rw [← heq, List.getElem?_append_left hlength, hm] at hmsg
            cases hmsg
            exact List.mem_cons_self
          · refine List.mem_cons_of_mem _ (ih (hsent ▸ hmsg) (hsent ▸ hlast) ?_)
            omega

end
end EventHub
end ReactRuntime.Transport
