import ReactRuntime.Session.Store

/-!
# Processes over one backend

The state shared by all calls: the stored objects, the entry map of the caching
adapter of each process, the cache of each thread store and the write locks of
each process. A call of the backend may also be refused without any effect.
-/
namespace ReactRuntime.Session
open Library Serde ReactRuntime.Core Storage

inductive KernelCall (B E : Type) where
  | storage (c : StorageCall B E)
  | readEntry (key : String)
  | writeEntry (key : String) (entry : CacheEntry B E)
  | invalidateEntry (key : String)
  | cacheGet (key : String)
  | cacheInsert (key : String) (entry : LogCacheEntry E)
  | cacheRemove (key : String)
  | lock (key : String)
  | unlock (key : String)

variable {B E : Type}

@[reducible] def KernelCall.Answer : KernelCall B E → Type
  | .storage c => c.Answer
  | .readEntry _ => Option (CacheEntry B E)
  | .writeEntry _ _ => Unit
  | .invalidateEntry _ => Unit
  | .cacheGet _ => Option (LogCacheEntry E)
  | .cacheInsert _ _ => Unit
  | .cacheRemove _ => Unit
  | .lock _ => Unit
  | .unlock _ => Unit

/-- Where a task runs: its process, and the thread store it uses. -/
structure Site where
  process : Nat
  store : Nat
deriving DecidableEq

structure Kernel (B E : Type) where
  objects : Objects B
  entries : Nat → String → Option (CacheEntry B E)
  logs : Nat → String → Option (LogCacheEntry E)
  locked : Nat → String → Bool

/-- Replace the value of one key in the table of one owner. -/
def updateAt {α : Type} (f : Nat → String → α) (owner : Nat) (key : String) (v : α) :
    Nat → String → α :=
  Function.update f owner (Function.update (f owner) key v)

theorem updateAt_apply {α : Type} (f : Nat → String → α) (owner o : Nat) (key k : String) (v : α) :
    updateAt f owner key v o k = if o = owner ∧ k = key then v else f o k := by
  unfold updateAt
  by_cases ho : o = owner
  · subst ho
    by_cases hk : k = key <;> simp [hk]
  · simp [ho]

/-- An entry of the table is the new one, or was there. -/
theorem of_updateAt_eq_some {α : Type} {f : Nat → String → Option α} {owner o : Nat}
    {key k : String} {v : Option α} {a : α} (h : updateAt f owner key v o k = some a) :
    (k = key ∧ v = some a) ∨ f o k = some a := by
  rw [updateAt_apply] at h
  split_ifs at h with hk
  · exact .inl ⟨hk.2, h⟩
  · exact .inr h

/-- A table with one entry replaced keeps what holds of every entry. -/
theorem forall_updateAt {α : Type} {f : Nat → String → Option α} {key : String} {p : α → Prop}
    (h : ∀ owner a, f owner key = some a → p a) {o : Nat} {v : Option α}
    (hv : ∀ a, v = some a → p a) :
    ∀ owner a, updateAt f o key v owner key = some a → p a := by
  intro owner a ha
  rcases of_updateAt_eq_some ha with ⟨-, hnew⟩ | hold
  · exact hv a hnew
  · exact h owner a hold

namespace Kernel

/-- Nothing stored, nothing cached, nothing locked. -/
def init : Kernel B E := ⟨SortedMap.empty, fun _ _ => none, fun _ _ => none, fun _ _ => false⟩

variable [DecidableEq E] (F : Format B E)

/-- What a call does when nothing blocks or refuses it. -/
def perform (site : Site) (s : Kernel B E) : (c : KernelCall B E) → Kernel B E × c.Answer
  | .storage c => ({ s with objects := (F.serve s.objects c).1 }, (F.serve s.objects c).2)
  | .readEntry key => (s, s.entries site.process key)
  | .writeEntry key entry =>
    ({ s with entries := updateAt s.entries site.process key (some entry) }, ())
  | .invalidateEntry key => ({ s with entries := updateAt s.entries site.process key none }, ())
  | .cacheGet key => (s, s.logs site.store key)
  | .cacheInsert key entry => ({ s with logs := updateAt s.logs site.store key (some entry) }, ())
  | .cacheRemove key => ({ s with logs := updateAt s.logs site.store key none }, ())
  | .lock key => ({ s with locked := updateAt s.locked site.process key true }, ())
  | .unlock key => ({ s with locked := updateAt s.locked site.process key false }, ())

/-- A lock that is held makes its next taker wait. -/
def blocked (site : Site) (s : Kernel B E) : KernelCall B E → Bool
  | .lock key => s.locked site.process key
  | _ => false

/-- One step of a task: an answer, or a refusal that the environment chose for a storage call. -/
def exec (site : Site) (s : Kernel B E) :
    Option CoreError → (c : KernelCall B E) → Option (Kernel B E × c.Answer)
  | none, c => if s.blocked site c then none else some (s.perform F site c)
  | some e, .storage _ => some (s, .error e)
  | some _, _ => none

end Kernel

/-- A call that stays within the process. -/
def KernelCall.isLocal : KernelCall B E → Bool
  | .storage _ => false
  | _ => true

namespace Kernel
variable [DecidableEq E] {F : Format B E} {site : Site} {i : Option CoreError} {s s' : Kernel B E}

/-- A call of the storage is refused without any effect, or answered. -/
theorem exec_storage {c : StorageCall B E} {a : c.Answer}
    (h : s.exec F site i (.storage c) = some (s', a)) :
    (s' = s ∧ ∃ e, i = some e ∧ a = .error e) ∨
      (i = none ∧ s' = { s with objects := (F.serve s.objects c).1 } ∧
        a = (F.serve s.objects c).2) := by
  cases i with
  | none =>
    right
    simp only [exec, blocked, perform, Bool.false_eq_true, if_false, Option.some.injEq,
      Prod.mk.injEq] at h
    exact ⟨rfl, h.1.symm, h.2.symm⟩
  | some e =>
    left
    simp only [exec, Option.some.injEq, Prod.mk.injEq] at h
    exact ⟨h.1.symm, e, rfl, h.2.symm⟩

/-- A call within the process is never refused. -/
theorem exec_local {c : KernelCall B E} {a : c.Answer} (hc : c.isLocal)
    (h : s.exec F site i c = some (s', a)) :
    s' = (s.perform F site c).1 ∧ a = (s.perform F site c).2 := by
  cases i with
  | none =>
    simp only [exec] at h
    split_ifs at h
    rw [Option.some.inj h]
    exact ⟨rfl, rfl⟩
  | some e =>
    cases c with
    | storage c => cases hc
    | _ => cases h

end Kernel

/-- Make one call. -/
def KernelCall.issue (c : KernelCall B E) : Program (KernelCall B E) KernelCall.Answer c.Answer :=
  Program.perform c

/-- The backend itself. -/
def backend : StorageAdapter (KernelCall B E) KernelCall.Answer B E :=
  fun c => (KernelCall.storage c).issue

/-- The caching adapter of the process, over the backend. -/
def cachingAdapter (F : Format B E) :
    CachingStorageAdapter (KernelCall B E) KernelCall.Answer B E where
  inner := backend
  entries :=
    { readEntry := fun key => (KernelCall.readEntry key).issue
      writeEntry := fun key entry => (KernelCall.writeEntry key entry).issue
      invalidateEntry := fun key => (KernelCall.invalidateEntry key).issue }
  format := F

/-- What the runtime hands to its stores. -/
def cached [DecidableEq E] (F : Format B E) :
    StorageAdapter (KernelCall B E) KernelCall.Answer B E :=
  (cachingAdapter F).adapter

def ThreadStore.over (storage : StorageAdapter (KernelCall B E) KernelCall.Answer B E)
    (threadKey : String → Except String String) :
    ThreadStore (KernelCall B E) KernelCall.Answer B E where
  storage := storage
  threadKey := threadKey
  lock key := (KernelCall.lock key).issue
  unlock key := (KernelCall.unlock key).issue
  cacheGet key := (KernelCall.cacheGet key).issue
  cacheInsert key entry := (KernelCall.cacheInsert key entry).issue
  cacheRemove key := (KernelCall.cacheRemove key).issue

@[simp] theorem ThreadStore.over_storage
    (storage : StorageAdapter (KernelCall B E) KernelCall.Answer B E)
    (threadKey : String → Except String String) :
    (ThreadStore.over storage threadKey).storage = storage := rfl

end ReactRuntime.Session
