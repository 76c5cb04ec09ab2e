import ReactRuntime.Session.ControlState
import ReactRuntime.Session.Kernel

/-!
# Mutations of the control state

Any number of processes save, mutate and delete the control state of one thread.
The etag of a mutation comes from a HEAD and its body from a later GET, so the
compare-and-swap protects the closure only if both saw the same version.
-/
namespace ReactRuntime.Session
open Library Serde ReactRuntime.Core Storage

inductive ControlCall (B E T : Type) where
  | storage (c : StorageCall B E)
  | lock (key : String)
  | unlock (key : String)
  | apply (mutate : Option T → Except CoreError T) (current : Option T)

variable {τ B E T : Type}

@[reducible] def ControlCall.Answer : ControlCall B E T → Type
  | .storage c => c.Answer
  | .lock _ => Unit
  | .unlock _ => Unit
  | .apply _ _ => Except CoreError T

structure ControlKernel (B : Type) where
  objects : Objects B
  locked : Nat → String → Bool

namespace ControlKernel

def init (objects : Objects B) : ControlKernel B := ⟨objects, fun _ _ => false⟩

/-- One step of a task of the process. The environment may refuse a storage call; everything else
it leaves alone. -/
def exec [DecidableEq E] (F : Format B E) (process : Nat) (s : ControlKernel B) :
    Option CoreError → (c : ControlCall B E T) → Option (ControlKernel B × c.Answer)
  | none, .storage c => some ({ s with objects := (F.serve s.objects c).1 }, (F.serve s.objects c).2)
  | some e, .storage _ => some (s, .error e)
  | none, .lock key =>
    if s.locked process key then none
    else some ({ s with locked := updateAt s.locked process key true }, ())
  | none, .unlock key => some ({ s with locked := updateAt s.locked process key false }, ())
  | none, .apply mutate current => some (s, mutate current)
  | some _, _ => none

end ControlKernel

/-- Make one call. -/
def ControlCall.issue (c : ControlCall B E T) :
    Program (ControlCall B E T) ControlCall.Answer c.Answer :=
  Program.perform c

/-- The store of a process, directly over the backend. -/
def ControlStateStore.over (controlStateKey : String → Except String String)
    (payload : Payload T) : ControlStateStore (ControlCall B E T) ControlCall.Answer B E T where
  storage c := (ControlCall.storage c).issue
  controlStateKey := controlStateKey
  lock key := (ControlCall.lock key).issue
  unlock key := (ControlCall.unlock key).issue
  apply mutate current := (ControlCall.apply mutate current).issue
  payload := payload

/-- What one task did: the bytes that its last GET saw, what its closure was applied to, and the
object before and after each of its writes. -/
structure MutationRecord (B T : Type) where
  fetched : Option B
  argument : Option (Option T)
  writes : List (Option B × Option B)

namespace MutationRecord

def init : MutationRecord B T := ⟨none, none, []⟩

/-- Whether an answer says that the object was written or deleted. -/
def Changed : (c : StorageCall B E) → c.Answer → Bool
  | .putJson _ _, .ok _ => true
  | .putBytes _ _ _, .ok _ => true
  | .deleteObject _, .ok _ => true
  | .putJsonIfEtagMatches _ _ _, .ok (.written _) => true
  | _, _ => false

variable [DecidableEq E] (F : Format B E) (key : String)

def noteStorage (objects : Objects B) (r : MutationRecord B T) (c : StorageCall B E)
    (a : c.Answer) : MutationRecord B T where
  fetched := match c, a with
    | .getJson k, .ok _ => objects.get k
    | _, _ => r.fetched
  argument := r.argument
  writes := if Changed c a then
      r.writes ++ [(objects.get key, (F.serve objects c).1.get key)]
    else r.writes

def note [DecidableEq τ] (t : τ) : (c : ControlCall B E T) → c.Answer → ControlKernel B →
    (τ → MutationRecord B T) → τ → MutationRecord B T
  | .storage c, a, s, g => Function.update g t (noteStorage F key s.objects (g t) c a)
  | .apply _ current, _, _, g => Function.update g t { g t with argument := some current }
  | _, _, _, g => g

theorem note_of_ne [DecidableEq τ] {t u : τ} (h : t ≠ u) (c : ControlCall B E T) (a : c.Answer)
    (s : ControlKernel B) (g : τ → MutationRecord B T) : note F key u c a s g t = g t := by
  unfold note
  split
  · exact Function.update_of_ne h _ _
  · exact Function.update_of_ne h _ _
  · rfl

end MutationRecord

abbrev Recorded (τ B T : Type) := ControlKernel B × (τ → MutationRecord B T)

section World
variable [DecidableEq τ] [DecidableEq E] (F : Format B E) (process : τ → Nat) (key : String)

/-- The world of all tasks, with a record for each. -/
def recordedWorld : World τ (Option CoreError) (Recorded τ B T) (ControlCall B E T)
    ControlCall.Answer :=
  World.instrument ⟨fun t i c s => s.exec F (process t) i c⟩ (MutationRecord.note F key)

/-- A conditional put that the object's etag lets through is made by a task whose GET saw that
etag, unless there was nothing to GET. -/
def SameVersion (t : τ) : ControlCall B E T → Recorded τ B T → Prop
  | .storage (.putJsonIfEtagMatches k _ (some etag)), s =>
    F.headOf s.1.objects k = some etag → (s.2 t).fetched.map F.etagOf = some etag
  | _, _ => True

instance (t : τ) : (c : ControlCall B E T) → (s : Recorded τ B T) →
    Decidable (SameVersion F t c s)
  | .storage (.putJsonIfEtagMatches k _ (some etag)), s =>
    inferInstanceAs (Decidable (F.headOf s.1.objects k = some etag →
      (s.2 t).fetched.map F.etagOf = some etag))
  | .storage (.putJsonIfEtagMatches _ _ none), _ => isTrue trivial
  | .storage (.getJson _), _ | .storage (.putJson _ _), _ | .storage (.getBytes _), _
  | .storage (.putBytes _ _ _), _ | .storage (.deleteObject _), _ | .storage (.headEtag _), _
  | .storage (.listPrefix _), _ | .lock _, _ | .unlock _, _ | .apply _ _, _ => isTrue trivial

/-- A task can count on its own record only: nothing is known about the object. -/
def controlProtocol : Protocol (recordedWorld (T := T) F process key) where
  inv _ := True
  rely t s s' := s'.2 t = s.2 t
  guard := SameVersion F
  rely_refl _ _ := rfl
  rely_trans _ _ _ _ hab hbc := hbc.trans hab
  frame u i c s s' a h t ht := by
    obtain ⟨-, hg⟩ := World.instrument_exec.mp h
    rw [hg]
    exact MutationRecord.note_of_ne F key ht c a s.1 s.2

instance (t : τ) (c : ControlCall B E T) (s : Recorded τ B T) :
    Decidable ((controlProtocol F process key).guard t c s) :=
  inferInstanceAs (Decidable (SameVersion F t c s))

end World

section Mutation
variable [DecidableEq E] (F : Format B E) (key : String) (payload : Payload T)
  (suiteId : String)

/-- The state that an object holds for a suite. -/
def stateOf (payload : Payload T) (suiteId : String) : Option B → Except CoreError (Option T)
  | none => .ok none
  | some bytes => (F.parseJson key bytes).bind fun v =>
    (ControlStateStore.over (fun _ => .ok key) payload :
      ControlStateStore (ControlCall B E T) ControlCall.Answer B E T).parse v suiteId

/-- A mutation that returned a state applied its closure to what the object held at its only write,
and wrote what it returned; a mutation that failed wrote nothing. -/
def TrueMutation (mutate : Option T → Except CoreError T) (result : Except CoreError T)
    (r : MutationRecord B T) : Prop :=
  match result with
  | .ok next => ∃ current before value, r.argument = some current ∧ mutate current = .ok next ∧
    stateOf F key payload suiteId before = .ok current ∧ payload.toValue next = .ok value ∧
    r.writes = [(before, some (F.render (ControlStateStore.encode suiteId value)))]
  | .error _ => r.writes = []

end Mutation

namespace Mutation
section Contracts
variable [DecidableEq τ] [DecidableEq E] {F : Format B E} {process : τ → Nat} {key : String}
  {t : τ} {s : Recorded τ B T} {r : MutationRecord B T}

theorem meets_anything {α : Type} (p : Program (ControlCall B E T) ControlCall.Answer α)
    (s : Recorded τ B T) :
    (controlProtocol F process key).Meets t (fun _ _ => True) p s := by
  induction p generalizing s with
  | ret a => exact fun _ _ _ => trivial
  | call c k ih => exact fun m _ _ _ i m' a _ => ⟨trivial, ih a m'⟩

theorem meets_ret {α : Type} {Q : α → MutationRecord B T → Prop} {a : α} (h : Q a (s.2 t)) :
    (controlProtocol F process key).Meets t (fun a m => Q a (m.2 t)) (.ret a) s := by
  intro m hm _
  rw [hm]
  exact h

theorem noteStorage_error (objects : Objects B) (r : MutationRecord B T) (c : StorageCall B E)
    (e : CoreError) : MutationRecord.noteStorage F key objects r c (.error e) = r := by
  cases c <;> rfl

/-- A storage call with retry is described by its answer: a refusal leaves the record as it is. -/
theorem meets_retryStorageCall (controlStateKey : String → Except String String)
    (payload : Payload T) (c : StorageCall B E) {Q : c.Answer → MutationRecord B T → Prop}
    (hs : s.2 t = r) (hrefused : ∀ e, Q (.error e) r) (herror : ∀ e r', Q (.error e) r' → r' = r)
    (hserved : ∀ m : Recorded τ B T, m.2 t = r → SameVersion F t (.storage c) m →
      Q (F.serve m.1.objects c).2
        (MutationRecord.noteStorage F key m.1.objects r c (F.serve m.1.objects c).2)) :
    (controlProtocol F process key).Meets t (fun a m => Q a (m.2 t))
      (retryStorageCall (ControlStateStore.over controlStateKey payload).storage c) s := by
  refine meets_retryClassified (I := fun m => m.2 t = r) ?_ ?_ ?_ SAFE_STORAGE_RETRY_DELAYS_MS hs
  · intro m hm m' hm' _ hguard i d a he
    obtain ⟨hexec, hnote⟩ := World.instrument_exec.mp he
    have hr : m'.2 t = r := hm'.trans hm
    refine ⟨trivial, meets_ret ?_⟩
    rw [hnote, MutationRecord.note, Function.update_self, hr]
    cases i with
    | none =>
      obtain ⟨-, rfl⟩ := Prod.mk.inj (Option.some.inj hexec)
      exact hserved m' hr hguard
    | some e =>
      obtain ⟨-, rfl⟩ := Prod.mk.inj (Option.some.inj hexec)
      rw [noteStorage_error]
      exact hrefused e
  · exact fun e m _ hq => herror e _ hq
  · intro a m m' hm _ hq
    rwa [hm]

variable (payload : Payload T) {controlStateKey : String → Except String String}
  {threadId : String} (suiteId : String)

/-- The record after a GET: the document is what the object held then. -/
def FetchEnd (F : Format B E) (key : String) (result : Except CoreError Json)
    (r : MutationRecord B T) : Prop :=
  match result with
  | .ok v => ∃ bytes, r = ⟨some bytes, none, []⟩ ∧ F.parseJson key bytes = .ok v
  | .error _ => r = .init

/-- The record after a load. -/
def LoadEnd (F : Format B E) (key : String) (result : Except CoreError (LoadState E Json))
    (r : MutationRecord B T) : Prop :=
  match result with
  | .ok (.loaded v) => ∃ bytes, v.etag.isSome ∧ r = ⟨some bytes, none, []⟩ ∧
    F.parseJson key bytes = .ok v.value
  | .ok .missing | .error _ => r = .init

omit [DecidableEq E] in
theorem key_over (hkey : controlStateKey threadId = .ok key) :
    (ControlStateStore.over controlStateKey payload : ControlStateStore (ControlCall B E T)
      ControlCall.Answer B E T).key threadId = .ok key := by
  simp only [ControlStateStore.key, ControlStateStore.over, hkey, Except.mapError]

theorem meets_loadRaw (hkey : controlStateKey threadId = .ok key) (hs : s.2 t = .init) :
    (controlProtocol F process key).Meets t (fun a m => LoadEnd F key a (m.2 t))
      ((ControlStateStore.over controlStateKey payload).loadRaw threadId) s := by
  simp only [ControlStateStore.loadRaw, key_over payload hkey]
  apply Protocol.Meets.andThen (R := fun _ m => m.2 t = .init)
  · exact meets_retryStorageCall controlStateKey payload (.headEtag key)
      (Q := fun _ r => r = .init) hs (fun _ => rfl) (fun _ _ h => h) fun _ _ _ => rfl
  · intro etag m _ hm
    cases etag with
    | none => exact meets_ret (Q := LoadEnd F key) hm
    | some etag =>
      apply Protocol.Meets.andThen (R := fun a m => FetchEnd F key a (m.2 t))
      · refine meets_retryStorageCall controlStateKey payload (.getJson key) (Q := FetchEnd F key) hm
          (fun _ => rfl) (fun _ _ h => h) ?_
        intro d _ _
        cases hobject : d.1.objects.get key with
        | none =>
          simp only [Format.serve, hobject]
          exact noteStorage_error d.1.objects .init (.getJson key) _
        | some bytes =>
          cases hparse : F.parseJson key bytes with
          | error e =>
            simp only [Format.serve, hobject, hparse]
            exact noteStorage_error d.1.objects .init (.getJson key) e
          | ok v =>
            simp only [Format.serve, hobject, hparse]
            exact ⟨bytes, by simp [MutationRecord.noteStorage, MutationRecord.Changed, hobject,
              MutationRecord.init], hparse⟩
      · rintro v d - ⟨bytes, hd, hparse⟩
        exact meets_ret (Q := LoadEnd F key) ⟨bytes, rfl, hd, hparse⟩
      · exact fun e d _ hd => meets_ret (Q := LoadEnd F key) hd
  · exact fun e m _ hm => meets_ret (Q := LoadEnd F key) hm

/-- A write that happened replaced an object under the expected etag, and a mutation that expected
an etag had seen it on the body, too. -/
def Swapped (F : Format B E) (value : Json) (expected : Option E) (r r' : MutationRecord B T) :
    Prop :=
  ∃ before, r' = { r with writes := r.writes ++ [(before, some (F.render value))] } ∧
    before.map F.etagOf = expected ∧ (expected ≠ none → r.fetched.map F.etagOf = expected)

/-- The record after a conditional put. -/
def SwapEnd (F : Format B E) (value : Json) (expected : Option E) (r : MutationRecord B T)
    (result : Except CoreError (ConditionalWriteStatus E)) (r' : MutationRecord B T) : Prop :=
  match result with
  | .ok (.written _) => Swapped F value expected r r'
  | .ok (.conflict _) | .error _ => r' = r

theorem meets_swap (value : Json) (expected : Option E) (hs : s.2 t = r) :
    (controlProtocol F process key).Meets t (fun a m => SwapEnd F value expected r a (m.2 t))
      (retryPutJsonIfEtagMatches (ControlStateStore.over controlStateKey payload).storage key value
        expected) s := by
  refine meets_retryStorageCall controlStateKey payload (.putJsonIfEtagMatches key value expected)
    (Q := SwapEnd F value expected r) hs (fun _ => rfl) (fun _ _ h => h) ?_
  intro m hm hguard
  by_cases hmatch : F.headOf m.1.objects key = expected
  · simp only [Format.serve, hmatch, if_true]
    refine ⟨m.1.objects.get key, ?_, hmatch, fun hexpected => ?_⟩
    · simp [MutationRecord.noteStorage, MutationRecord.Changed, Format.serve, hmatch]
    · obtain ⟨etag, rfl⟩ := Option.ne_none_iff_exists'.mp hexpected
      rw [← hm]
      exact hguard hmatch
  · simp only [Format.serve, hmatch, if_false]
    rfl

/-- The record after a conditional save, whose conflict is an error. -/
def SaveEnd (F : Format B E) (value : Json) (expected : Option E) (r : MutationRecord B T)
    (result : Except CoreError Unit) (r' : MutationRecord B T) : Prop :=
  match result with
  | .ok () => Swapped F value expected r r'
  | .error _ => r' = r

theorem meets_saveRawIfEtagMatches (hkey : controlStateKey threadId = .ok key)
    (showEtag : Option E → String) (value : Json) (expected : Option E) (hs : s.2 t = r) :
    (controlProtocol F process key).Meets t (fun a m => SaveEnd F value expected r a (m.2 t))
      ((ControlStateStore.over controlStateKey payload).saveRawIfEtagMatches showEtag threadId
        value expected) s := by
  simp only [ControlStateStore.saveRawIfEtagMatches, key_over payload hkey]
  apply Protocol.Meets.andThen (meets_swap payload value expected hs)
  · intro status m _ hswap
    cases status with
    | written etag => exact meets_ret (Q := SaveEnd F value expected r) hswap
    | conflict currentEtag => exact meets_ret (Q := SaveEnd F value expected r) hswap
  · exact fun e m _ hswap => meets_ret (Q := SaveEnd F value expected r) hswap

/-- The record after the closure. -/
theorem meets_apply (mutate : Option T → Except CoreError T) (current : Option T)
    (hs : s.2 t = r) : (controlProtocol F process key).Meets t
      (fun a m => m.2 t = { r with argument := some current } ∧ mutate current = a)
      ((ControlStateStore.over controlStateKey payload).apply mutate current) s := by
  intro d hd _ _ i d' a he
  obtain ⟨hexec, hnote⟩ := World.instrument_exec.mp he
  have hd' : d'.2 t = { r with argument := some current } := by
    rw [hnote, MutationRecord.note, Function.update_self, show d.2 t = s.2 t from hd, hs]
  cases i with
  | some e => cases hexec
  | none =>
    obtain ⟨-, rfl⟩ := Prod.mk.inj (Option.some.inj hexec)
    exact ⟨trivial, meets_ret (Q := fun a r' => r' = { r with argument := some current } ∧
      mutate current = a) ⟨hd', rfl⟩⟩

omit [DecidableEq E] in
theorem envelope_eq_ok {next : T} {envelope : Json} (h : (ControlStateStore.over controlStateKey
      payload : ControlStateStore (ControlCall B E T) ControlCall.Answer B E T).envelope suiteId
        next = .ok envelope) :
    ∃ value, payload.toValue next = .ok value ∧
      envelope = ControlStateStore.encode suiteId value := by
  unfold ControlStateStore.envelope ControlStateStore.over at h
  cases hvalue : payload.toValue next with
  | error e =>
    rw [hvalue] at h
    cases h
  | ok value =>
    rw [hvalue] at h
    exact ⟨value, rfl, (Except.ok.inj h).symm⟩

omit [DecidableEq E] in
/-- The body that was read is the object that was replaced, because both carry the same etag. -/
theorem stateOf_before (hetag : Function.Injective F.etagOf)
    {loaded : LoadState E Json} {current : Option T} {before : Option B} {fetched : Option B}
    (hload : LoadEnd F key (.ok loaded) (⟨fetched, none, []⟩ : MutationRecord B T))
    (hcurrent : (ControlStateStore.over controlStateKey payload : ControlStateStore
      (ControlCall B E T) ControlCall.Answer B E T).currentOf suiteId loaded = .ok current)
    (hbefore : before.map F.etagOf = ControlStateStore.expectedEtagOf loaded)
    (hsame : ControlStateStore.expectedEtagOf loaded ≠ none →
      fetched.map F.etagOf = ControlStateStore.expectedEtagOf loaded) :
    stateOf F key payload suiteId before = .ok current := by
  cases loaded with
  | missing =>
    rw [ControlStateStore.expectedEtagOf, Option.map_eq_none_iff] at hbefore
    subst hbefore
    exact hcurrent
  | loaded v =>
    obtain ⟨bytes, hsome, hr, hparse⟩ := hload
    cases hr
    obtain ⟨etag, hv⟩ := Option.isSome_iff_exists.mp hsome
    rw [ControlStateStore.expectedEtagOf, hv] at hbefore hsame
    obtain ⟨held, rfl, hheld⟩ := Option.map_eq_some_iff.mp hbefore
    have hbytes : F.etagOf bytes = etag := Option.some.inj (hsame (by simp))
    rw [hetag (hheld.trans hbytes.symm), stateOf, hparse]
    exact hcurrent

omit [DecidableEq E] in
/-- A loaded record has seen at most one body, and nothing else happened to it. -/
theorem LoadEnd.eq {loaded : LoadState E Json} (h : LoadEnd F key (.ok loaded) r) :
    r = ⟨r.fetched, none, []⟩ := by
  cases loaded with
  | missing =>
    have hr : r = .init := h
    rw [hr]
    rfl
  | loaded v =>
    obtain ⟨bytes, -, hr, -⟩ := h
    rw [hr]

theorem meets_mutateLocked (hetag : Function.Injective F.etagOf)
    (hkey : controlStateKey threadId = .ok key) (showEtag : Option E → String)
    (mutate : Option T → Except CoreError T) (hs : s.2 t = .init) :
    (controlProtocol F process key).Meets t
      (fun a m => TrueMutation F key payload suiteId mutate a (m.2 t))
      ((ControlStateStore.over controlStateKey payload).mutateLocked showEtag threadId suiteId
        mutate) s := by
  apply Protocol.Meets.andThen (meets_loadRaw payload hkey hs)
  · intro loaded m _ hload
    have hm := hload.eq
    cases hcurrent : (ControlStateStore.over controlStateKey payload : ControlStateStore
        (ControlCall B E T) ControlCall.Answer B E T).currentOf suiteId loaded with
    | error e =>
      exact meets_ret (Q := TrueMutation F key payload suiteId mutate) (by rw [hm]; rfl)
    | ok current =>
      apply Protocol.Meets.andThen (meets_apply payload mutate current hm)
      · rintro next d - ⟨hd, hnext⟩
        cases henvelope : (ControlStateStore.over controlStateKey payload : ControlStateStore
            (ControlCall B E T) ControlCall.Answer B E T).envelope suiteId next with
        | error e =>
          exact meets_ret (Q := TrueMutation F key payload suiteId mutate) (by rw [hd]; rfl)
        | ok envelope =>
          obtain ⟨value, hvalue, rfl⟩ := envelope_eq_ok payload suiteId henvelope
          apply Protocol.Meets.andThen (meets_saveRawIfEtagMatches payload hkey showEtag _
            (ControlStateStore.expectedEtagOf loaded) hd)
          · rintro _ u - ⟨before, hu, hbefore, hsame⟩
            refine meets_ret (Q := TrueMutation F key payload suiteId mutate) ⟨current, before,
              value, by rw [hu], hnext, ?_, hvalue, by rw [hu]; rfl⟩
            exact stateOf_before payload suiteId hetag (hm ▸ hload) hcurrent hbefore hsame
          · intro e u _ hsave
            have hu : u.2 t = _ := hsave
            exact meets_ret (Q := TrueMutation F key payload suiteId mutate) (by rw [hu]; rfl)
      · rintro e d - ⟨hd, -⟩
        exact meets_ret (Q := TrueMutation F key payload suiteId mutate) (by rw [hd]; rfl)
  · intro e m _ hload
    have hm : m.2 t = .init := hload
    exact meets_ret (Q := TrueMutation F key payload suiteId mutate) (by rw [hm]; rfl)

/-- Locks are not part of the record. -/
theorem meets_lockCall {c : ControlCall B E T} (hc : ∀ a m g,
    MutationRecord.note F key t c a m g = g) {Q : MutationRecord B T → Prop} (hs : Q (s.2 t)) :
    (controlProtocol F process key).Meets t (fun _ m => Q (m.2 t)) c.issue s := by
  intro d hd _ _ i d' a he
  obtain ⟨-, hnote⟩ := World.instrument_exec.mp he
  refine ⟨trivial, meets_ret (Q := fun _ r => Q r) ?_⟩
  rw [hnote, hc, show d.2 t = s.2 t from hd]
  exact hs

theorem meets_mutate (hetag : Function.Injective F.etagOf)
    (hkey : controlStateKey threadId = .ok key) (showEtag : Option E → String)
    (mutate : Option T → Except CoreError T) (hs : s.2 t = .init) :
    (controlProtocol F process key).Meets t
      (fun a m => TrueMutation F key payload suiteId mutate a (m.2 t))
      ((ControlStateStore.over controlStateKey payload).mutate showEtag threadId suiteId mutate)
      s := by
  simp only [ControlStateStore.mutate, key_over payload hkey]
  apply Protocol.Meets.bind
  apply (meets_lockCall (c := .lock key) (fun _ _ _ => rfl) (Q := (· = .init)) hs).mono
  intro _ m _ hm
  apply Protocol.Meets.bind
  apply (meets_mutateLocked payload suiteId hetag hkey showEtag mutate hm).mono
  intro result d _ hd
  apply Protocol.Meets.bind
  apply (meets_lockCall (c := .unlock key) (fun _ _ _ => rfl)
    (Q := TrueMutation F key payload suiteId mutate result) hd).mono
  exact fun _ u _ hu => meets_ret (Q := TrueMutation F key payload suiteId mutate) hu

end Contracts
end Mutation

/-- A call of one task on the control state of the thread. -/
inductive ControlOp (T : Type) where
  | save (suiteId : String) (state : T)
  | mutate (suiteId : String) (closure : Option T → Except CoreError T)
  | delete
  | load (suiteId : String)

inductive ControlReturned (T : Type) where
  | unit (r : Except CoreError Unit)
  | state (r : Except CoreError T)
  | loaded (r : Except CoreError (Option T))
deriving DecidableEq

namespace ControlOp
variable {C : Type} {A : C → Type} (self : ControlStateStore C A B E T)
  (showEtag : Option E → String) (threadId : String)

def program : ControlOp T → Program C A (ControlReturned T)
  | .save suiteId state => (self.save threadId suiteId state).bind fun r => .ret (.unit r)
  | .mutate suiteId closure =>
    (self.mutate showEtag threadId suiteId closure).bind fun r => .ret (.state r)
  | .delete => (self.delete threadId).bind fun r => .ret (.unit r)
  | .load suiteId => (self.load threadId suiteId).bind fun r => .ret (.loaded r)

end ControlOp

section Runs
variable [DecidableEq τ] [DecidableEq E] {F : Format B E} {process : τ → Nat} {key : String}
  (payload : Payload T) {controlStateKey : String → Except String String} {threadId : String}
  {showEtag : Option E → String} (op : τ → ControlOp T) (objects : Objects B)

/-- All tasks at their start, over the given objects. -/
def controlPool (controlStateKey : String → Except String String) (threadId : String)
    (showEtag : Option E → String) :
    Pool τ (Recorded τ B T) (ControlCall B E T) ControlCall.Answer (ControlReturned T) where
  shared := (.init objects, fun _ => .init)
  task t := (op t).program (ControlStateStore.over controlStateKey payload) showEtag threadId

/-- In every run whose conditional puts find the version that was read, or conflict, each mutation
that returned is a true read-modify-write. -/
theorem mutate_readModifyWrite (hetag : Function.Injective F.etagOf)
    (hkey : controlStateKey threadId = .ok key) {ls : List (τ × Option CoreError)}
    {p : Pool τ (Recorded τ B T) (ControlCall B E T) ControlCall.Answer (ControlReturned T)}
    (hguard : ((recordedWorld F process key).machine (ControlReturned T)).Along
      (controlProtocol F process key).Allows
      (controlPool payload op objects controlStateKey threadId showEtag) ls)
    (hrun : ((recordedWorld F process key).machine (ControlReturned T)).run
      (controlPool payload op objects controlStateKey threadId showEtag) ls = some p)
    {t : τ} {suiteId : String} {mutate : Option T → Except CoreError T}
    (hop : op t = .mutate suiteId mutate) {result : Except CoreError T}
    (hret : p.task t = .ret (.state result)) :
    TrueMutation F key payload suiteId mutate result (p.shared.2 t) := by
  have h0 : (controlProtocol F process key).Sound (fun u a m => u = t → ∀ result,
      a = .state result → TrueMutation F key payload suiteId mutate result (m.2 t))
      (controlPool payload op objects controlStateKey threadId showEtag) := by
    refine ⟨trivial, fun u => ?_⟩
    by_cases hu : u = t
    · subst hu
      change (controlProtocol F process key).Meets u _ ((op u).program _ showEtag threadId) _
      rw [hop]
      apply Protocol.Meets.bind
      apply (Mutation.meets_mutate payload suiteId hetag hkey showEtag mutate rfl).mono
      intro result m _ hm
      refine (Mutation.meets_ret (Q := fun a r => ∀ result', a = ControlReturned.state result' →
        TrueMutation F key payload suiteId mutate result' r) ?_).mono fun a d _ h _ => h
      intro result' ha
      cases ha
      exact hm
    · exact (Mutation.meets_anything _ _).mono fun _ _ _ _ h => absurd h hu
  exact (h0.run hguard hrun).returned hret rfl result rfl

end Runs

def plainPayload : Payload Json := ⟨.ok, .ok⟩

def stateDoc (n : UInt64) : Json := .num (.posInt n)

/-- A closure that returns what it was applied to. -/
def collect (current : Option Json) : Except CoreError Json := .ok (.arr current.toList)

/-- A mutation, and three saves of other processes. -/
def comebackOp : Fin 4 → ControlOp Json
  | 0 => .mutate "suite" collect
  | 1 => .save "suite" (stateDoc 1)
  | 2 => .save "suite" (stateDoc 2)
  | 3 => .save "suite" (stateDoc 1)

def comebackPool : Pool (Fin 4) (Recorded (Fin 4) Json Json) (ControlCall Json Json Json)
    ControlCall.Answer (ControlReturned Json) :=
  controlPool plainPayload comebackOp SortedMap.empty .ok "control" fun _ => ""

def comebackWorld : World (Fin 4) (Option CoreError) (Recorded (Fin 4) Json Json)
    (ControlCall Json Json Json) ControlCall.Answer :=
  recordedWorld Format.plain Fin.val "control"

def controlTurns (ts : List (Fin 4)) : List (Fin 4 × Option CoreError) := ts.map fun t => (t, none)

/-- A mutation that nobody disturbs. -/
theorem mutate_readModifyWrite_undisturbed :
    ∃ p, (comebackWorld.machine _).run comebackPool (controlTurns [1, 0, 0, 0, 0, 0, 0]) = some p ∧
    TrueMutation Format.plain "control" plainPayload "suite" collect (.ok (.arr [stateDoc 1]))
      (p.shared.2 0) := by
  have hrun : ((comebackWorld.machine _).run comebackPool
      (controlTurns [1, 0, 0, 0, 0, 0, 0])).map (fun p => (p.task 0).returned?) =
        some (some (.state (.ok (.arr [stateDoc 1])))) := by
    decide +kernel
  have hguard : (comebackWorld.machine _).Along
      (controlProtocol Format.plain Fin.val "control").Allows comebackPool
      (controlTurns [1, 0, 0, 0, 0, 0, 0]) := by
    decide +kernel
  obtain ⟨p, hp, ht⟩ := Option.map_eq_some_iff.mp hrun
  exact ⟨p, hp, mutate_readModifyWrite plainPayload comebackOp SortedMap.empty
    (fun _ _ h => h) rfl hguard hp rfl (Program.returned?_eq_some.mp ht)⟩

/-- Between HEAD and GET one process saves another state, and between GET and the conditional put
another process restores the first one: the closure sees a state that its put does not replace. -/
theorem mutate_appliesOtherState :
    ∃ p, (comebackWorld.machine _).run comebackPool (controlTurns [1, 0, 0, 2, 0, 3, 0, 0, 0]) =
      some p ∧
    p.task 0 = .ret (.state (.ok (.arr [stateDoc 2]))) ∧
    ¬ TrueMutation Format.plain "control" plainPayload "suite" collect (.ok (.arr [stateDoc 2]))
      (p.shared.2 0) := by
  have hrun : ((comebackWorld.machine _).run comebackPool
      (controlTurns [1, 0, 0, 2, 0, 3, 0, 0, 0])).map (fun p =>
        ((p.task 0).returned?, (p.shared.2 0).argument, (p.shared.2 0).writes.map Prod.fst)) =
      some (some (.state (.ok (.arr [stateDoc 2]))), some (some (stateDoc 2)),
        [some (ControlStateStore.encode "suite" (stateDoc 1))]) := by
    decide +kernel
  obtain ⟨p, hp, hq⟩ := Option.map_eq_some_iff.mp hrun
  simp only [Prod.mk.injEq] at hq
  obtain ⟨ht, hargument, hwrites⟩ := hq
  refine ⟨p, hp, Program.returned?_eq_some.mp ht, ?_⟩
  rintro ⟨current, before, value, hcurrent, -, hstate, -, hwrite⟩
  rw [hargument, Option.some.injEq] at hcurrent
  rw [hwrite, List.map_singleton, List.singleton_inj] at hwrites
  subst hcurrent
  rw [show before = some (ControlStateStore.encode "suite" (stateDoc 1)) from hwrites] at hstate
  have hother : stateOf Format.plain "control" plainPayload "suite"
      (some (ControlStateStore.encode "suite" (stateDoc 1))) ≠ .ok (some (stateDoc 2)) := by
    decide +kernel
  exact hother hstate

end ReactRuntime.Session
