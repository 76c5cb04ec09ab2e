import ReactRuntime.Session.Catalog
import ReactRuntime.Session.ControlState
import ReactRuntime.Transport.ConnState

/-!
# Deletion of a thread

A delete request removes the log of a thread and all that is stored under its id next to the log.
Its state, its control state, its run log and the feedback on it have other keys and stay, and a
fresh connection still finds the suite that the control state names.
-/
namespace ReactRuntime.Transport
open Library Serde ReactRuntime.Core Storage Session

variable {B E : Type}

/-- How the storage treats one call: it answers, or it fails before or after the call has taken
effect. -/
inductive CallFault where
  | answer
  | refuse (e : CoreError)
  | lose (e : CoreError)

/-- The kernel, and the number of calls of the storage made so far. -/
structure Unreliable (B E : Type) where
  kernel : Kernel B E
  calls : Nat

def Unreliable.handle [DecidableEq E] (F : Format B E) (site : Site) (faults : Nat → CallFault) :
    (c : KernelCall B E) → Unreliable B E → Unreliable B E × c.Answer
  | .storage c, s =>
    let served := s.kernel.perform F site (.storage c)
    match faults s.calls with
    | .answer => (⟨served.1, s.calls + 1⟩, served.2)
    | .refuse e => (⟨s.kernel, s.calls + 1⟩, .error e)
    | .lose e => (⟨served.1, s.calls + 1⟩, .error e)
  | c, s => (⟨(s.kernel.perform F site c).1, s.calls⟩, (s.kernel.perform F site c).2)

section
variable {C : Type} {A : C → Type}

/-- The embeddings of the thread are deleted too, whether or not that fails; they are not in this
storage. -/
def handleDeleteMessage (isUuid : String → Bool) (store : ThreadStore C A B E)
    (threads threadId : String) : Program C A (Except String Unit) :=
  if threadId.isEmpty then return .error "thread_id required"
  else if !isUuid threadId then return .error "invalid thread_id"
  else do
    match ← store.delete threads threadId with
    | .error e => return .error e.display
    | .ok () => return .ok ()

/-- A resolution with its two reads. -/
def resolveStored {T : Type} [DecidableEq E] (control : ControlStateStore C A B E T)
    (store : ThreadStore C A B E) (listIds : List String) (state : ConnState) (threadId : String) :
    Program C A ((String × String) × ConnState) := do
  let suiteId ← control.loadSuiteId threadId
  let log ← store.get threadId
  return resolveThreadContext listIds state threadId suiteId log

end

section
variable (scope : RequestScope)

def scopeStore : ThreadStore (KernelCall B E) KernelCall.Answer B E :=
  ThreadStore.over backend fun threadId => (threadKey scope threadId).mapError CoreError.display

/-- The store for the control states of a scope, as a connection uses it to read. -/
def scopeControlStore : ControlStateStore (KernelCall B E) KernelCall.Answer B E Json where
  storage := backend
  controlStateKey threadId := (controlStateKey scope threadId).mapError CoreError.display
  lock key := (KernelCall.lock key).issue
  unlock key := (KernelCall.unlock key).issue
  apply mutate current := return mutate current
  payload := ⟨.ok, .ok⟩

/-- What a fresh connection resolves over a storage that answers. -/
def resolveFresh [DecidableEq E] (F : Format B E) (site : Site) (listIds : List String)
    (threadId : String) (s : Kernel B E) : String × String :=
  ((resolveStored (scopeControlStore scope) (scopeStore scope) listIds .new threadId).eval
    (fun c s => s.perform F site c) s).2.1

/-- What a fresh connection reads of the control state. -/
def controlSuiteIn [DecidableEq E] (F : Format B E) (site : Site) (threadId : String)
    (s : Kernel B E) : Option String :=
  controlSuite (((scopeControlStore scope).loadSuiteId threadId).eval
    (fun c s => s.perform F site c) s).2

end

/-- The thread of an object. -/
def threadOf : ObjectKey → String
  | .thread t | .threadState t | .controlState t | .threadLog t => t
  | .threadArtifact t _ | .threadFeedback t _ | .threadFeedbackDiagnostics t _ => t

/-- The object goes with its thread. -/
def goesWithThread : ObjectKey → Bool
  | .thread _ | .threadArtifact _ _ => true
  | _ => false

section
variable {scope : RequestScope} {threadId : String}

theorem scopeStore_key {key : String} (hkey : threadKey scope threadId = .ok key) :
    (scopeStore scope : ThreadStore (KernelCall B E) KernelCall.Answer B E).key threadId =
      .ok key := by
  simp only [ThreadStore.key, scopeStore, ThreadStore.over, hkey, Except.mapError]

/-- An id with a thread key has a control state key. -/
theorem controlStateKey_of_threadKey {key : String} (hkey : threadKey scope threadId = .ok key) :
    ∃ control, controlStateKey scope threadId = .ok control :=
  ⟨_, ensureSafe_bind.mpr ⟨(ensureSafe_bind.mp hkey).1, rfl⟩⟩

theorem scopeStore_key_error {e : CoreError} (hkey : threadKey scope threadId = .error e) :
    (scopeStore scope : ThreadStore (KernelCall B E) KernelCall.Answer B E).key threadId =
      .error (.session ("failed to build thread key for '" ++ threadId ++ "': " ++ e.display)) := by
  simp only [ThreadStore.key, scopeStore, ThreadStore.over, hkey, Except.mapError]

theorem scopeControlStore_key {key : String} (hkey : controlStateKey scope threadId = .ok key) :
    (scopeControlStore scope : ControlStateStore (KernelCall B E) KernelCall.Answer B E Json).key
      threadId = .ok key := by
  simp only [ControlStateStore.key, scopeControlStore, hkey, Except.mapError]

end

section Faults
variable [DecidableEq E] {F : Format B E} {site : Site} {faults : Nat → CallFault}
  {scope : RequestScope}

/-- The objects are these. -/
def Holding (objects : String → Option B) (s : Unreliable B E) : Prop :=
  ∀ k, s.kernel.objects.get k = objects k

theorem handle_storage (F : Format B E) (site : Site) (faults : Nat → CallFault)
    (c : StorageCall B E) (s : Unreliable B E) :
    let served := s.kernel.perform F site (.storage c)
    let out := Unreliable.handle F site faults (.storage c) s
    (out.1.kernel = served.1 ∧ out.2 = served.2) ∨
      ((out.1.kernel = s.kernel ∨ out.1.kernel = served.1) ∧ ∃ e, out.2 = .error e) := by
  dsimp only [Unreliable.handle]
  cases faults s.calls with
  | answer => exact .inl ⟨rfl, rfl⟩
  | refuse e => exact .inr ⟨.inl rfl, e, rfl⟩
  | lose e => exact .inr ⟨.inr rfl, e, rfl⟩

/-- A deletion that returns has deleted the object, at whatever attempt. -/
theorem ensures_retryDelete (objects : String → Option B) (key : String) :
    (retryDeleteObject backend key).Ensures (Unreliable.handle F site faults) (Holding objects)
      fun r s => r = .ok () → Holding (Function.update objects key none) s := by
  -- Between two attempts the object may be gone already.
  let Between (s : Unreliable B E) : Prop :=
    Holding objects s ∨ Holding (Function.update objects key none) s
  have hserved : ∀ s, Between s → ∀ k,
      (s.kernel.perform F site (.storage (.deleteObject key))).1.objects.get k =
        Function.update objects key none k := by
    intro s hs k
    have herase : (s.kernel.perform F site (.storage (.deleteObject key))).1.objects.get k =
        if k = key then none else s.kernel.objects.get k := SortedMap.get_erase _ _ _
    rw [herase]
    by_cases hk : k = key
    · rw [if_pos hk, hk, Function.update_self]
    · rw [if_neg hk, Function.update_of_ne hk]
      rcases hs with hs | hs
      · exact hs k
      · rw [hs k, Function.update_of_ne hk]
  have hattempt : ((KernelCall.storage (.deleteObject key)).issue).Ensures
      (Unreliable.handle F site faults) Between
      fun r s => Between s ∧ (r = .ok () → Holding (Function.update objects key none) s) := by
    refine Program.Ensures.perform fun s hs => ?_
    rcases handle_storage F site faults (.deleteObject key) s with
      ⟨hkernel, -⟩ | ⟨hkernel | hkernel, e, he⟩
    · have hgone : Holding (Function.update objects key none)
          (Unreliable.handle F site faults (.storage (.deleteObject key)) s).1 := by
        intro k
        rw [hkernel]
        exact hserved s hs k
      exact ⟨.inr hgone, fun _ => hgone⟩
    · refine ⟨?_, fun hok => ?_⟩
      · rcases hs with hs | hs
        · exact .inl fun k => by rw [hkernel]; exact hs k
        · exact .inr fun k => by rw [hkernel]; exact hs k
      · rw [he] at hok
        cases hok
    · refine ⟨.inr fun k => by rw [hkernel]; exact hserved s hs k, fun hok => ?_⟩
      rw [he] at hok
      cases hok
  have hretry := ensures_retryClassified hattempt (fun _ _ h => h.1) SAFE_STORAGE_RETRY_DELAYS_MS
  exact (hretry.of_imp fun _ hs => .inl hs).mono fun _ _ h => h.2

/-- A list that is returned has the keys of the objects under the prefix. -/
theorem ensures_retryList (objects : String → Option B) (pre : String) :
    (retryListPrefix backend pre).Ensures (Unreliable.handle F site faults) (Holding objects)
      fun r s => Holding objects s ∧ ∀ keys, r = .ok keys →
        ∀ k, k ∈ keys ↔ (objects k).isSome = true ∧ pre.toList <+: k.toList := by
  have hattempt : ((KernelCall.storage (.listPrefix pre)).issue).Ensures
      (Unreliable.handle F site faults) (Holding objects)
      fun r s => Holding objects s ∧ ∀ keys, r = .ok keys →
        ∀ k, k ∈ keys ↔ (objects k).isSome = true ∧ pre.toList <+: k.toList := by
    refine Program.Ensures.perform fun s hs => ?_
    rcases handle_storage F site faults (.listPrefix pre) s with
      ⟨hkernel, hanswer⟩ | ⟨hkernel | hkernel, e, he⟩
    · refine ⟨fun k => by rw [hkernel]; exact hs k, fun keys hkeys k => ?_⟩
      have hlist : (Unreliable.handle F site faults (.storage (.listPrefix pre)) s).2 =
          .ok (s.kernel.objects.keys.filter pre.isPrefixOf) := hanswer
      rw [hlist, Except.ok.injEq] at hkeys
      rw [← hkeys, List.mem_filter, SortedMap.mem_keys, hs k, String.isPrefixOf,
        String.startsWith_string_iff]
    · refine ⟨fun k => by rw [hkernel]; exact hs k, fun keys hkeys => ?_⟩
      rw [he] at hkeys
      cases hkeys
    · refine ⟨fun k => by rw [hkernel]; exact hs k, fun keys hkeys => ?_⟩
      rw [he] at hkeys
      cases hkeys
  exact ensures_retryClassified hattempt (fun _ _ h => h.1) SAFE_STORAGE_RETRY_DELAYS_MS

/-- The objects without those of some keys. -/
def withoutKeys (objects : String → Option B) (keys : List String) : String → Option B :=
  fun k => if k ∈ keys then none else objects k

theorem withoutKeys_cons (objects : String → Option B) (key : String) (keys : List String) :
    withoutKeys (Function.update objects key none) keys = withoutKeys objects (key :: keys) := by
  funext k
  rw [withoutKeys, withoutKeys]
  by_cases hk : k = key
  · simp [hk]
  · simp [hk]

theorem ensures_deleteKeys (objects : String → Option B) (keys : List String) :
    ((scopeStore scope).deleteKeys keys).Ensures (Unreliable.handle F site faults)
      (Holding objects) fun r s => r = .ok () → Holding (withoutKeys objects keys) s := by
  induction keys generalizing objects with
  | nil =>
    refine Program.Ensures.ret fun s hs _ k => ?_
    rw [hs k, withoutKeys, if_neg List.not_mem_nil]
  | cons key keys ih =>
    refine (ensures_retryDelete objects key).andThen (fun _ => ?_) fun e s _ h => (by cases h)
    rw [← withoutKeys_cons]
    exact (ih (Function.update objects key none)).of_imp fun s hs => hs rfl

theorem ensures_deleteRest (objects : String → Option B) (key : String) (keys : List String) :
    (((scopeStore scope).deleteKeys keys).andThen fun _ => do
        (scopeStore scope).cacheRemove key
        return .ok ()).Ensures (Unreliable.handle F site faults) (Holding objects)
      fun r s => r = .ok () → Holding (withoutKeys objects keys) s := by
  refine (ensures_deleteKeys objects keys).andThen (fun _ => ?_) fun e s _ h => (by cases h)
  have hremove : ((scopeStore scope).cacheRemove key).Ensures (Unreliable.handle F site faults)
      (Holding (withoutKeys objects keys)) fun _ s => Holding (withoutKeys objects keys) s :=
    Program.Ensures.perform fun s hs => hs
  exact (hremove.of_imp fun s hs => hs rfl).bind fun _ => Program.Ensures.ret fun s hs _ => hs

/-- The objects without a key and those that start like a text. -/
def withoutStart (objects : String → Option B) (key start : String) : String → Option B :=
  fun k => if k = key ∨ start.toList <+: k.toList then none else objects k

omit [DecidableEq E] in
/-- The keys that are listed after the log is gone are the rest of the thread. -/
theorem withoutKeys_update {objects : String → Option B} {key start : String} {keys : List String}
    (hkeys : ∀ k, k ∈ keys ↔
      (Function.update objects key none k).isSome = true ∧ start.toList <+: k.toList) :
    withoutKeys (Function.update objects key none) keys = withoutStart objects key start := by
  funext k
  rw [withoutKeys, withoutStart]
  by_cases hsame : k = key
  · rw [hsame, Function.update_self, if_pos (Or.inl rfl), ite_self]
  · have hk := hkeys k
    rw [Function.update_of_ne hsame] at hk ⊢
    cases hobject : objects k with
    | none => rw [ite_self, ite_self]
    | some bytes =>
      rw [hobject, Option.isSome_some] at hk
      simp only [hk, hsame, true_and, false_or]

/-- A deletion of a thread that returns has removed its log and what starts like it. -/
theorem ensures_delete (F : Format B E) (site : Site) (faults : Nat → CallFault)
    (objects : String → Option B) {threadId key : String}
    (hkey : threadKey scope threadId = .ok key) (threads : String) :
    ((scopeStore scope).delete threads threadId).Ensures (Unreliable.handle F site faults)
      (Holding objects) fun r s => r = .ok () →
        Holding (withoutStart objects key (ThreadStore.threadPrefix threads threadId)) s := by
  rw [ThreadStore.delete, scopeStore_key hkey]
  refine (ensures_retryDelete objects key).andThen (fun _ => ?_) fun e s _ h => (by cases h)
  refine ((ensures_retryList (Function.update objects key none)
    (ThreadStore.threadPrefix threads threadId)).of_imp fun s hs => hs rfl).andThen
      (fun keys => ?_) fun e s _ h => (by cases h)
  intro s hs
  rw [← withoutKeys_update (hs.2 keys rfl)]
  exact ensures_deleteRest _ key keys s hs.1

/-- A delete request that returns has a thread with a key, and has deleted it. -/
theorem eval_handleDelete {isUuid : String → Bool} {threads threadId : String} {s s' : Unreliable B E}
    (hrun : (handleDeleteMessage isUuid (scopeStore scope) threads threadId).eval
      (Unreliable.handle F site faults) s = (s', .ok ())) :
    ∃ key, threadKey scope threadId = .ok key ∧ Holding (withoutStart s.kernel.objects.get key
      (ThreadStore.threadPrefix threads threadId)) s' := by
  have hdelete : ((scopeStore scope).delete threads threadId).eval
      (Unreliable.handle F site faults) s = (s', .ok ()) := by
    unfold handleDeleteMessage at hrun
    split_ifs at hrun
    · cases congrArg Prod.snd hrun
    · cases congrArg Prod.snd hrun
    · rw [Program.bind_eq, Program.eval_bind] at hrun
      cases hresult : ((scopeStore scope).delete threads threadId).eval
        (Unreliable.handle F site faults) s with
      | mk m r =>
        rw [hresult] at hrun
        cases r with
        | error e => cases congrArg Prod.snd hrun
        | ok _ => exact congrArg (fun out => (out.1, Except.ok ())) hrun
  cases hkey : threadKey scope threadId with
  | error e =>
    rw [ThreadStore.delete, scopeStore_key_error hkey] at hdelete
    cases congrArg Prod.snd hdelete
  | ok key =>
    refine ⟨key, rfl, ?_⟩
    have hensured := ensures_delete F site faults s.kernel.objects.get hkey threads s fun _ => rfl
    rw [hdelete] at hensured
    exact hensured rfl

end Faults

section Keys
variable {scope : RequestScope} {threadId : String}

/-- The keys that start like the artifacts of a thread are those of its log and its artifacts. -/
theorem threadPrefix_isPrefix_iff {o : ObjectKey} (h : threadOf o = threadId) :
    (ThreadStore.threadPrefix (threadsPrefix scope) threadId).toList <+:
      (scopedKey scope o.segments).toList ↔ goesWithThread o = true := by
  subst h
  rw [ThreadStore.threadPrefix, trimEndMatches_threadsPrefix]
  cases o <;>
    simp [scopedKey, ObjectKey.segments, threadOf, goesWithThread]

end Keys

section Reads
variable [DecidableEq E] {F : Format B E} {site : Site} {scope : RequestScope} {s : Kernel B E}

/-- A read over a storage that answers. -/
theorem eval_read {c : StorageCall B E} (hread : (F.serve s.objects c).1 = s.objects)
    (hfinal : ∀ e, (F.serve s.objects c).2 = .error e → Classify.retry e = false) :
    (retryStorageCall backend c).eval (fun c s => s.perform F site c) s =
      (s, (F.serve s.objects c).2) := by
  refine eval_retryClassified_of_final ?_ hfinal SAFE_STORAGE_RETRY_DELAYS_MS
  change ({ s with objects := (F.serve s.objects c).1 }, (F.serve s.objects c).2) = _
  rw [hread]

theorem eval_readHead (key : String) :
    (retryHeadEtag backend key).eval (fun c s => s.perform F site c) s =
      (s, .ok (F.headOf s.objects key)) :=
  eval_read rfl fun _ h => (by cases h)

theorem eval_readJson (F : Format B E) (site : Site) (s : Kernel B E) (key : String) :
    (retryGetJson backend key).eval (fun c s => s.perform F site c) s =
      (s, (F.serve s.objects (.getJson key)).2) := by
  refine eval_read rfl fun e h => ?_
  cases hget : s.objects.get key with
  | none =>
    simp only [Format.serve, hget, Except.error.injEq] at h
    rw [← h]
    rfl
  | some bytes =>
    simp only [Format.serve, hget, Format.parseJson] at h
    cases hparse : F.parse bytes with
    | ok v =>
      rw [hparse] at h
      cases h
    | error msg =>
      rw [hparse] at h
      cases h
      rfl

/-- What `load_raw` makes of an object. -/
def rawAt (F : Format B E) (objects : Objects B) (key : String) :
    Except CoreError (LoadState E Json) :=
  match F.headOf objects key with
  | none => .ok .missing
  | some etag => (F.serve objects (.getJson key)).2.map fun raw => .loaded ⟨some etag, raw⟩

theorem eval_loadRaw (F : Format B E) (site : Site) (s : Kernel B E) {threadId key : String}
    (hkey : controlStateKey scope threadId = .ok key) :
    ((scopeControlStore scope).loadRaw threadId).eval (fun c s => s.perform F site c) s =
      (s, rawAt F s.objects key) := by
  rw [ControlStateStore.loadRaw, scopeControlStore_key hkey, rawAt]
  refine (Program.eval_andThen_ok (eval_readHead key)).trans ?_
  cases F.headOf s.objects key with
  | none => rfl
  | some etag =>
    have hjson := eval_readJson F site s key
    cases hraw : (F.serve s.objects (.getJson key)).2 with
    | error e =>
      rw [hraw] at hjson
      exact Program.eval_andThen_error hjson
    | ok raw =>
      rw [hraw] at hjson
      exact Program.eval_andThen_ok hjson

/-- What `load_suite_id` makes of an object. -/
def suiteIdAt (F : Format B E) (objects : Objects B) (key : String) :
    Except CoreError (Option String) :=
  (rawAt F objects key).map fun
    | .missing => none
    | .loaded raw => ((ControlStateEnvelope.fromValue raw.value).toOption.map
        ControlStateEnvelope.suiteId).filter fun s => !(trim s).isEmpty

theorem eval_loadSuiteId (F : Format B E) (site : Site) (s : Kernel B E) {threadId key : String}
    (hkey : controlStateKey scope threadId = .ok key) :
    ((scopeControlStore scope).loadSuiteId threadId).eval (fun c s => s.perform F site c) s =
      (s, suiteIdAt F s.objects key) := by
  have hraw := eval_loadRaw F site s hkey
  rw [ControlStateStore.loadSuiteId, suiteIdAt]
  cases hvalue : rawAt F s.objects key with
  | error e =>
    rw [hvalue] at hraw
    exact Program.eval_andThen_error hraw
  | ok loaded =>
    rw [hvalue] at hraw
    refine (Program.eval_andThen_ok hraw).trans ?_
    cases loaded <;> rfl

theorem suiteIdAt_congr {objects objects' : Objects B} {key : String}
    (h : objects.get key = objects'.get key) :
    suiteIdAt F objects key = suiteIdAt F objects' key := by
  rw [suiteIdAt, suiteIdAt, rawAt, rawAt, Format.headOf, Format.headOf, Format.serve, Format.serve, h]

/-- A log that is not there is an error. -/
theorem eval_get_missing (F : Format B E) (site : Site) {threadId key : String}
    (hkey : threadKey scope threadId = .ok key) (hmissing : s.objects.get key = none) :
    ∃ e, ((scopeStore scope).get threadId).eval (fun c s => s.perform F site c) s =
      (s, .error e) := by
  have hhead : F.headOf s.objects key = none := by rw [Format.headOf, hmissing]; rfl
  have hjson : (retryGetJson backend key).eval (fun c s => s.perform F site c) s =
      (s, .error (.storage (.notFound key))) := by
    rw [eval_readJson, Format.serve, hmissing]
  rw [ThreadStore.get, scopeStore_key hkey]
  refine ⟨.session ("get('" ++ threadId ++ "'): " ++ (CoreError.storage (.notFound key)).display), ?_⟩
  refine (Program.eval_andThen_ok (eval_readHead key)).trans ?_
  rw [hhead]
  exact Program.eval_bind_of hjson

/-- Where there is no log, the control state and the defaults decide. -/
theorem resolveFresh_missing {threadId key : String} (hkey : threadKey scope threadId = .ok key)
    (hmissing : s.objects.get key = none) (listIds : List String) :
    resolveFresh scope F site listIds threadId s =
      ((controlSuiteIn scope F site threadId s).getD ((defaultSuiteId listIds).getD ""),
        DEFAULT_AGENT_TYPE) := by
  obtain ⟨control, hcontrol⟩ := controlStateKey_of_threadKey hkey
  obtain ⟨e, hget⟩ := eval_get_missing F site hkey hmissing
  have hsuite := eval_loadSuiteId F site s hcontrol
  rw [resolveFresh, resolveStored, Program.bind_eq, Program.eval_bind_of hsuite, Program.bind_eq,
    Program.eval_bind_of hget, controlSuiteIn, hsuite, Program.pure_eq, Program.eval_ret,
    (resolveThreadContext_eq listIds .new threadId (suiteIdAt F s.objects control) (.error e)).1]
  simp only [suiteOf, agentOf, loggedSuite, loggedAgent, ConnState.new, Option.bind_none,
    Option.none_or, Except.toOption, Option.getD_none]

end Reads

/-- After a delete request that returns, over a storage whose calls may fail at any time, the log
and the artifacts of the thread are gone with all that starts like them, and every other object is
what it was, also the other objects of the thread. A fresh connection resolves the default agent and
the suite that the control state still names, or the default suite. -/
theorem deleted_thread [DecidableEq E] (F : Format B E) (site : Site) (faults : Nat → CallFault)
    (scope : RequestScope) (isUuid : String → Bool) (listIds : List String) (threadId : String)
    (s s' : Unreliable B E)
    (hrun : (handleDeleteMessage isUuid (scopeStore scope) (threadsPrefix scope) threadId).eval
      (Unreliable.handle F site faults) s = (s', .ok ())) :
    (∀ key, s'.kernel.objects.get key =
      if (ThreadStore.threadPrefix (threadsPrefix scope) threadId).toList <+: key.toList then none
      else s.kernel.objects.get key) ∧
    (∀ o key, threadOf o = threadId → o.build scope = .ok key → s'.kernel.objects.get key =
      if goesWithThread o then none else s.kernel.objects.get key) ∧
    resolveFresh scope F site listIds threadId s'.kernel =
      ((controlSuiteIn scope F site threadId s.kernel).getD ((defaultSuiteId listIds).getD ""),
        DEFAULT_AGENT_TYPE) := by
  obtain ⟨key, hkey, hholding⟩ := eval_handleDelete hrun
  have hstart : (ThreadStore.threadPrefix (threadsPrefix scope) threadId).toList <+: key.toList := by
    have hbuild : (ObjectKey.thread threadId).build scope = .ok key := hkey
    obtain ⟨-, rfl⟩ := ObjectKey.build_eq_ok.mp hbuild
    have howned : threadOf (.thread threadId) = threadId := rfl
    exact (threadPrefix_isPrefix_iff howned).mpr rfl
  have hobjects : ∀ k, s'.kernel.objects.get k =
      if (ThreadStore.threadPrefix (threadsPrefix scope) threadId).toList <+: k.toList then none
      else s.kernel.objects.get k := by
    intro k
    rw [hholding k, withoutStart]
    by_cases hk : k = key
    · rw [hk, if_pos (Or.inl rfl), if_pos hstart]
    · simp only [hk, false_or]
  have hkeys : ∀ o k, threadOf o = threadId → o.build scope = .ok k → s'.kernel.objects.get k =
      if goesWithThread o then none else s.kernel.objects.get k := by
    intro o k ho hk
    obtain ⟨-, rfl⟩ := ObjectKey.build_eq_ok.mp hk
    rw [hobjects]
    simp only [threadPrefix_isPrefix_iff ho]
  refine ⟨hobjects, hkeys, ?_⟩
  obtain ⟨control, hcontrol⟩ := controlStateKey_of_threadKey hkey
  have hkept : controlSuiteIn scope F site threadId s'.kernel =
      controlSuiteIn scope F site threadId s.kernel := by
    rw [controlSuiteIn, controlSuiteIn, eval_loadSuiteId _ _ _ hcontrol,
      eval_loadSuiteId _ _ _ hcontrol,
      suiteIdAt_congr (hkeys (.controlState threadId) control rfl hcontrol)]
  have hmissing : s'.kernel.objects.get key = none := by rw [hobjects, if_pos hstart]
  rw [resolveFresh_missing hkey hmissing, hkept]

/-! A thread with a log, an artifact and a control state, deleted over a storage that loses its first
answer. -/

def deletedId : String := "67e55044-10b1-426f-9247-bb680e5fe0c8"

def storedThread : Unreliable Json Json :=
  ⟨{ Kernel.init with
    objects := SortedMap.ofList
      [("t/w/p/threads/" ++ deletedId ++ ".json", .null),
        ("t/w/p/threads/" ++ deletedId ++ ".plan.json", .null),
        ("t/w/p/state/" ++ deletedId ++ "/control.json", ControlStateStore.encode "kb" .null)] }, 0⟩

def loseFirst (n : Nat) : CallFault := if n = 0 then .lose (.storage (.timeout "")) else .answer

def afterDelete : Unreliable Json Json × Except String Unit :=
  (handleDeleteMessage (· = deletedId) (scopeStore ObjectKey.smallScope)
    (threadsPrefix ObjectKey.smallScope) deletedId).eval
      (Unreliable.handle Format.plain ⟨0, 0⟩ loseFirst) storedThread

theorem deleted_thread_stored :
    afterDelete.2 = .ok () ∧
      afterDelete.1.kernel.objects.get ("t/w/p/threads/" ++ deletedId ++ ".plan.json") = none := by
  have hok : afterDelete.2 = .ok () := by decide +kernel
  exact ⟨hok, (deleted_thread Format.plain ⟨0, 0⟩ loseFirst ObjectKey.smallScope (· = deletedId)
    ["etl", "kb"] deletedId storedThread afterDelete.1 (Prod.ext rfl hok)).2.1
      (.threadArtifact deletedId "plan") ("t/w/p/threads/" ++ deletedId ++ ".plan.json") rfl
      (by decide +kernel)⟩

/-- The control state stays, and so does the suite that it names. -/
theorem deleted_thread_resolves :
    afterDelete.2 = .ok () ∧
      controlStateKey ObjectKey.smallScope deletedId =
        .ok ("t/w/p/state/" ++ deletedId ++ "/control.json") ∧
      afterDelete.1.kernel.objects.get ("t/w/p/state/" ++ deletedId ++ "/control.json") =
        some (ControlStateStore.encode "kb" .null) ∧
      resolveFresh ObjectKey.smallScope Format.plain ⟨0, 0⟩ ["etl", "kb"] deletedId
        afterDelete.1.kernel = ("kb", DEFAULT_AGENT_TYPE) ∧
      defaultSuiteId ["etl", "kb"] = some "etl" := by
  decide +kernel

end ReactRuntime.Transport
