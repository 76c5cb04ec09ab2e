import ReactRuntime.Core.Keyspace
import ReactRuntime.Session.Footprint
import Mathlib.Data.List.Sort

/-!
# The threads of a scope

The list of threads is what the keys under the prefix of the threads say. A name
with a dot is taken for an artifact: it is not listed, and it goes with the thread
whose id ends at the dot. But an id may have a dot.
-/
namespace ReactRuntime.Session
open Library Serde ReactRuntime.Core Storage

/-- An id that the keyspace accepts for a thread. -/
abbrev ThreadId : Type := ScopeSegment "thread_id"

variable {B E : Type}

/-- A client of a scope, over a storage that answers every call. -/
def scopeClient (scope : RequestScope) (showEtag : Option E → String) (store : Nat) : Client E where
  faults _ := .answer
  store := store
  threadKey threadId := (threadKey scope threadId).mapError CoreError.display
  showEtag := showEtag

section Keys
variable (scope : RequestScope)

/-- The directory of the threads of a scope. -/
def threadsDir : String := scopedKey scope ["threads"] ++ "/"

def logKey (id : ThreadId) : String := threadsDir scope ++ id.value ++ ".json"

theorem threadKey_value (id : ThreadId) : threadKey scope id.value = .ok (logKey scope id) := by
  refine ensureSafe_bind.mpr ⟨id.safe, congrArg Except.ok ?_⟩
  rw [← String.toList_inj]
  simp [scopedKey, logKey, threadsDir]

theorem trimEndMatches_threadsPrefix :
    trimEndMatches '/' (threadsPrefix scope) = scopedKey scope ["threads"] := by
  have hkey : (scopedKey scope ["threads"]).toList = (scope.tenant.value ++ "/" ++
      scope.workspace.value ++ "/" ++ scope.projectId.value ++ "/thread").toList ++ ['s'] := by
    simp [scopedKey]
  rw [← String.toList_inj, trimEndMatches, String.toList_ofList, threadsPrefix, scopedPrefix, hkey,
    List.getLast?_concat, if_neg (by decide), String.toList_push, hkey,
    List.rdropWhile_concat_pos _ _ _ (by decide), List.rdropWhile_concat_neg _ _ _ (by decide)]

theorem listPrefix_threads : ThreadStore.listPrefix (threadsPrefix scope) = threadsDir scope := by
  rw [ThreadStore.listPrefix, trimEndMatches_threadsPrefix, threadsDir]

/-- The start of the keys that are deleted with a thread. -/
def ownedStart (id : ThreadId) : String := threadsDir scope ++ id.value ++ "."

theorem threadPrefix_threads (id : ThreadId) :
    ThreadStore.threadPrefix (threadsPrefix scope) id.value = ownedStart scope id := by
  rw [ThreadStore.threadPrefix, trimEndMatches_threadsPrefix, ownedStart, threadsDir]

variable {scope}

theorem logKey_injective : Function.Injective (logKey scope) := by
  rintro ⟨value, accepted⟩ ⟨value', accepted'⟩ h
  rw [← String.toList_inj] at h
  simp only [logKey, String.toList_append, List.append_cancel_right_eq,
    List.append_cancel_left_eq, String.toList_inj] at h
  subst h
  rfl

/-- What is listed under the prefix of the threads: the thread of a key that names one. -/
theorem listedName_eq_some {key name : String} :
    ThreadStore.listedName (threadsDir scope) key = some name ↔
      key = threadsDir scope ++ name ++ ".json" ∧ '.' ∉ name.toList := by
  have hdot : containsText name "." = true ↔ '.' ∈ name.toList :=
    containsText_iff.trans (List.singleton_infix_iff _ _)
  rw [ThreadStore.listedName, Option.filter_eq_some_iff, Option.bind_eq_some_iff, Bool.not_eq_true',
    ← Bool.not_eq_true, hdot]
  refine and_congr_left fun _ => ⟨?_, fun h => ⟨name ++ ".json", ?_, stripEnd_eq_some.mpr rfl⟩⟩
  · rintro ⟨rest, hrest, hname⟩
    rw [stripStart_eq_some.mp hrest, stripEnd_eq_some.mp hname, String.append_assoc]
  · rw [stripStart_eq_some, h, String.append_assoc]

theorem ownedStart_isPrefix (id : ThreadId) :
    (ownedStart scope id).toList <+: (logKey scope id).toList := by
  simp only [ownedStart, logKey, String.toList_append, List.append_assoc,
    List.prefix_append_right_inj]
  exact ⟨"json".toList, rfl⟩

/-- Only a key with a dot in its id goes with another thread. -/
theorem dot_mem_of_isPrefix {t u : ThreadId} (hne : t ≠ u)
    (h : (ownedStart scope t).toList <+: (logKey scope u).toList) : '.' ∈ u.value.toList := by
  simp only [ownedStart, logKey, String.toList_append, List.append_assoc,
    List.prefix_append_right_inj] at h
  change t.value.toList ++ ['.'] <+: u.value.toList ++ ['.', 'j', 's', 'o', 'n'] at h
  rcases List.prefix_or_prefix_of_prefix h (List.prefix_append _ _) with hin | hin
  · exact hin.subset (by simp)
  · rcases List.prefix_concat_iff.mp hin with heq | ⟨more, hmore⟩
    · simp [heq]
    · rw [← hmore, List.append_assoc, List.prefix_append_right_inj] at h
      cases more with
      | nil =>
        refine absurd ?_ hne
        rw [List.append_nil, String.toList_inj] at hmore
        cases t
        cases u
        cases hmore
        rfl
      | cons c more =>
        -- After the first dot of `.json` there is no other.
        have hjson := (List.cons_prefix_cons.mp h).2
        have hdot : '.' ∈ ['j', 's', 'o', 'n'] := hjson.subset (by simp)
        exact absurd hdot (by decide)

end Keys

inductive CatalogOp where
  | append (step : ThreadStep)
  | delete

/-- A call of one of the stores of a scope. -/
structure CatalogCall where
  store : Nat
  threadId : ThreadId
  op : CatalogOp

/-- The id was appended to since it was last deleted. -/
def Live (calls : List CatalogCall) (id : ThreadId) : Prop :=
  ∃ before call after step, calls = before ++ call :: after ∧ call.threadId = id ∧
    call.op = .append step ∧ ∀ later ∈ after, later.threadId = id → later.op ≠ .delete

theorem not_live_nil (id : ThreadId) : ¬ Live [] id := by
  rintro ⟨before, call, after, step, heq, -⟩
  simp at heq

theorem live_concat {calls : List CatalogCall} {call : CatalogCall} {id : ThreadId} :
    Live (calls ++ [call]) id ↔ match call.op with
      | .append _ => call.threadId = id ∨ Live calls id
      | .delete => call.threadId ≠ id ∧ Live calls id := by
  have hlast : Live (calls ++ [call]) id ↔
      (call.threadId = id ∧ ∃ step, call.op = .append step) ∨
        (Live calls id ∧ (call.threadId = id → call.op ≠ .delete)) := by
    constructor
    · rintro ⟨before, c, after, step, heq, hid, hop, hlater⟩
      rcases List.eq_nil_or_concat after with rfl | ⟨after, last, rfl⟩
      · obtain ⟨rfl, hc⟩ := List.append_inj' heq rfl
        cases hc
        exact .inl ⟨hid, step, hop⟩
      · rw [List.concat_eq_append, ← List.cons_append, ← List.append_assoc] at heq
        obtain ⟨rfl, hc⟩ := List.append_inj' heq rfl
        cases hc
        rw [List.concat_eq_append] at hlater
        exact .inr ⟨⟨before, c, after, step, rfl, hid, hop, fun l hl => hlater l (by simp [hl])⟩,
          hlater call (by simp)⟩
    · rintro (⟨hid, step, hop⟩ | ⟨⟨before, c, after, step, rfl, hid, hop, hlater⟩, hkept⟩)
      · exact ⟨calls, call, [], step, rfl, hid, hop, fun _ h => (nomatch h)⟩
      · refine ⟨before, c, after ++ [call], step, by simp, hid, hop, fun l hl => ?_⟩
        rcases List.mem_append.mp hl with hl | hl
        · exact hlater l hl
        · exact List.mem_singleton.mp hl ▸ hkept
  rw [hlast]
  cases call.op with
  | append step => simp
  | delete => simp [and_comm]

section Run
variable [DecidableEq E] (F : Format B E) (scope : RequestScope) (showEtag : Option E → String)

def CatalogCall.run (s : Solo B E) (call : CatalogCall) : Solo B E :=
  let cl := scopeClient scope showEtag call.store
  match call.op with
  | .append step =>
    ((cl.self.appendStep cl.showEtag call.threadId.value step).eval (cl.handle F) s).1
  | .delete =>
    ((cl.self.delete (threadsPrefix scope) call.threadId.value).eval (cl.handle F) s).1

/-- The calls one after the other, over an empty storage. -/
def runCatalog (calls : List CatalogCall) : Solo B E :=
  calls.foldl (CatalogCall.run F scope showEtag) ⟨Kernel.init, 0⟩

/-- What a store of the scope lists. -/
def listed (store : Nat) (s : Solo B E) : List String :=
  (((scopeClient scope showEtag store).self.list (threadsPrefix scope)).eval
    ((scopeClient scope showEtag store).handle F) s).2

/-- What a store of the scope reads of a thread. -/
def readLog (store : Nat) (id : ThreadId) (s : Solo B E) : Except CoreError ThreadLog :=
  (((scopeClient scope showEtag store).self.get id.value).eval
    ((scopeClient scope showEtag store).handle F) s).2

end Run

section Calls
variable [DecidableEq E] {F : ExactFormat B E} {scope : RequestScope} {showEtag : Option E → String}
  {store : Nat} {s : Solo B E}

omit [DecidableEq E] in
theorem scopeClient_answered : (scopeClient scope showEtag store).Answered := fun _ => rfl

omit [DecidableEq E] in
theorem scopeClient_key (id : ThreadId) :
    (scopeClient scope showEtag store).threadKey id.value = .ok (logKey scope id) := by
  simp only [scopeClient, threadKey_value]
  rfl

theorem eval_retryList (cl : Client E) (pre : String) :
    (retryListPrefix backend pre).eval (cl.handle F) s =
      (s, .ok (s.kernel.objects.keys.filter pre.isPrefixOf)) := by
  apply eval_retryClassified_of_final
  · rfl
  · intro e he
    cases he

theorem eval_retryDelete (cl : Client E) (key : String) :
    (retryDeleteObject backend key).eval (cl.handle F) s =
      (⟨{ s.kernel with objects := s.kernel.objects.erase key }, s.puts⟩, .ok ()) := by
  apply eval_retryClassified_of_final
  · rfl
  · intro e he
    cases he

theorem eval_deleteKeys (cl : Client E) (keys : List String) :
    ((cl.self (B := B)).deleteKeys keys).eval (cl.handle F) s =
      (⟨{ s.kernel with objects := keys.foldl SortedMap.erase s.kernel.objects }, s.puts⟩,
        .ok ()) := by
  induction keys generalizing s with
  | nil => rfl
  | cons key keys ih =>
    rw [ThreadStore.deleteKeys, ThreadStore.over_storage,
      Program.eval_andThen_ok (eval_retryDelete cl key), ih]
    rfl

/-- The objects after a thread was deleted: its own went first, then all that start like it. -/
def objectsWithout (scope : RequestScope) (id : ThreadId) (objects : Objects B) : Objects B :=
  ((objects.erase (logKey scope id)).keys.filter (ownedStart scope id).isPrefixOf).foldl
    SortedMap.erase (objects.erase (logKey scope id))

omit [DecidableEq E] in
theorem get_objectsWithout (id : ThreadId) (objects : Objects B) (k : String) :
    (objectsWithout scope id objects).get k =
      if (ownedStart scope id).toList <+: k.toList then none else objects.get k := by
  have hmem : k ∈ (objects.erase (logKey scope id)).keys.filter (ownedStart scope id).isPrefixOf ↔
      ((objects.erase (logKey scope id)).get k).isSome = true ∧
        (ownedStart scope id).toList <+: k.toList := by
    rw [List.mem_filter, SortedMap.mem_keys, String.isPrefixOf, String.startsWith_string_iff]
  simp only [objectsWithout, SortedMap.get_foldl_erase, hmem, SortedMap.get_erase]
  by_cases hk : k = logKey scope id
  · simp [hk, ownedStart_isPrefix]
  · by_cases hpre : (ownedStart scope id).toList <+: k.toList
    · cases hget : objects.get k <;> simp [hk, hpre]
    · simp [hk, hpre]

theorem eval_delete (id : ThreadId) (s : Solo B E) :
    ((scopeClient scope showEtag store).self.delete (threadsPrefix scope) id.value).eval
      ((scopeClient scope showEtag store).handle F) s =
      (⟨{ s.kernel with
          objects := objectsWithout scope id s.kernel.objects
          logs := updateAt s.kernel.logs store (logKey scope id) none }, s.puts⟩, .ok ()) := by
  rw [ThreadStore.delete, Client.key_self _ (scopeClient_key id)]
  dsimp only
  rw [ThreadStore.over_storage, Program.eval_andThen_ok (eval_retryDelete _ _),
    Program.eval_andThen_ok (eval_retryList _ _), Program.eval_andThen_ok (eval_deleteKeys _ _),
    threadPrefix_threads]
  rfl

/-- The state after a thread was deleted. -/
structure Deleted (scope : RequestScope) (id : ThreadId) (s s' : Solo B E) : Prop where
  object : ∀ k, s'.kernel.objects.get k =
    if (ownedStart scope id).toList <+: k.toList then none else s.kernel.objects.get k
  entries : s'.kernel.entries = s.kernel.entries
  logs : ∃ owner, s'.kernel.logs = updateAt s.kernel.logs owner (logKey scope id) none

theorem deleted_run (id : ThreadId) (s : Solo B E) :
    Deleted scope id s (CatalogCall.run F scope showEtag s ⟨store, id, .delete⟩) := by
  simp only [CatalogCall.run, eval_delete]
  exact ⟨get_objectsWithout id s.kernel.objects, rfl, store, rfl⟩

omit [DecidableEq E] in
theorem Deleted.sameView {id : ThreadId} {key : String} {s s' : Solo B E} (h : Deleted scope id s s')
    (hmoved : Unmoved key s s') (store : Nat) : SameView store key s' s :=
  ⟨hmoved.object, congrFun (congrFun h.entries 0) key, hmoved.logs store⟩

omit [DecidableEq E] in
theorem Deleted.unmoved {t u : ThreadId} {s s' : Solo B E} (h : Deleted scope t s s')
    (hne : t ≠ u) (hkept : '.' ∈ u.value.toList → s.kernel.objects.get (logKey scope u) = none) :
    Unmoved (logKey scope u) s s' := by
  obtain ⟨owner, hlogs⟩ := h.logs
  constructor
  · rw [h.object]
    split_ifs with hpre
    · exact (hkept (dot_mem_of_isPrefix hne hpre)).symm
    · rfl
  · intro o
    have hkey : ¬ (o = owner ∧ logKey scope u = logKey scope t) :=
      fun hsame => hne (logKey_injective hsame.2).symm
    rw [hlogs, updateAt_apply, if_neg hkey]

theorem listed_eq (s : Solo B E) : listed F scope showEtag store s =
    ((s.kernel.objects.keys.filter (threadsDir scope).isPrefixOf).filterMap
      (ThreadStore.listedName (threadsDir scope))).mergeSort := by
  rw [listed, ThreadStore.list, listPrefix_threads, Program.bind_eq, ThreadStore.over_storage,
    Program.eval_bind_of (eval_retryList _ _)]
  rfl

/-- The list has the names without a dot that are keys of threads. -/
theorem mem_listed {name : String} : name ∈ listed F scope showEtag store s ↔
    threadsDir scope ++ name ++ ".json" ∈ s.kernel.objects.keys ∧ '.' ∉ name.toList := by
  rw [listed_eq, List.mem_mergeSort, List.mem_filterMap]
  constructor
  · rintro ⟨key, hkey, hname⟩
    obtain ⟨rfl, hdot⟩ := listedName_eq_some.mp hname
    exact ⟨(List.mem_filter.mp hkey).1, hdot⟩
  · rintro ⟨hkey, hdot⟩
    refine ⟨_, List.mem_filter.mpr ⟨hkey, ?_⟩, listedName_eq_some.mpr ⟨rfl, hdot⟩⟩
    rw [String.isPrefixOf, String.startsWith_string_iff, String.append_assoc,
      String.toList_append]
    exact List.prefix_append _ _

theorem sorted_listed : (listed F scope showEtag store s).Pairwise (· < ·) := by
  have hnodup : (listed F scope showEtag store s).Nodup := by
    rw [listed_eq, (List.mergeSort_perm _ _).nodup_iff]
    refine List.Nodup.filterMap (fun key key' name hname hname' => ?_)
      ((SortedMap.nodup_keys _).filter _)
    rw [(listedName_eq_some.mp hname).1, (listedName_eq_some.mp hname').1]
  have hsorted : (listed F scope showEtag store s).Pairwise (· ≤ ·) := by
    rw [listed_eq]
    exact List.pairwise_mergeSort' _ _
  exact (hsorted.and hnodup).imp fun h => lt_of_le_of_ne h.1 h.2

/-- The names are the ids of the threads, in order. -/
structure ListsExactly (live : ThreadId → Prop) (names : List String) : Prop where
  sorted : names.Pairwise (· < ·)
  complete : ∀ name, name ∈ names ↔ ∃ id, live id ∧ id.value = name

/-- Each object is the log of a live thread, and each live thread whose id has no dot has one. -/
structure Catalogued (F : Format B E) (scope : RequestScope) (live : ThreadId → Prop)
    (s : Solo B E) : Prop where
  only : ∀ k ∈ s.kernel.objects.keys, ∃ id, live id ∧ k = logKey scope id
  present : ∀ id, live id → '.' ∉ id.value.toList → logKey scope id ∈ s.kernel.objects.keys
  holds : ∀ id, ∃ c, Holds F (logKey scope id) c s

omit [DecidableEq E] in
theorem Unmoved.mem_keys {k : String} {s s' : Solo B E} (h : Unmoved k s s') :
    k ∈ s'.kernel.objects.keys ↔ k ∈ s.kernel.objects.keys := by
  rw [SortedMap.mem_keys, SortedMap.mem_keys, h.object]

theorem catalogued_append (htag : Function.Injective F.tag) {live : ThreadId → Prop}
    (h : Catalogued F scope live s) (id : ThreadId) (step : ThreadStep) :
    Catalogued F scope (fun u => id = u ∨ live u)
      (CatalogCall.run F scope showEtag s ⟨store, id, .append step⟩) := by
  obtain ⟨c, hc⟩ := h.holds id
  have hrun : CatalogCall.run F scope showEtag s ⟨store, id, .append step⟩ =
      (((scopeClient scope showEtag store).self.appendStep
        (scopeClient scope showEtag store).showEtag id.value step).eval
        ((scopeClient scope showEtag store).handle F) s).1 := rfl
  have hafter : ∃ log, Holds F (logKey scope id) (some log)
      (CatalogCall.run F scope showEtag s ⟨store, id, .append step⟩) := by
    obtain ⟨hloaded, hstuck⟩ := eval_appendStep_answered (scopeClient scope showEtag store) htag
      (scopeClient_key id) hc scopeClient_answered step
    rw [hrun]
    by_cases hloads : Loads store (logKey scope id) c s
    · exact ⟨_, (hloaded hloads).2.1⟩
    · cases c with
      | none => exact absurd (fun _ hlog => nomatch hlog) hloads
      | some log => exact ⟨log, (hstuck hloads).2⟩
  have hothers (k : String) (hk : k ≠ logKey scope id) : Unmoved k s
      (CatalogCall.run F scope showEtag s ⟨store, id, .append step⟩) :=
    hrun ▸ unmoved_appendStep _ (scopeClient_key id) hk step s
  constructor
  · intro k hk
    by_cases hid : k = logKey scope id
    · exact ⟨id, .inl rfl, hid⟩
    · obtain ⟨u, hu, hku⟩ := h.only k ((hothers k hid).mem_keys.mp hk)
      exact ⟨u, .inr hu, hku⟩
  · intro u hu hdot
    by_cases hid : u = id
    · obtain ⟨log, hlog⟩ := hafter
      rw [hid, SortedMap.mem_keys, hlog.object]
      rfl
    · have hlive := hu.resolve_left fun heq => hid heq.symm
      exact (hothers _ (logKey_injective.ne hid)).mem_keys.mpr (h.present u hlive hdot)
  · intro u
    by_cases hid : u = id
    · obtain ⟨log, hlog⟩ := hafter
      exact ⟨some log, hid ▸ hlog⟩
    · obtain ⟨d, hd⟩ := h.holds u
      exact ⟨d, (hothers _ (logKey_injective.ne hid)).holds hd⟩

omit [DecidableEq E] in
theorem catalogued_delete {live : ThreadId → Prop} (h : Catalogued F scope live s) {id : ThreadId}
    {s' : Solo B E} (hdel : Deleted scope id s s') :
    Catalogued F scope (fun u => id ≠ u ∧ live u) s' := by
  constructor
  · intro k hk
    rw [SortedMap.mem_keys, hdel.object] at hk
    split_ifs at hk with hpre
    · cases hk
    · obtain ⟨u, hu, rfl⟩ := h.only k (SortedMap.mem_keys.mpr hk)
      exact ⟨u, ⟨fun hid => hpre (hid ▸ ownedStart_isPrefix id), hu⟩, rfl⟩
  · rintro u ⟨hne, hu⟩ hdot
    exact (hdel.unmoved hne fun hin => absurd hin hdot).mem_keys.mpr (h.present u hu hdot)
  · intro u
    obtain ⟨c, hc⟩ := h.holds u
    obtain ⟨owner, hlogs⟩ := hdel.logs
    have hcaches : ∀ o entry, s'.kernel.logs o (logKey scope u) = some entry →
        entry.etag = F.tag entry.log.toValue := by
      rw [hlogs]
      intro o entry hentry
      exact hc.caches o entry ((of_updateAt_eq_some hentry).resolve_left fun h => nomatch h.2)
    by_cases hpre : (ownedStart scope id).toList <+: (logKey scope u).toList
    · exact ⟨none, (hdel.object _).trans (if_pos hpre), hcaches⟩
    · exact ⟨c, ((hdel.object _).trans (if_neg hpre)).trans hc.object, hcaches⟩

theorem catalogued_run (htag : Function.Injective F.tag) (calls : List CatalogCall) :
    Catalogued F scope (Live calls) (runCatalog F.toFormat scope showEtag calls) := by
  induction calls using List.reverseRecOn with
  | nil =>
    refine ⟨fun k hk => (nomatch hk), fun id hid => absurd hid (not_live_nil id), fun id => ?_⟩
    exact ⟨none, rfl, fun _ _ hentry => nomatch hentry⟩
  | append_singleton calls call ih =>
    rw [runCatalog, List.foldl_append, List.foldl_cons, List.foldl_nil, ← runCatalog]
    obtain ⟨store, id, op⟩ := call
    cases op with
    | append step =>
      have hlive : Live (calls ++ [⟨store, id, .append step⟩]) = fun u => id = u ∨ Live calls u :=
        funext fun u => propext live_concat
      exact hlive ▸ catalogued_append htag ih id step
    | delete =>
      have hlive : Live (calls ++ [⟨store, id, .delete⟩]) = fun u => id ≠ u ∧ Live calls u :=
        funext fun u => propext live_concat
      exact hlive ▸ catalogued_delete ih (deleted_run id _)

/-- After any calls, the list is exactly that of the live threads, and no delete changes what is
read of another thread, exactly if no live thread has a dot in its id. -/
theorem threads_separate_iff (htag : Function.Injective F.tag) (calls : List CatalogCall) :
    (∀ store, ListsExactly (Live calls)
        (listed F.toFormat scope showEtag store (runCatalog F.toFormat scope showEtag calls)) ∧
      ∀ t u : ThreadId, t ≠ u → ∀ deleter,
        readLog F.toFormat scope showEtag store u (CatalogCall.run F.toFormat scope showEtag
          (runCatalog F.toFormat scope showEtag calls) ⟨deleter, t, .delete⟩) =
        readLog F.toFormat scope showEtag store u (runCatalog F.toFormat scope showEtag calls)) ↔
    ∀ id, Live calls id → '.' ∉ id.value.toList := by
  have hcat : Catalogued F scope (Live calls) (runCatalog F.toFormat scope showEtag calls) :=
    catalogued_run htag calls
  constructor
  · intro hall id hlive
    have hin := ((hall 0).1.complete id.value).mpr ⟨id, hlive, rfl⟩
    exact (mem_listed.mp hin).2
  · intro hnodots store
    refine ⟨⟨sorted_listed, fun name => ?_⟩, fun t u hne deleter => ?_⟩
    · rw [mem_listed]
      constructor
      · rintro ⟨hkey, -⟩
        obtain ⟨id, hlive, heq⟩ := hcat.only _ hkey
        rw [logKey, ← String.toList_inj] at heq
        simp only [String.toList_append, List.append_cancel_right_eq, List.append_cancel_left_eq,
          String.toList_inj] at heq
        exact ⟨id, hlive, heq.symm⟩
      · rintro ⟨id, hlive, rfl⟩
        exact ⟨hcat.present id hlive (hnodots id hlive), hnodots id hlive⟩
    · have hdel : Deleted scope t (runCatalog F.toFormat scope showEtag calls) (CatalogCall.run F.toFormat scope
          showEtag (runCatalog F.toFormat scope showEtag calls) ⟨deleter, t, .delete⟩) := deleted_run t _
      have hmoved := hdel.unmoved hne fun hdot => by
        rw [← Option.not_isSome_iff_eq_none, ← SortedMap.mem_keys]
        intro hkey
        obtain ⟨id, hlive, heq⟩ := hcat.only _ hkey
        exact hnodots id hlive (logKey_injective heq ▸ hdot)
      exact get_eq_of_sameView (scopeClient scope showEtag store) scopeClient_answered
        (scopeClient_key u) (hdel.sameView hmoved store)

end Calls

/-! Two runs on concrete documents. -/

def plainThread : ThreadId := ⟨"a", by decide +kernel⟩

def dottedThread : ThreadId := ⟨"a.b", by decide +kernel⟩

def plainCalls : List CatalogCall := [⟨0, plainThread, .append (message "one")⟩]

def dottedCalls : List CatalogCall := [⟨0, dottedThread, .append (message "one")⟩]

abbrev smallRun (calls : List CatalogCall) : Solo Json Json :=
  runCatalog Format.plain ObjectKey.smallScope (fun _ => "") calls

abbrev smallListed (store : Nat) (s : Solo Json Json) : List String :=
  listed Format.plain ObjectKey.smallScope (fun _ => "") store s

abbrev smallRead (store : Nat) (id : ThreadId) (s : Solo Json Json) : Except CoreError ThreadLog :=
  readLog Format.plain ObjectKey.smallScope (fun _ => "") store id s

/-- The state after a store deleted a thread. -/
abbrev smallDelete (deleter : Nat) (id : ThreadId) (s : Solo Json Json) : Solo Json Json :=
  CatalogCall.run Format.plain ObjectKey.smallScope (fun _ => "") s ⟨deleter, id, .delete⟩

/-- A thread without a dot is listed, and stays when another is deleted. -/
theorem threads_separate_plain :
    ListsExactly (Live plainCalls) (smallListed 0 (smallRun plainCalls)) ∧
      smallRead 0 plainThread (smallDelete 1 dottedThread (smallRun plainCalls)) =
        smallRead 0 plainThread (smallRun plainCalls) := by
  have hne : dottedThread ≠ plainThread := fun h => absurd (congrArg (·.value) h) (by decide)
  have hnodots (id : ThreadId) (hlive : Live plainCalls id) : '.' ∉ id.value.toList := by
    rcases (@live_concat [] _ _).mp hlive with rfl | hnil
    · decide
    · exact absurd hnil (not_live_nil id)
  obtain ⟨hlists, hreads⟩ :=
    (threads_separate_iff Format.plain_tag_injective plainCalls).mpr hnodots 0
  exact ⟨hlists, hreads dottedThread plainThread hne 1⟩

/-- A thread with a dot is not listed, and is deleted with the thread before the dot. -/
theorem threads_collide_dot :
    Live dottedCalls dottedThread ∧ smallListed 0 (smallRun dottedCalls) = [] ∧
    ¬ ListsExactly (Live dottedCalls) (smallListed 0 (smallRun dottedCalls)) ∧
    smallRead 0 dottedThread (smallDelete 0 plainThread (smallRun dottedCalls)) ≠
      smallRead 0 dottedThread (smallRun dottedCalls) := by
  have hlive : Live dottedCalls dottedThread := (@live_concat [] _ _).mpr (.inl rfl)
  have hlisted : smallListed 0 (smallRun dottedCalls) = [] := by decide +kernel
  have hread : (smallRead 0 dottedThread (smallRun dottedCalls)).isOk = true := by decide +kernel
  have hgone : (smallRead 0 dottedThread
      (smallDelete 0 plainThread (smallRun dottedCalls))).isOk = false := by decide +kernel
  refine ⟨hlive, hlisted, fun hexact => ?_, fun hsame => ?_⟩
  · have hin := (hexact.complete dottedThread.value).mpr ⟨dottedThread, hlive, rfl⟩
    rw [hlisted] at hin
    exact nomatch hin
  · rw [hsame, hread] at hgone
    cases hgone

end ReactRuntime.Session
