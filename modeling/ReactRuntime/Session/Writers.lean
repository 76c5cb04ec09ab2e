import ReactRuntime.Session.Contract

/-!
# The operations of the thread store

Over any storage that meets its contract: a writer that returns `Ok` has committed
its edit once, a writer that returns an error has committed nothing, and a reader
returns a log whose document the object held during the call.
-/
namespace ReactRuntime.Session
open Library Serde ReactRuntime.Core Storage

variable {τ B E : Type} [DecidableEq τ] [DecidableEq E] {F : ExactFormat B E} {site : τ → Site}
  {op : τ → ThreadOp} {key : String} {guard : τ → KernelCall B E → Audited τ B E → Prop} {t : τ}
  {storage : StorageAdapter (KernelCall B E) KernelCall.Answer B E} {s m m' : Audited τ B E}

theorem parseThreadLog_toValue {log log' : ThreadLog}
    (h : ThreadStore.parseThreadLog log.toValue = .ok log') : log'.toValue = log.toValue := by
  apply ThreadLog.toValue_of_fromValue
  unfold ThreadStore.parseThreadLog at h
  cases hv : ThreadLog.fromValue log.toValue <;> simp_all [Except.mapError]

omit [DecidableEq τ] [DecidableEq E] in
/-- A document of the object reads back as a log with that document. -/
theorem toValue_of_heldFrom {n : Nat} {v : Json} {log : ThreadLog}
    (h : HeldFrom n (held op s) v) (hp : ThreadStore.parseThreadLog v = .ok log) :
    log.toValue = v := by
  obtain ⟨j, -, hj⟩ := h
  obtain ⟨written, rfl⟩ := exists_of_mem_documents (List.mem_of_getElem? hj)
  exact parseThreadLog_toValue hp

section Posts
variable (F : Format B E) (op : τ → ThreadOp) (t : τ)

/-- A cached log is a snapshot under the etag that was asked for. -/
def LookupPost (x : Option E) (s : Audited τ B E) (r : Option (LogCacheEntry E))
    (m : Audited τ B E) : Prop :=
  Later t s m ∧ ∀ entry, r = some entry →
    ∃ e, x = some e ∧ Snapshot F.tag (held op m) e entry.log.toValue

/-- A fetched log is a snapshot under its etag. -/
def FetchPost (e : E) (s : Audited τ B E) (r : Except CoreError ThreadLog)
    (m : Audited τ B E) : Prop :=
  Later t s m ∧ ∀ log, r = .ok log → Snapshot F.tag (held op m) e log.toValue

/-- What a writer has in hand after loading: the empty log for a missing object, and a snapshot
otherwise. -/
def LoadPost (s : Audited τ B E) (r : Except CoreError (LoadState E ThreadLog))
    (m : Audited τ B E) : Prop :=
  Later t s m ∧ ∀ loaded, r = .ok loaded → match ThreadStore.expectedEtagOf loaded with
    | none => ThreadStore.logOf loaded = ThreadLog.default
    | some e => Snapshot F.tag (held op m) e (ThreadStore.logOf loaded).toValue

/-- A writer that may find nothing to do. -/
def EditPost {α : Type} (s : Audited τ B E) (r : Except CoreError α) (m : Audited τ B E) : Prop :=
  match r with
  | .ok _ => Later t s m ∨ Committed t s m
  | .error _ => Later t s m

/-- A writer that commits whenever it succeeds. -/
def AppendPost {α : Type} (s : Audited τ B E) (r : Except CoreError α) (m : Audited τ B E) : Prop :=
  match r with
  | .ok _ => Committed t s m
  | .error _ => Later t s m

end Posts

section Stable
omit [DecidableEq E]

theorem FetchPost.grow {e : E} {r : Except CoreError ThreadLog} (h : FetchPost F op t e s r m)
    (hm : Later t m m') : FetchPost F op t e s r m' :=
  ⟨h.1.trans hm, fun log hlog => (h.2 log hlog).grow hm.held_isPrefix⟩

theorem FetchPost.error (e : E) (err : CoreError) (h : Later t s m) :
    FetchPost F op t e s (.error err) m :=
  ⟨h, fun _ hlog => nomatch hlog⟩

theorem LoadPost.grow {r : Except CoreError (LoadState E ThreadLog)}
    (h : LoadPost F op t s r m) (hm : Later t m m') : LoadPost F op t s r m' := by
  refine ⟨h.1.trans hm, fun loaded hl => ?_⟩
  have hload := h.2 loaded hl
  cases hx : ThreadStore.expectedEtagOf loaded with
  | none => simpa only [hx] using hload
  | some e =>
    simp only [hx] at hload
    exact hload.grow hm.held_isPrefix

theorem LoadPost.error (err : CoreError) (h : Later t s m) :
    LoadPost F op t s (.error err) m :=
  ⟨h, fun _ hlog => nomatch hlog⟩

theorem AppendPost.grow {α : Type} {r : Except CoreError α} (h : AppendPost t s r m)
    (hm : Later t m m') : AppendPost t s r m' := by
  cases r with
  | ok a => exact Committed.trans h hm
  | error e => exact Later.trans h hm

theorem AppendPost.shift {α : Type} {r : Except CoreError α} (hs : Later t s m)
    (h : AppendPost t m r m') : AppendPost t s r m' := by
  cases r with
  | ok a => exact hs.committed h
  | error e => exact hs.trans h

theorem AppendPost.toEditPost {α : Type} {r : Except CoreError α} (h : AppendPost t s r m) :
    EditPost t s r m := by
  cases r with
  | ok a => exact Or.inr h
  | error e => exact h

theorem EditPost.grow {α : Type} {r : Except CoreError α} (h : EditPost t s r m)
    (hm : Later t m m') : EditPost t s r m' := by
  cases r with
  | ok a => exact Or.imp (fun h => Later.trans h hm) (fun h => Committed.trans h hm) h
  | error e => exact Later.trans h hm

theorem EditPost.shift {α : Type} {r : Except CoreError α} (hs : Later t s m)
    (h : EditPost t m r m') : EditPost t s r m' := by
  cases r with
  | ok a => exact Or.imp hs.trans hs.committed h
  | error e => exact hs.trans h

end Stable

/-- Returning at once. -/
theorem meets_ret {α : Type} {a : α} {Q : α → Audited τ B E → Prop} (h : Q a s)
    (hstable : ∀ m, Later t s m → Q a s → Q a m) :
    (threadProtocol F site op key guard).Meets t Q (.ret a) s :=
  fun m hm _ => hstable m hm.later h

theorem meets_lookupLog (threadKey : String → Except String String) (x : Option E)
    (s : Audited τ B E) : (threadProtocol F site op key guard).Meets t (LookupPost F op t x s)
      ((ThreadStore.over storage threadKey).lookupLog key x) s := by
  cases x with
  | none => exact meets_ret ⟨Later.refl t s, fun _ h => nomatch h⟩ fun m hm _ =>
      ⟨hm, fun _ h => nomatch h⟩
  | some e =>
    apply Protocol.Meets.bind
    apply (meets_cacheGet s).mono
    rintro entry m - ⟨hm, hentry⟩
    have hfilter : ∀ found, entry.filter (fun entry => entry.etag = e) = some found →
        Snapshot F.tag (held op m) e found.log.toValue := by
      intro found hf
      obtain ⟨rfl, he⟩ := Option.filter_eq_some_iff.mp hf
      have hsnap := hentry found rfl
      rwa [of_decide_eq_true he] at hsnap
    apply meets_ret
    · exact ⟨hm, fun found hf => ⟨e, rfl, hfilter found hf⟩⟩
    · exact fun m' hm' _ => ⟨hm.trans hm', fun found hf =>
        ⟨e, rfl, (hfilter found hf).grow hm'.held_isPrefix⟩⟩

section Store
variable (hst : Coherent F site op key guard t storage)
  (threadKey : String → Except String String) (showEtag : Option E → String)

theorem meets_rememberLog {log : ThreadLog} {etag : E}
    (h : Snapshot F.tag (held op s) etag log.toValue) :
    (threadProtocol F site op key guard).Meets t (fun _ m => Later t s m)
      ((ThreadStore.over storage threadKey).rememberLog key log etag) s :=
  meets_cacheInsert h

include hst

theorem meets_fetchLog {e : E} (hy : ∃ y ∈ held op s, F.tag y = e) :
    (threadProtocol F site op key guard).Meets t (FetchPost F op t e s)
      ((ThreadStore.over storage threadKey).fetchLog key e) s := by
  apply Protocol.Meets.bind
  apply (meets_lookupLog threadKey (some e) s).mono
  rintro cached m - ⟨hm, hcached⟩
  cases cached with
  | some entry =>
    obtain ⟨e', he', hsnap⟩ := hcached entry rfl
    cases he'
    apply meets_ret
    · exact ⟨hm, fun log hlog => Except.ok.inj hlog ▸ hsnap⟩
    · exact fun m' hm' h => h.grow hm'
  | none =>
    apply Protocol.Meets.andThen (hst.retryRead m)
    · rintro v m' - ⟨hm', hv⟩
      have hread := hv v rfl
      cases hp : ThreadStore.parseThreadLog v with
      | error err => exact meets_ret (.error e err (hm.trans hm')) fun d hd h => h.grow hd
      | ok log =>
        have hsnap : Snapshot F.tag (held op m') e log.toValue := by
          rw [toValue_of_heldFrom hread hp]
          obtain ⟨y, hmem, hye⟩ := hy
          have hmem' : held op s <+: held op m := hm.held_isPrefix
          exact Snapshot.of_reads (hmem'.subset hmem) hye hm'.held_isPrefix hread
        apply Protocol.Meets.bind
        apply (meets_rememberLog threadKey hsnap).mono
        intro _ d _ hd
        apply meets_ret
        · exact ⟨(hm.trans hm').trans hd, fun l hl => Except.ok.inj hl ▸ hsnap.grow hd.held_isPrefix⟩
        · exact fun d' hd' h => h.grow hd'
    · rintro err m' - ⟨hm', -⟩
      exact meets_ret (.error e err (hm.trans hm')) fun d hd h => h.grow hd

theorem meets_loadThreadLogForWrite (s : Audited τ B E) :
    (threadProtocol F site op key guard).Meets t (LoadPost F op t s)
      ((ThreadStore.over storage threadKey).loadThreadLogForWrite key) s := by
  apply Protocol.Meets.andThen (hst.retryHead s)
  · rintro head m - ⟨hm, hhead⟩
    cases head with
    | none =>
      apply meets_ret
      · refine ⟨hm, fun loaded hl => ?_⟩
        cases hl
        rfl
      · exact fun d hd h => h.grow hd
    | some e =>
      obtain ⟨y, hy, hye⟩ := hhead e rfl
      obtain ⟨j, -, hj⟩ := hy
      apply Protocol.Meets.andThen
        (meets_fetchLog hst threadKey ⟨y, List.mem_of_getElem? hj, hye⟩)
      · rintro log m' - ⟨hm', hlog⟩
        cases hschema : ThreadStore.ensureThreadLogSchema log with
        | error err => exact meets_ret (.error err (hm.trans hm')) fun d hd h => h.grow hd
        | ok _ =>
          apply meets_ret
          · refine ⟨hm.trans hm', fun loaded hl => ?_⟩
            cases hl
            exact hlog log rfl
          · exact fun d hd h => h.grow hd
      · rintro err m' - ⟨hm', -⟩
        exact meets_ret (.error err (hm.trans hm')) fun d hd h => h.grow hd
  · rintro err m - ⟨hm, -⟩
    exact meets_ret (.error err hm) fun d hd h => h.grow hd

omit hst in
theorem meets_ret_append {α : Type} {r : Except CoreError α} (h : AppendPost t s r m) :
    (threadProtocol F site op key guard).Meets t (AppendPost t s) (.ret r) m :=
  meets_ret h fun _ hd h => h.grow hd

/-- Saving the edit of a log in hand commits it or reports that it did not. -/
theorem meets_commitLog {threadId : String} {log : ThreadLog} {expected : Option E}
    (h : Ready F op t log.toValue expected s) :
    (threadProtocol F site op key guard).Meets t (AppendPost t s)
      ((ThreadStore.over storage threadKey).commitLog showEtag threadId key log expected) s := by
  apply Protocol.Meets.andThen
    (R := fun r m => match r with
      | .ok e => Committed t s m ∧ Snapshot F.tag (held op m) e log.toValue
      | .error _ => Later t s m)
  · apply Protocol.Meets.andThen (hst.retryPut h)
    · intro status m _ hput
      cases status with
      | written e => exact meets_ret hput fun d hd h => ⟨h.1.trans hd, h.2.grow hd.held_isPrefix⟩
      | conflict current => exact meets_ret hput fun d hd h => Later.trans h hd
    · exact fun err m _ hput => meets_ret hput fun d hd h => Later.trans h hd
  · rintro e m - ⟨hm, hsnap⟩
    apply Protocol.Meets.bind
    apply (meets_rememberLog threadKey hsnap).mono
    exact fun _ d _ hd => meets_ret_append (hm.trans hd)
  · exact fun err m _ hm => meets_ret_append hm

omit hst [DecidableEq E] in
/-- The edit of a loaded log is ready to be written. -/
theorem LoadPost.ready {loaded : LoadState E ThreadLog} {log : ThreadLog}
    (h : LoadPost F op t s (.ok loaded) m)
    (ha : (op t).apply (ThreadStore.logOf loaded) = some log) :
    Ready F op t log.toValue (ThreadStore.expectedEtagOf loaded) m :=
  ⟨ThreadStore.logOf loaded, log, ha, rfl, h.2 loaded rfl⟩

omit hst in
/-- The write lock plays no part in what a writer ensures. -/
theorem meets_withLock {α : Type} {Q : Except CoreError α → Audited τ B E → Prop}
    {body : Program (KernelCall B E) KernelCall.Answer (Except CoreError α)} {k : String}
    (hbody : ∀ m, Later t s m → (threadProtocol F site op key guard).Meets t Q body m)
    (hstable : ∀ r m m', Later t m m' → Q r m → Q r m') :
    (threadProtocol F site op key guard).Meets t Q
      ((ThreadStore.over storage threadKey).withLock k body) s := by
  apply Protocol.Meets.bind
  apply (meets_lock s k).mono
  intro _ m _ hm
  apply Protocol.Meets.bind
  apply (hbody m hm).mono
  intro r m' _ hr
  apply Protocol.Meets.bind
  apply (meets_unlock m' k).mono
  exact fun _ d _ hd => meets_ret (hstable r m' d hd hr) fun d' hd' h => hstable r d d' hd' h

section Operations
variable {threadId : String}

theorem meets_appendStepLocked {step : ThreadStep} (he : op t = .append step)
    (s : Audited τ B E) : (threadProtocol F site op key guard).Meets t (AppendPost t s)
      ((ThreadStore.over storage threadKey).appendStepLocked showEtag key threadId step) s := by
  apply Protocol.Meets.andThen (meets_loadThreadLogForWrite hst threadKey s)
  · intro loaded m _ hload
    have hready : Ready F op t ((ThreadStore.logOf loaded).push step).toValue
        (ThreadStore.expectedEtagOf loaded) m := hload.ready (by rw [he]; rfl)
    exact (meets_commitLog hst threadKey showEtag hready).mono fun r d _ hd => hd.shift hload.1
  · exact fun err m _ hload => meets_ret_append hload.1

/-- An attempt that lost its compare-and-swap has written nothing, so the next one starts over. -/
theorem meets_appendAttempts {step : ThreadStep} (he : op t = .append step) (n : Nat)
    (s : Audited τ B E) : (threadProtocol F site op key guard).Meets t (AppendPost t s)
      ((ThreadStore.over storage threadKey).appendAttempts showEtag key threadId step n) s := by
  induction n generalizing s with
  | zero => exact meets_ret_append (Later.refl t s)
  | succ n ih =>
    apply Protocol.Meets.bind
    apply (meets_appendStepLocked hst threadKey showEtag he s).mono
    intro r m _ hr
    cases r with
    | ok _ => exact meets_ret_append hr
    | error err =>
      cases err with
      | auditConflict msg =>
        apply Protocol.Meets.bind
        apply (meets_cacheRemove m).mono
        intro _ d _ hd
        exact (ih d).mono fun r d' _ hr' => hr'.shift (Later.trans hr hd)
      | _ => exact meets_ret_append hr

omit [DecidableEq τ] [DecidableEq E] hst in
theorem key_over {threadKey : String → Except String String} (hkey : threadKey threadId = .ok key) :
    (ThreadStore.over storage threadKey).key threadId = .ok key := by
  simp only [ThreadStore.key, ThreadStore.over, hkey, Except.mapError]

theorem meets_appendStep {step : ThreadStep} (he : op t = .append step)
    (hkey : threadKey threadId = .ok key) (s : Audited τ B E) :
    (threadProtocol F site op key guard).Meets t (AppendPost t s)
      ((ThreadStore.over storage threadKey).appendStep showEtag threadId step) s := by
  simp only [ThreadStore.appendStep, key_over hkey]
  apply meets_withLock
  · exact fun m hm => (meets_appendAttempts hst threadKey showEtag he _ m).mono
      fun r d _ hd => hd.shift hm
  · exact fun r m m' hm h => h.grow hm

omit hst in
theorem meets_ret_edit {α : Type} {r : Except CoreError α} (h : EditPost t s r m) :
    (threadProtocol F site op key guard).Meets t (EditPost t s) (.ret r) m :=
  meets_ret h fun _ hd h => h.grow hd

/-- Load, decide, save: the shape of the writers that do not repeat. -/
theorem meets_edit {α : Type} (k : LoadState E ThreadLog →
      Program (KernelCall B E) KernelCall.Answer (Except CoreError α))
    (hk : ∀ loaded m, (∀ log, (op t).apply (ThreadStore.logOf loaded) = some log →
        Ready F op t log.toValue (ThreadStore.expectedEtagOf loaded) m) →
      (threadProtocol F site op key guard).Meets t (EditPost t m) (k loaded) m)
    (s : Audited τ B E) : (threadProtocol F site op key guard).Meets t (EditPost t s)
      ((ThreadStore.over storage threadKey).withLock key
        (((ThreadStore.over storage threadKey).loadThreadLogForWrite key).andThen k)) s := by
  apply meets_withLock
  · intro m hm
    apply Protocol.Meets.andThen (meets_loadThreadLogForWrite hst threadKey m)
    · intro loaded d _ hload
      exact (hk loaded d fun log hlog => hload.ready hlog).mono
        fun r d' _ hr => hr.shift (hm.trans hload.1)
    · exact fun err d _ hload => meets_ret_edit (hm.trans hload.1)
  · exact fun r m m' hm h => h.grow hm

theorem meets_ensurePreflightPhaseStep {agent : String} {suiteId : Option String}
    {initialPhase ts : String} (he : op t = .preflight agent suiteId initialPhase ts)
    (hkey : threadKey threadId = .ok key) (s : Audited τ B E) :
    (threadProtocol F site op key guard).Meets t (EditPost t s)
      ((ThreadStore.over storage threadKey).ensurePreflightPhaseStep showEtag threadId agent suiteId
        initialPhase ts) s := by
  simp only [ThreadStore.ensurePreflightPhaseStep, key_over hkey]
  apply meets_edit hst threadKey
  intro loaded m hready
  cases hp : (ThreadStore.logOf loaded).firstPhase with
  | some found => exact meets_ret_edit (Or.inl (Later.refl t m))
  | none =>
    have hr := hready _ (by rw [he, ThreadOp.apply, hp]; rfl)
    apply Protocol.Meets.andThen (meets_commitLog hst threadKey showEtag hr)
    · exact fun _ d _ hd => meets_ret_edit (Or.inr hd)
    · exact fun err d _ hd => meets_ret_edit hd

theorem meets_setTitleIfAbsent {title : String} (he : op t = .setTitleIfAbsent title)
    (hkey : threadKey threadId = .ok key) (s : Audited τ B E) :
    (threadProtocol F site op key guard).Meets t (EditPost t s)
      ((ThreadStore.over storage threadKey).setTitleIfAbsent showEtag threadId title) s := by
  simp only [ThreadStore.setTitleIfAbsent, key_over hkey]
  apply meets_edit hst threadKey
  intro loaded m hready
  split_ifs with ha
  · have hr := hready _ (by rw [he]; exact if_pos ha)
    exact (meets_commitLog hst threadKey showEtag hr).mono fun r d _ hd => hd.toEditPost
  · exact meets_ret_edit (Or.inl (Later.refl t m))

theorem meets_lockTitle {title : String} (he : op t = .lockTitle title)
    (hkey : threadKey threadId = .ok key) (s : Audited τ B E) :
    (threadProtocol F site op key guard).Meets t (EditPost t s)
      ((ThreadStore.over storage threadKey).lockTitle showEtag threadId title) s := by
  simp only [ThreadStore.lockTitle, key_over hkey]
  apply meets_edit hst threadKey
  intro loaded m hready
  split_ifs with hl
  · exact meets_ret_edit (Or.inl (Later.refl t m))
  · have hr := hready _ (by rw [he]; exact if_neg hl)
    exact (meets_commitLog hst threadKey showEtag hr).mono fun r d _ hd => hd.toEditPost

/-- A reader commits nothing and returns a log that the object held since the call began. -/
def GetPost (op : τ → ThreadOp) (t : τ) (s : Audited τ B E) (r : Except CoreError ThreadLog)
    (m : Audited τ B E) : Prop :=
  Later t s m ∧ ∀ log, r = .ok log → HeldFrom (held op s).length (held op m) log.toValue

omit [DecidableEq E] hst in
theorem GetPost.grow {r : Except CoreError ThreadLog} (h : GetPost op t s r m)
    (hm : Later t m m') : GetPost op t s r m' :=
  ⟨h.1.trans hm, fun log hlog => (h.2 log hlog).grow hm.held_isPrefix⟩

omit [DecidableEq E] hst in
theorem GetPost.error (err : CoreError) (h : Later t s m) : GetPost op t s (.error err) m :=
  ⟨h, fun _ hlog => nomatch hlog⟩

theorem meets_get (htag : Function.Injective F.tag) (hkey : threadKey threadId = .ok key)
    (s : Audited τ B E) : (threadProtocol F site op key guard).Meets t (GetPost op t s)
      ((ThreadStore.over storage threadKey).get threadId) s := by
  simp only [ThreadStore.get, key_over hkey]
  apply Protocol.Meets.andThen (hst.retryHead s)
  · rintro head m - ⟨hm, hhead⟩
    apply Protocol.Meets.bind
    apply (meets_lookupLog threadKey head m).mono
    rintro cached d hinv ⟨hd, hcached⟩
    cases cached with
    | some entry =>
      obtain ⟨e, rfl, hsnap⟩ := hcached entry rfl
      obtain ⟨y, hy, hye⟩ := hhead e rfl
      apply meets_ret
      · refine ⟨hm.trans hd, fun log hlog => ?_⟩
        cases hlog
        exact hsnap.heldFrom hinv.effective.noReturn htag (hy.grow hd.held_isPrefix) hye
      · exact fun _ hd' h => h.grow hd'
    | none =>
      apply Protocol.Meets.bind
      apply (hst.retryRead d).mono
      rintro r u - ⟨hu, hread⟩
      have hlater := (hm.trans hd).trans hu
      cases r with
      | error err => exact meets_ret (.error _ hlater) fun _ hd' h => h.grow hd'
      | ok v =>
        have hv := hread v rfl
        simp only
        cases hp : ThreadStore.parseThreadLog v with
        | error err => exact meets_ret (.error _ hlater) fun _ hd' h => h.grow hd'
        | ok log =>
          have hlog := toValue_of_heldFrom hv hp
          simp only
          cases hschema : ThreadStore.ensureThreadLogSchema log with
          | error err => exact meets_ret (.error _ hlater) fun _ hd' h => h.grow hd'
          | ok _ =>
            have hpost : GetPost op t s (.ok log) u := by
              refine ⟨hlater, fun l hl => ?_⟩
              cases hl
              exact hlog.symm ▸ hv.weaken (hm.trans hd).held_length_le
            cases head with
            | none => exact meets_ret hpost fun _ hd' h => h.grow hd'
            | some e =>
              obtain ⟨y, ⟨j, -, hj⟩, hye⟩ := hhead e rfl
              have hsnap : Snapshot F.tag (held op u) e log.toValue := by
                rw [hlog]
                have hmd : held op m <+: held op d := hd.held_isPrefix
                exact Snapshot.of_reads (hmd.subset (List.mem_of_getElem? hj)) hye
                  hu.held_isPrefix hv
              apply Protocol.Meets.bind
              apply (meets_rememberLog threadKey hsnap).mono
              exact fun _ d' _ hd' => meets_ret (hpost.grow hd') fun _ hd'' h => h.grow hd''
  · rintro err m - ⟨hm, -⟩
    exact meets_ret (.error err hm) fun _ hd' h => h.grow hd'

end Operations
end Store
end ReactRuntime.Session
