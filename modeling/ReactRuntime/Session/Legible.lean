import ReactRuntime.Session.Rereading
import ReactRuntime.Session.ToolResults

/-!
# Appends to a log that comes back changed

The format may give back other floats than those that were written. A store then appends to the log
as it was read, and what matters is only that whatever is stored or cached can be read.
-/
namespace ReactRuntime.Session
open Library Serde ReactRuntime.Core Storage

variable {B E : Type} [DecidableEq E] {F : SerdeFormat B E} (cl : Client E) {key threadId : String}

/-- What is stored or cached under the key is a log that can be read. -/
structure Legible (F : Format B E) (key : String) (s : Solo B E) : Prop where
  stored : ∀ bytes, s.kernel.objects.get key = some bytes →
    ∃ log : ThreadLog, log.Readable ∧ bytes = F.render log.toValue
  cached : ∀ owner entry, s.kernel.logs owner key = some entry → entry.log.Readable

omit [DecidableEq E] in
theorem Legible.setLock {s : Solo B E} (h : Legible F key s) (k : String) (held : Bool) :
    Legible F key (s.setLock k held) := ⟨h.stored, h.cached⟩

omit [DecidableEq E] in
/-- Nothing is stored yet, or a log that can be read. -/
theorem legible_start {initial : Option ThreadLog} (h : ∀ log, initial = some log → log.Readable) :
    Legible F key (Solo.start F.toFormat key initial) where
  stored bytes hbytes := by
    rw [(settled_start F.toFormat key initial).object, Option.map_eq_some_iff] at hbytes
    obtain ⟨log, hlog, rfl⟩ := hbytes
    exact ⟨log, h log hlog, rfl⟩
  cached _ _ hentry := nomatch hentry

omit [DecidableEq E] in
/-- A cache with one entry replaced. -/
theorem Legible.updateAt {s : Solo B E} (h : Legible F key s) (owner : Nat)
    {entry : Option (LogCacheEntry E)} (hentry : ∀ e, entry = some e → e.log.Readable) :
    Legible F key ⟨{ s.kernel with logs := updateAt s.kernel.logs owner key entry }, s.puts⟩ :=
  ⟨h.stored, forall_updateAt h.cached hentry⟩

omit [DecidableEq E] in
/-- What a reader makes of a readable log. -/
theorem parse_stored {log : ThreadLog} (h : log.Readable) : ∃ log' : ThreadLog, log'.Readable ∧
    ∃ v, F.parseJson key (F.render log.toValue) = .ok v ∧ ThreadStore.parseThreadLog v = .ok log' := by
  have hback : (log.mapJson (Json.readBack F.readFloat)).Readable := h.mapJson
  obtain ⟨log', hparse, halike⟩ := parseThreadLog_readable hback
  refine ⟨log', (ThreadLog.alike_iff.mp (ThreadLog.alike_iff.mpr halike).symm).readable hback,
    _, ?_, hparse⟩
  rw [F.parseJson_eq_ok, F.parse_render _ h.depth, F.readBack_eq, ThreadLog.readBack_toValue]

/-- The error of a read does not ask for a retry, so a read of the stored log is one call. -/
theorem eval_get_stored {s : Solo B E} {log : ThreadLog} (h : log.Readable)
    (hobject : s.kernel.objects.get key = some (F.render log.toValue)) :
    ∃ log' : ThreadLog, log'.Readable ∧ ∃ v,
      (retryGetJson backend key).eval (cl.handle F) s = (s, .ok v) ∧
      ThreadStore.parseThreadLog v = .ok log' := by
  obtain ⟨log', hlog', v, hv, hparse⟩ : ∃ log' : ThreadLog, log'.Readable ∧
      ∃ v, F.parseJson key (F.render log.toValue) = .ok v ∧
        ThreadStore.parseThreadLog v = .ok log' := parse_stored h
  exact ⟨log', hlog', v, by rw [eval_retryGet cl F.toFormat hobject, hv], hparse⟩

/-- The log behind the etag of the stored one comes from the cache or from the storage. -/
theorem eval_fetchLog_legible {s : Solo B E} (h : Legible F key s) {log : ThreadLog}
    (hlog : log.Readable) (hobject : s.kernel.objects.get key = some (F.render log.toValue)) :
    ∃ s' log', (cl.self.fetchLog key (F.tag log.toValue)).eval (cl.handle F) s = (s', .ok log') ∧
      Legible F key s' ∧ log'.Readable := by
  have hlookup : (cl.self.lookupLog key (some (F.tag log.toValue))).eval (cl.handle F) s =
      (s, (s.kernel.logs cl.store key).filter fun entry => entry.etag = F.tag log.toValue) :=
    eval_lookupLog cl _ s
  cases hfound : (s.kernel.logs cl.store key).filter fun entry => entry.etag = F.tag log.toValue with
  | some entry =>
    rw [hfound] at hlookup
    refine ⟨s, entry.log, ?_, h, h.cached cl.store entry (Option.filter_eq_some_iff.mp hfound).1⟩
    simp only [ThreadStore.fetchLog, Program.bind_eq, Program.eval_bind_of hlookup]
    rfl
  | none =>
    rw [hfound] at hlookup
    obtain ⟨log', hlog', v, hget, hparse⟩ := eval_get_stored cl hlog hobject
    have hcached : ∀ entry, some (⟨log', F.tag log.toValue⟩ : LogCacheEntry E) = some entry →
        entry.log.Readable := by
      rintro _ ⟨⟩
      exact hlog'
    refine ⟨_, log', ?_, h.updateAt cl.store hcached, hlog'⟩
    simp only [ThreadStore.fetchLog, Program.bind_eq, Program.eval_bind_of hlookup,
      ThreadStore.over_storage, Program.eval_andThen_ok hget, hparse]
    rfl

/-- Over legible logs a load gets one. -/
theorem eval_load_legible {s : Solo B E} (h : Legible F key s) : ∃ s' loaded,
    (cl.self.loadThreadLogForWrite key).eval (cl.handle F) s = (s', .ok loaded) ∧
    Legible F key s' ∧ (ThreadStore.logOf loaded).Readable := by
  have hhead := eval_retryHead cl F.toFormat key s
  rw [ThreadStore.loadThreadLogForWrite, ThreadStore.over_storage, Program.eval_andThen_ok hhead]
  cases hobject : s.kernel.objects.get key with
  | none =>
    rw [Format.headOf, hobject]
    exact ⟨s, .missing, rfl, h, ThreadLog.readable_default⟩
  | some bytes =>
    obtain ⟨log, hlog, rfl⟩ := h.stored bytes hobject
    obtain ⟨s', log', hfetch, hs', hlog'⟩ := eval_fetchLog_legible cl h hlog hobject
    have htag : F.headOf s.kernel.objects key = some (F.tag log.toValue) := by
      rw [Format.headOf, hobject]
      rfl
    refine ⟨s', .loaded ⟨some (F.tag log.toValue), log'⟩, ?_, hs', hlog'⟩
    simp only [htag, Program.eval_andThen_ok hfetch, ensureThreadLogSchema_ok hlog'.schema]
    rfl

/-- The state after a conditional put that was made or was not. -/
structure PutOrNot (F : Format B E) (key : String) (v : Json) (s s' : Solo B E) : Prop where
  logs : s'.kernel.logs = s.kernel.logs
  object : s'.kernel.objects.get key = s.kernel.objects.get key ∨
    s'.kernel.objects.get key = some (F.render v)

/-- It was made if the answer says so, and a failure is one of the storage. -/
structure PutKept (F : Format B E) (key : String) (v : Json) (s s' : Solo B E)
    (r : Except CoreError (ConditionalWriteStatus E)) : Prop extends PutOrNot F key v s s' where
  written : ∀ etag, r = .ok (.written etag) → s'.kernel.objects.get key = some (F.render v)
  failed : ∀ e, r = .error e → ∃ e', e = .storage e' ∧ e'.retry = true

theorem PutOrNot.attempt {F : Format B E} {v : Json} {s m : Solo B E} (hm : PutOrNot F key v s m)
    (expected : Option E) :
    let out := ((KernelCall.storage (.putJsonIfEtagMatches key v expected)).issue).eval (cl.handle F) m
    PutKept F key v s out.1 out.2 := by
  have hserved : (F.serve m.kernel.objects (.putJsonIfEtagMatches key v expected)).1.get key =
      s.kernel.objects.get key ∨ (F.serve m.kernel.objects
        (.putJsonIfEtagMatches key v expected)).1.get key = some (F.render v) := by
    simp only [Format.serve]
    split_ifs
    · exact .inr (by simp)
    · exact hm.object
  rw [eval_put]
  cases cl.faults m.puts with
  | answer =>
    refine ⟨⟨hm.logs, hserved⟩, fun etag hwritten => ?_, fun e he => ?_⟩
    · simp only [Kernel.perform, Format.serve] at hwritten ⊢
      split_ifs at hwritten ⊢
      · simp
      · cases hwritten
    · simp only [Kernel.perform, Format.serve] at he
      split_ifs at he
  | drop e =>
    refine ⟨⟨hm.logs, hm.object⟩, fun etag hwritten => ?_, fun e' he => ?_⟩
    · cases hwritten
    · exact ⟨e.1, (Except.error.inj he).symm, e.2⟩
  | lose e =>
    refine ⟨⟨hm.logs, hserved⟩, fun etag hwritten => ?_, fun e' he => ?_⟩
    · cases hwritten
    · exact ⟨e.1, (Except.error.inj he).symm, e.2⟩

/-- A put that failed is made again, in a state where it was made already or was not. -/
theorem putKept_retry (F : Format B E) (key : String) (v : Json) (expected : Option E) (s : Solo B E) :
    let out := (retryPutJsonIfEtagMatches backend key v expected).eval (cl.handle F) s
    PutKept F key v s out.1 out.2 := by
  have hattempt : ((KernelCall.storage (.putJsonIfEtagMatches key v expected)).issue).Ensures
      (cl.handle F) (PutOrNot F key v s) fun r s' => PutKept F key v s s' r :=
    fun m hm => hm.attempt cl expected
  have hagain : ∀ e m, PutKept F key v s m (.error e) → PutOrNot F key v s m :=
    fun e m hm => hm.toPutOrNot
  exact ensures_retryClassified hattempt hagain SAFE_STORAGE_RETRY_DELAYS_MS s ⟨rfl, .inl rfl⟩

section Commit
variable {s : Solo B E} (log : ThreadLog) (expected : Option E)

/-- A commit that succeeds has stored its log. -/
theorem eval_commit_stored (F : Format B E) {s' : Solo B E}
    (heval : (cl.self.commitLog cl.showEtag threadId key log expected).eval (cl.handle F) s =
      (s', .ok ())) : s'.kernel.objects.get key = some (F.render log.toValue) := by
  have hput := putKept_retry cl F key log.toValue expected s
  cases hout : (retryPutJsonIfEtagMatches backend key log.toValue expected).eval (cl.handle F) s with
  | mk m r =>
    rw [hout] at hput
    cases r with
    | error e =>
      rw [eval_commitLog_error cl threadId hout] at heval
      cases heval
    | ok status =>
      cases status with
      | written etag =>
        rw [eval_commitLog_written cl threadId hout] at heval
        cases heval
        exact hput.written etag rfl
      | conflict current =>
        rw [eval_commitLog_conflict cl threadId hout] at heval
        cases heval

/-- The errors of a commit: it lost, or the storage failed. -/
def CommitError (e : CoreError) : Prop := Outage e ∨ ∃ msg, e = .auditConflict msg

/-- The commit of a readable log leaves legible logs. -/
theorem eval_commit_legible (threadId : String) (h : Legible F key s) (hlog : log.Readable) :
    Legible F key ((cl.self.commitLog cl.showEtag threadId key log expected).eval
      (cl.handle F) s).1 ∧
    ∀ e, ((cl.self.commitLog cl.showEtag threadId key log expected).eval (cl.handle F) s).2 =
      .error e → CommitError e := by
  have hput := putKept_retry cl F.toFormat key log.toValue expected s
  cases hout : (retryPutJsonIfEtagMatches backend key log.toValue expected).eval (cl.handle F) s with
  | mk m r =>
    rw [hout] at hput
    have hm : Legible F key m := by
      refine ⟨fun bytes hbytes => ?_, hput.logs ▸ h.cached⟩
      rcases hput.object with hsame | hnew
      · exact h.stored bytes (hsame ▸ hbytes)
      · exact ⟨log, hlog, Option.some.inj (hbytes.symm.trans hnew)⟩
    cases r with
    | error e =>
      rw [eval_commitLog_error cl threadId hout]
      obtain ⟨e', rfl, hretry⟩ := hput.failed e rfl
      exact ⟨hm, fun e he => Except.error.inj he ▸ .inl hretry⟩
    | ok status =>
      cases status with
      | written etag =>
        rw [eval_commitLog_written cl threadId hout]
        refine ⟨hm.updateAt cl.store ?_, fun e he => nomatch he⟩
        rintro _ ⟨⟩
        exact hlog
      | conflict current =>
        rw [eval_commitLog_conflict cl threadId hout]
        exact ⟨hm, fun e he => .inr ⟨_, (Except.error.inj he).symm⟩⟩

end Commit

/-- The errors that end an append are those of its last attempt. -/
theorem eval_appendAttempts_succ (F : Format B E) (step : ThreadStep) (n : Nat) {s m : Solo B E}
    {r : Except CoreError Unit}
    (hattempt : (cl.self.appendStepLocked cl.showEtag key threadId step).eval (cl.handle F) s = (m, r)) :
    (cl.self.appendAttempts cl.showEtag key threadId step (n + 1)).eval (cl.handle F) s =
      match r with
      | .ok () => (m, .ok ())
      | .error (.auditConflict _) =>
        (cl.self.appendAttempts cl.showEtag key threadId step n).eval (cl.handle F)
          ⟨{ m.kernel with logs := updateAt m.kernel.logs cl.store key none }, m.puts⟩
      | .error e => (m, .error e) := by
  rw [ThreadStore.appendAttempts, Program.bind_eq, Program.eval_bind_of hattempt]
  cases r with
  | ok _ => rfl
  | error e => cases e <;> rfl

/-- An append that succeeds stored a log that ends with its step. -/
theorem eval_appendAttempts_stored (F : Format B E) (step : ThreadStep) (n : Nat) {s s' : Solo B E}
    (heval : (cl.self.appendAttempts cl.showEtag key threadId step n).eval (cl.handle F) s =
      (s', .ok ())) : ∃ log : ThreadLog,
    s'.kernel.objects.get key = some (F.render (log.push step).toValue) := by
  induction n generalizing s with
  | zero => cases heval
  | succ n ih =>
    cases hattempt : (cl.self.appendStepLocked cl.showEtag key threadId step).eval (cl.handle F) s with
    | mk m r =>
      rw [eval_appendAttempts_succ cl F step n hattempt] at heval
      cases r with
      | error e =>
        cases e with
        | auditConflict msg => exact ih heval
        | _ => cases heval
      | ok _ =>
        cases heval
        rw [ThreadStore.appendStepLocked] at hattempt
        cases hload : (cl.self.loadThreadLogForWrite key).eval (cl.handle F) s with
        | mk l loaded =>
          cases loaded with
          | error e =>
            rw [Program.eval_andThen_error hload] at hattempt
            cases hattempt
          | ok loaded =>
            rw [Program.eval_andThen_ok hload] at hattempt
            exact ⟨_, eval_commit_stored cl _ _ F hattempt⟩

/-- A step that a log can take and stay readable. -/
structure StepFits (step : ThreadStep) : Prop where
  parses : step.Parses
  depth : step.toValue.depth + 2 ≤ RECURSION_LIMIT

/-- How an append of such a step ends over legible logs. -/
structure PushEnd (F : Format B E) (key : String) (step : ThreadStep)
    (out : Solo B E × Except CoreError Unit) : Prop where
  legible : Legible F key out.1
  pushed : out.2 = .ok () → ∃ log : ThreadLog, log.Readable ∧
    out.1.kernel.objects.get key = some (F.render (log.push step).toValue)
  failed : ∀ e, out.2 = .error e → Outage e

omit [DecidableEq E] in
theorem Legible.pushEnd {step : ThreadStep} {s : Solo B E} (h : Legible F key s) {e : CoreError}
    (he : Outage e) : PushEnd F key step (s, .error e) where
  legible := h
  pushed hok := nomatch hok
  failed _ herror := Except.error.inj herror ▸ he

theorem eval_appendAttempts_legible (threadId : String) {step : ThreadStep}
    (hstep : StepFits step) (n : Nat) {s : Solo B E} (h : Legible F key s) : PushEnd F key step
      ((cl.self.appendAttempts cl.showEtag key threadId step n).eval (cl.handle F) s) := by
  induction n generalizing s with
  | zero => exact h.pushEnd trivial
  | succ n ih =>
    obtain ⟨l, loaded, hload, hl, hlog⟩ := eval_load_legible cl h
    have hpush := hlog.push hstep.parses hstep.depth
    have hcommit := eval_commit_legible cl ((ThreadStore.logOf loaded).push step)
      (ThreadStore.expectedEtagOf loaded) threadId hl hpush
    have hattempt : (cl.self.appendStepLocked cl.showEtag key threadId step).eval (cl.handle F) s =
        (cl.self.commitLog cl.showEtag threadId key ((ThreadStore.logOf loaded).push step)
          (ThreadStore.expectedEtagOf loaded)).eval (cl.handle F) l := by
      rw [ThreadStore.appendStepLocked, Program.eval_andThen_ok hload]
    cases hout : (cl.self.commitLog cl.showEtag threadId key ((ThreadStore.logOf loaded).push step)
        (ThreadStore.expectedEtagOf loaded)).eval (cl.handle F) l with
    | mk m r =>
      rw [hout] at hcommit hattempt
      rw [eval_appendAttempts_succ cl F.toFormat step n hattempt]
      obtain ⟨hm, herror⟩ := hcommit
      cases r with
      | ok _ =>
        refine ⟨hm, fun _ => ⟨_, hlog, eval_commit_stored cl _ _ F.toFormat hout⟩, fun e he => ?_⟩
        cases he
      | error e =>
        rcases herror e rfl with houtage | ⟨msg, rfl⟩
        · cases e with
          | auditConflict msg => exact houtage.elim
          | _ => exact hm.pushEnd houtage
        · apply ih
          apply hm.updateAt cl.store
          simp

theorem eval_appendStep_legible (hkey : cl.threadKey threadId = .ok key) {step : ThreadStep}
    (hstep : StepFits step) {s : Solo B E} (h : Legible F key s) : PushEnd F key step
      ((cl.self.appendStep cl.showEtag threadId step).eval (cl.handle F) s) := by
  rw [eval_appendStep cl hkey]
  have hend := eval_appendAttempts_legible cl threadId hstep
    (AUDIT_MAX_CONFLICT_RETRIES + 1) (h.setLock key true)
  exact ⟨hend.legible.setLock key false, hend.pushed, hend.failed⟩

theorem eval_appendStep_stored (hkey : cl.threadKey threadId = .ok key) {step : ThreadStep}
    {s s' : Solo B E} (heval : (cl.self.appendStep cl.showEtag threadId step).eval
      (cl.handle F) s = (s', .ok ())) : ∃ log : ThreadLog,
    s'.kernel.objects.get key = some (F.render (log.push step).toValue) := by
  cases hout : (cl.self.appendAttempts cl.showEtag key threadId step
      (AUDIT_MAX_CONFLICT_RETRIES + 1)).eval (cl.handle F) (s.setLock key true) with
  | mk m r =>
    rw [eval_appendStep cl hkey, hout] at heval
    cases heval
    have hstored := eval_appendAttempts_stored cl F.toFormat step _ hout
    exact hstored

/-- What a reader makes of the stored bytes. -/
def readStored (F : Format B E) (key threadId : String) (bytes : B) : Except CoreError ThreadLog :=
  match F.parseJson key bytes with
  | .error e => .error (.session ("get('" ++ threadId ++ "'): " ++ e.display))
  | .ok v => (ThreadStore.parseThreadLog v).bind fun log =>
    (ThreadStore.ensureThreadLogSchema log).map fun _ => log

omit [DecidableEq E] in
theorem readStored_eq_ok {log log' : ThreadLog} :
    readStored F.toFormat key threadId (F.render log.toValue) = .ok log' ↔
      log.toValue.depth ≤ RECURSION_LIMIT ∧
      ThreadLog.fromValue (log.mapJson (Json.readBack F.readFloat)).toValue = .ok log' ∧
      log'.schemaVersion = THREAD_SCHEMA_VERSION := by
  rw [← ThreadLog.readBack_toValue, ← F.readBack_eq]
  constructor
  · intro h
    unfold readStored at h
    cases hjson : F.parseJson key (F.render log.toValue) with
    | error e =>
      rw [hjson] at h
      cases h
    | ok v =>
      have hparsed := F.parseJson_eq_ok.mp hjson
      obtain rfl := F.of_parse_render hparsed
      simp only [hjson] at h
      cases hparse : ThreadStore.parseThreadLog (F.readBack log.toValue) with
      | error e =>
        rw [hparse] at h
        cases h
      | ok read =>
        rw [hparse] at h
        have hfrom : ThreadLog.fromValue (F.readBack log.toValue) = .ok read := by
          unfold ThreadStore.parseThreadLog at hparse
          cases hf : ThreadLog.fromValue (F.readBack log.toValue) <;> simp_all [Except.mapError]
        simp only [Except.bind, ThreadStore.ensureThreadLogSchema] at h
        split_ifs at h with hschema
        · cases h
        · cases h
          exact ⟨F.depth_of_parse_render hparsed, hfrom, not_not.mp hschema⟩
  · rintro ⟨hdepth, hfrom, hschema⟩
    have hjson : F.parseJson key (F.render log.toValue) = .ok (F.readBack log.toValue) :=
      F.parseJson_eq_ok.mpr (F.parse_render _ hdepth)
    simp only [readStored, hjson, ThreadStore.parseThreadLog, hfrom, Except.mapError, Except.bind,
      ensureThreadLogSchema_ok hschema, Except.map]

/-- A reader that has cached nothing reads what is stored. -/
theorem eval_get_uncached (hkey : cl.threadKey threadId = .ok key) {bytes : B} {s : Solo B E}
    (hobject : s.kernel.objects.get key = some bytes) (hcache : s.kernel.logs cl.store key = none) :
    ((cl.self.get threadId).eval (cl.handle F) s).2 = readStored F.toFormat key threadId bytes := by
  have hhead := eval_retryHead cl F.toFormat key s
  have hlookup : (cl.self.lookupLog key (F.headOf s.kernel.objects key)).eval (cl.handle F) s =
      (s, none) := by
    rw [eval_lookupLog, hcache]
    cases F.headOf s.kernel.objects key <;> rfl
  have hget := eval_retryGet cl F.toFormat hobject
  simp only [ThreadStore.get, cl.key_self hkey, ThreadStore.over_storage,
    Program.eval_andThen_ok hhead, Program.bind_eq, Program.eval_bind_of hlookup,
    Program.eval_bind_of hget, readStored]
  cases F.parseJson key bytes with
  | error e => rfl
  | ok v =>
    simp only
    cases ThreadStore.parseThreadLog v with
    | error e => rfl
    | ok read =>
      simp only [Except.bind]
      cases ThreadStore.ensureThreadLogSchema read with
      | error e => rfl
      | ok _ => cases F.headOf s.kernel.objects key <;> rfl

/-- A `get` over legible logs fails only if there is no log. -/
theorem eval_get_legible (hkey : cl.threadKey threadId = .ok key) {s : Solo B E}
    (h : Legible F key s) {e : CoreError}
    (heval : ((cl.self.get threadId).eval (cl.handle F) s).2 = .error e) :
    s.kernel.objects.get key = none := by
  by_contra hsome
  obtain ⟨bytes, hobject⟩ := Option.ne_none_iff_exists'.mp hsome
  obtain ⟨log, hlog, rfl⟩ := h.stored bytes hobject
  have hhead := eval_retryHead cl F.toFormat key s
  have htag : F.headOf s.kernel.objects key = some (F.tag log.toValue) := by
    rw [Format.headOf, hobject]
    rfl
  rw [htag] at hhead
  have hlookup : (cl.self.lookupLog key (some (F.tag log.toValue))).eval (cl.handle F) s =
      (s, (s.kernel.logs cl.store key).filter fun entry => entry.etag = F.tag log.toValue) :=
    eval_lookupLog cl _ s
  simp only [ThreadStore.get, cl.key_self hkey, ThreadStore.over_storage,
    Program.eval_andThen_ok hhead, Program.bind_eq, Program.eval_bind_of hlookup] at heval
  cases hfound : (s.kernel.logs cl.store key).filter
      fun entry => entry.etag = F.tag log.toValue with
  | some entry =>
    rw [hfound] at heval
    cases heval
  | none =>
    obtain ⟨log', hlog', v, hget, hparse⟩ := eval_get_stored cl hlog hobject
    simp only [hfound, Program.eval_bind_of hget, hparse, ensureThreadLogSchema_ok hlog'.schema]
      at heval
    cases heval

end ReactRuntime.Session
