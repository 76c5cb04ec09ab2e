import ReactRuntime.Session.Kernel
import ReactRuntime.Session.Readable

/-!
# One client at a time

The calls of a thread store run one after the other, each to its end, over a
backend whose conditional puts may fail with a retryable error before or after
they are applied. The retry of an applied put meets its own write: the etag no
longer matches, and the answer is a conflict.
-/
namespace ReactRuntime.Session
open Library Serde ReactRuntime.Core Storage

/-- The errors that ask for a retry. -/
abbrev RetryableError := { e : StorageError // e.retry = true }

/-- How the backend treats one conditional put. -/
inductive Fault where
  | answer
  | drop (e : RetryableError)
  | lose (e : RetryableError)

variable {B E : Type}

/-- The kernel, and the number of conditional puts made so far. -/
structure Solo (B E : Type) where
  kernel : Kernel B E
  puts : Nat

namespace Solo
variable [DecidableEq E] (F : Format B E) (faults : Nat → Fault) (store : Nat)

/-- All calls come from one process; each store has its own cache. -/
def site : Site := ⟨0, store⟩

def handle : (c : KernelCall B E) → Solo B E → Solo B E × c.Answer
  | .storage (.putJsonIfEtagMatches key value expected), s =>
    let r := s.kernel.perform F (site store) (.storage (.putJsonIfEtagMatches key value expected))
    match faults s.puts with
    | .answer => (⟨r.1, s.puts + 1⟩, r.2)
    | .drop e => (⟨s.kernel, s.puts + 1⟩, .error (.storage e.1))
    | .lose e => (⟨r.1, s.puts + 1⟩, .error (.storage e.1))
  | c, s => (⟨(s.kernel.perform F (site store) c).1, s.puts⟩, (s.kernel.perform F (site store) c).2)

/-- Take or release the write lock of a key. -/
def setLock (s : Solo B E) (key : String) (held : Bool) : Solo B E :=
  ⟨{ s.kernel with locked := updateAt s.kernel.locked 0 key held }, s.puts⟩

end Solo

/-- A client: the faults it will meet, the store it uses, its keyspace, and how etags are shown in
its errors. -/
structure Client (E : Type) where
  faults : Nat → Fault
  store : Nat
  threadKey : String → Except String String
  showEtag : Option E → String

namespace Client
variable (cl : Client E)

abbrev handle [DecidableEq E] (F : Format B E) :
    (c : KernelCall B E) → Solo B E → Solo B E × c.Answer :=
  Solo.handle F cl.faults cl.store

abbrev self : ThreadStore (KernelCall B E) KernelCall.Answer B E :=
  ThreadStore.over backend cl.threadKey

theorem key_self {threadId key : String} (hkey : cl.threadKey threadId = .ok key) :
    (cl.self (B := B)).key threadId = .ok key := by
  simp only [ThreadStore.key, ThreadStore.over, self, hkey, Except.mapError]

end Client

/-- The same client with another store. -/
def Client.at (cl : Client E) (store : Nat) : Client E := { cl with store }

/-- How one call with retry ends: the number of the next put, if there is an answer. -/
inductive Attempt where
  | written (next : Nat)
  | conflict (next : Nat)
  | gaveUp

/-- One put with `retries` retries, from the put number `n` on. The first put that is answered is
written if none before it was applied, and meets its own write otherwise. -/
def attempt (faults : Nat → Fault) : (retries n : Nat) → (applied : Bool) → Attempt
  | retries, n, applied => match faults n, retries with
    | .answer, _ => if applied then .conflict (n + 1) else .written (n + 1)
    | .drop _, 0 | .lose _, 0 => .gaveUp
    | .drop _, retries + 1 => attempt faults retries (n + 1) applied
    | .lose _, retries + 1 => attempt faults retries (n + 1) true

section Put
variable [DecidableEq E] {F : Format B E} (cl : Client E) {key : String} {v : Json}
  {expected : Option E}

/-- What the object, the caches and the counter are after a put with retry. -/
structure PutEnd (F : Format B E) (key : String) (v : Json) (s : Solo B E) (result : Attempt)
    (out : Solo B E × Except CoreError (ConditionalWriteStatus E)) : Prop where
  logs : out.1.kernel.logs = s.kernel.logs
  written : ∀ next, result = .written next → out.2 = .ok (.written (F.tag v)) ∧
    out.1.kernel.objects.get key = some (F.render v) ∧ out.1.puts = next
  conflict : ∀ next, result = .conflict next → (∃ current, out.2 = .ok (.conflict current)) ∧
    out.1.kernel.objects.get key = some (F.render v) ∧ out.1.puts = next
  gaveUp : result = .gaveUp → ∃ e, out.2 = .error (.storage e) ∧ e.retry = true ∧
    (out.1.kernel.objects.get key = s.kernel.objects.get key ∨
      out.1.kernel.objects.get key = some (F.render v))

/-- The object before a put: still under the expected etag, or already replaced by it. -/
def PutReady (F : Format B E) (key : String) (v : Json) (expected : Option E) (applied : Bool)
    (s : Solo B E) : Prop :=
  if applied then s.kernel.objects.get key = some (F.render v)
  else F.headOf s.kernel.objects key = expected

/-- The backend applies a put exactly once. -/
theorem perform_put {s : Solo B E} {applied : Bool} (hfresh : expected ≠ some (F.tag v))
    (h : PutReady F key v expected applied s) :
    (s.kernel.perform F (Solo.site cl.store) (.storage (.putJsonIfEtagMatches key v expected))).1.logs =
      s.kernel.logs ∧
    (s.kernel.perform F (Solo.site cl.store)
      (.storage (.putJsonIfEtagMatches key v expected))).1.objects.get key = some (F.render v) ∧
    (s.kernel.perform F (Solo.site cl.store) (.storage (.putJsonIfEtagMatches key v expected))).2 =
      if applied then .ok (.conflict (some (F.tag v))) else .ok (.written (F.tag v)) := by
  cases applied with
  | false =>
    have hmatch : F.headOf s.kernel.objects key = expected := h
    simp [Kernel.perform, Format.serve, hmatch]
  | true =>
    have hget : s.kernel.objects.get key = some (F.render v) := h
    have hhead : F.headOf s.kernel.objects key = some (F.tag v) := by
      rw [Format.headOf, hget]
      rfl
    have hne : ¬ some (F.tag v) = expected := fun he => hfresh he.symm
    simp [Kernel.perform, Format.serve, hhead, hne, hget]

theorem eval_put (F : Format B E) (key : String) (v : Json) (expected : Option E) (s : Solo B E) :
    (KernelCall.storage (.putJsonIfEtagMatches key v expected)).issue.eval (cl.handle F) s =
      match cl.faults s.puts with
      | .answer => (⟨(s.kernel.perform F (Solo.site cl.store)
          (.storage (.putJsonIfEtagMatches key v expected))).1, s.puts + 1⟩,
          (s.kernel.perform F (Solo.site cl.store) (.storage (.putJsonIfEtagMatches key v expected))).2)
      | .drop e => (⟨s.kernel, s.puts + 1⟩, .error (.storage e.1))
      | .lose e => (⟨(s.kernel.perform F (Solo.site cl.store)
          (.storage (.putJsonIfEtagMatches key v expected))).1, s.puts + 1⟩,
          .error (.storage e.1)) := by
  simp only [KernelCall.issue, Program.eval_perform, Solo.handle]

omit [DecidableEq E] in
theorem PutEnd.of_logs {s s' : Solo B E} {result : Attempt}
    {out : Solo B E × Except CoreError (ConditionalWriteStatus E)}
    (h : PutEnd F key v s' result out) (hlogs : s'.kernel.logs = s.kernel.logs)
    (hobject : s'.kernel.objects.get key = s.kernel.objects.get key ∨
      s'.kernel.objects.get key = some (F.render v)) : PutEnd F key v s result out := by
  refine ⟨h.logs.trans hlogs, h.written, h.conflict, fun hresult => ?_⟩
  obtain ⟨e, he, hretry, hout⟩ := h.gaveUp hresult
  refine ⟨e, he, hretry, ?_⟩
  rcases hout with hout | hout
  · rwa [hout]
  · exact Or.inr hout

theorem attempt_answer {faults : Nat → Fault} {n : Nat} (hf : faults n = .answer) (retries : Nat)
    (applied : Bool) :
    attempt faults retries n applied = if applied then .conflict (n + 1) else .written (n + 1) := by
  cases retries <;> simp [attempt, hf]

theorem attempt_drop {faults : Nat → Fault} {n : Nat} {e : RetryableError}
    (hf : faults n = .drop e) (retries : Nat) (applied : Bool) : attempt faults (retries + 1) n applied =
      attempt faults retries (n + 1) applied := by
  conv_lhs => unfold attempt
  rw [hf]

theorem attempt_lose {faults : Nat → Fault} {n : Nat} {e : RetryableError}
    (hf : faults n = .lose e) (retries : Nat) (applied : Bool) : attempt faults (retries + 1) n applied =
      attempt faults retries (n + 1) true := by
  conv_lhs => unfold attempt
  rw [hf]

omit [DecidableEq E] in
theorem putEnd_gaveUp {s : Solo B E} {out : Solo B E} {e : RetryableError} {result : Attempt}
    (hresult : result = .gaveUp) (hlogs : out.kernel.logs = s.kernel.logs)
    (hobject : out.kernel.objects.get key = s.kernel.objects.get key ∨
      out.kernel.objects.get key = some (F.render v)) :
    PutEnd F key v s result (out, .error (.storage e.1)) := by
  subst hresult
  exact ⟨hlogs, fun _ hn => (nomatch hn), fun _ hn => (nomatch hn),
    fun _ => ⟨e.1, rfl, e.2, hobject⟩⟩

/-- The put that is answered. -/
theorem putEnd_answer (hfresh : expected ≠ some (F.tag v)) (delays : List Nat) {s : Solo B E}
    {applied : Bool} (h : PutReady F key v expected applied s) (hf : cl.faults s.puts = .answer) :
    PutEnd F key v s (attempt cl.faults delays.length s.puts applied)
      ((retryClassified delays (KernelCall.storage (.putJsonIfEtagMatches key v expected)).issue).eval
        (cl.handle F) s) := by
  obtain ⟨hlogs, hget, hanswer⟩ := perform_put cl hfresh h
  have hop := eval_put cl F key v expected s
  rw [hf, hanswer] at hop
  rw [eval_retryClassified_of_final hop (by split_ifs <;> simp), attempt_answer hf]
  cases applied with
  | false =>
    refine ⟨hlogs, fun next hn => ?_, fun next hn => (nomatch hn), fun hn => (nomatch hn)⟩
    cases hn
    exact ⟨rfl, hget, rfl⟩
  | true =>
    refine ⟨hlogs, fun next hn => (nomatch hn), fun next hn => ?_, fun hn => (nomatch hn)⟩
    cases hn
    exact ⟨⟨_, rfl⟩, hget, rfl⟩

/-- The induction follows the delays; the flag says whether the put was applied by then. -/
theorem eval_putRounds (hfresh : expected ≠ some (F.tag v)) (delays : List Nat) (s : Solo B E)
    (applied : Bool) (h : PutReady F key v expected applied s) :
    PutEnd F key v s (attempt cl.faults delays.length s.puts applied)
      ((retryClassified delays (KernelCall.storage (.putJsonIfEtagMatches key v expected)).issue).eval
        (cl.handle F) s) := by
  induction delays generalizing s applied with
  | nil =>
    have hop := eval_put cl F key v expected s
    obtain ⟨hlogs, hget, -⟩ := perform_put cl hfresh h
    cases hf : cl.faults s.puts with
    | answer => exact putEnd_answer cl hfresh [] h hf
    | drop e =>
      rw [hf] at hop
      rw [eval_retryClassified_nil, hop]
      exact putEnd_gaveUp (by simp [attempt, hf]) rfl (Or.inl rfl)
    | lose e =>
      rw [hf] at hop
      rw [eval_retryClassified_nil, hop]
      exact putEnd_gaveUp (by simp [attempt, hf]) hlogs (Or.inr hget)
  | cons d delays ih =>
    have hop := eval_put cl F key v expected s
    obtain ⟨hlogs, hget, -⟩ := perform_put cl hfresh h
    cases hf : cl.faults s.puts with
    | answer => exact putEnd_answer cl hfresh (d :: delays) h hf
    | drop e =>
      rw [hf] at hop
      rw [eval_retryClassified_of_retry hop e.2, List.length_cons, attempt_drop hf]
      exact (ih ⟨s.kernel, s.puts + 1⟩ applied h).of_logs rfl (Or.inl rfl)
    | lose e =>
      rw [hf] at hop
      rw [eval_retryClassified_of_retry hop e.2, List.length_cons, attempt_lose hf]
      exact (ih ⟨_, s.puts + 1⟩ true hget).of_logs hlogs (Or.inr hget)

theorem eval_retryPut (hfresh : expected ≠ some (F.tag v)) {s : Solo B E}
    (h : F.headOf s.kernel.objects key = expected) :
    PutEnd F key v s (attempt cl.faults SAFE_STORAGE_RETRY_DELAYS_MS.length s.puts false)
      ((retryPutJsonIfEtagMatches backend key v expected).eval (cl.handle F) s) :=
  eval_putRounds cl hfresh SAFE_STORAGE_RETRY_DELAYS_MS s false h

end Put

section Store
variable [DecidableEq E] {F : ExactFormat B E} {key : String}
  (cl : Client E)

/-- The object holds the log, if there is one, and every cache pairs a log with its own etag. -/
structure Settled (F : Format B E) (key : String) (c : Option ThreadLog) (s : Solo B E) : Prop where
  object : s.kernel.objects.get key = c.map fun log => F.render log.toValue
  caches : ∀ owner entry, s.kernel.logs owner key = some entry →
    entry.etag = F.tag entry.log.toValue ∧ entry.log.schemaVersion = THREAD_SCHEMA_VERSION

/-- Errors that end an append. -/
def Fatal (e : CoreError) : Prop := ∀ msg, e ≠ .auditConflict msg

omit [DecidableEq E] in
theorem Settled.head_eq {c : Option ThreadLog} {s : Solo B E} (h : Settled F key c s) :
    F.headOf s.kernel.objects key = c.map fun log => F.tag log.toValue := by
  rw [Format.headOf, h.object, Option.map_map]
  rfl

omit [DecidableEq E] in
theorem Settled.insert {c : Option ThreadLog} {s : Solo B E} (h : Settled F key c s)
    {log : ThreadLog} (hschema : log.schemaVersion = THREAD_SCHEMA_VERSION) (owner : Nat) :
    ∀ o entry, updateAt s.kernel.logs owner key (some ⟨log, F.tag log.toValue⟩) o key = some entry →
      entry.etag = F.tag entry.log.toValue ∧ entry.log.schemaVersion = THREAD_SCHEMA_VERSION := by
  apply forall_updateAt h.caches
  intro entry hentry
  cases hentry
  exact ⟨rfl, hschema⟩

theorem eval_retryHead (F : Format B E) (key : String) (s : Solo B E) :
    (retryHeadEtag backend key).eval (cl.handle F) s =
      (s, .ok (F.headOf s.kernel.objects key)) := by
  apply eval_retryClassified_of_final
  · rfl
  · intro e he
    cases he

theorem eval_retryGet (F : Format B E) {s : Solo B E} {bytes : B}
    (h : s.kernel.objects.get key = some bytes) :
    (retryGetJson backend key).eval (cl.handle F) s =
      (s, F.parseJson key bytes) := by
  apply eval_retryClassified_of_final
  · simp [backend, KernelCall.issue, Solo.handle, Kernel.perform, Format.serve, h]
  · intro e he
    rw [Format.parseJson] at he
    cases hp : F.parse bytes with
    | ok v =>
      rw [hp] at he
      cases he
    | error msg =>
      rw [hp] at he
      cases he
      rfl

omit [DecidableEq E] in
theorem parseJson_readable {log : ThreadLog} (h : log.Readable) :
    F.parseJson key (F.render log.toValue) = .ok log.toValue :=
  F.parseJson_eq_ok.mpr (F.parse_rendered h.depth)

theorem parseThreadLog_readable {log : ThreadLog} (h : log.Readable) : ∃ log',
    ThreadStore.parseThreadLog log.toValue = .ok log' ∧ ThreadLog.Alike log' log := by
  obtain ⟨log', hlog'⟩ := ThreadLog.fromValue_isOk.mpr h.steps
  refine ⟨log', ?_, ThreadLog.alike_iff.mp (ThreadLog.toValue_of_fromValue hlog')⟩
  rw [ThreadStore.parseThreadLog, hlog']
  rfl

theorem ensureThreadLogSchema_ok {log : ThreadLog}
    (h : log.schemaVersion = THREAD_SCHEMA_VERSION) :
    ThreadStore.ensureThreadLogSchema log = .ok () := by
  rw [ThreadStore.ensureThreadLogSchema, if_neg (not_not.mpr h)]

theorem eval_lookupLog {F : Format B E} (x : Option E) (s : Solo B E) :
    (cl.self.lookupLog key x).eval (cl.handle F) s =
      (s, x.bind fun e => (s.kernel.logs cl.store key).filter fun entry => entry.etag = e) := by
  cases x <;> rfl

/-- A store can load the stored log: from its cache, or by reading it. -/
def Loadable (store : Nat) (key : String) (s : Solo B E) (log : ThreadLog) : Prop :=
  log.Readable ∨ ∃ entry, s.kernel.logs store key = some entry ∧ entry.log.toValue = log.toValue

omit [DecidableEq E] in
theorem Loadable.schema {store : Nat} {c : Option ThreadLog} {log : ThreadLog} {s : Solo B E}
    (hl : Loadable store key s log) (h : Settled F key c s) :
    log.schemaVersion = THREAD_SCHEMA_VERSION := by
  rcases hl with hread | ⟨entry, hentry, hvalue⟩
  · exact hread.schema
  · exact (ThreadLog.alike_iff.mp hvalue).schemaVersion.symm.trans (h.caches store entry hentry).2

section Lookup
variable {store : Nat} {log : ThreadLog} {s : Solo B E}
  (hcaches : ∀ entry, s.kernel.logs store key = some entry → entry.etag = F.tag entry.log.toValue)
include hcaches

/-- What a lookup by the tag of a log finds. -/
theorem alike_of_lookup (htag : Function.Injective F.tag) {entry : LogCacheEntry E}
    (hfound : ((s.kernel.logs store key).filter fun entry => entry.etag = F.tag log.toValue) =
      some entry) : s.kernel.logs store key = some entry ∧ ThreadLog.Alike entry.log log := by
  obtain ⟨hentry, he⟩ := Option.filter_eq_some_iff.mp hfound
  have htags := (hcaches entry hentry).symm.trans (of_decide_eq_true he)
  exact ⟨hentry, ThreadLog.alike_iff.mp (htag htags)⟩

theorem cold_of_lookup
    (hfound : ((s.kernel.logs store key).filter fun entry => entry.etag = F.tag log.toValue) = none)
    (entry : LogCacheEntry E) (hentry : s.kernel.logs store key = some entry) :
    entry.log.toValue ≠ log.toValue := by
  intro hvalue
  have hetag := hcaches entry hentry
  rw [hvalue] at hetag
  rw [hentry, Option.filter_some, if_pos (decide_eq_true hetag)] at hfound
  cases hfound

end Lookup

omit [DecidableEq E] in
theorem Loadable.readable_of_cold {store : Nat} {s : Solo B E} {log : ThreadLog}
    (hl : Loadable store key s log) (hcold : ∀ entry, s.kernel.logs store key = some entry →
      entry.log.toValue ≠ log.toValue) : log.Readable := by
  rcases hl with hread | ⟨entry, hentry, hvalue⟩
  · exact hread
  · exact absurd hvalue (hcold entry hentry)

/-- The log that a writer gets reads the stored one. -/
theorem eval_fetchLog (htag : Function.Injective F.tag) {log : ThreadLog} {s : Solo B E}
    (h : Settled F key (some log) s) (hl : Loadable cl.store key s log) : ∃ s' log',
    (cl.self.fetchLog key (F.tag log.toValue)).eval (cl.handle F) s = (s', .ok log') ∧
    Settled F key (some log) s' ∧ s'.puts = s.puts ∧ ThreadLog.Alike log' log := by
  have hcaches := fun entry hentry => (h.caches cl.store entry hentry).1
  simp only [ThreadStore.fetchLog, Program.bind_eq, Program.eval_bind, eval_lookupLog,
    Option.bind_some]
  cases hfound : (s.kernel.logs cl.store key).filter fun entry => entry.etag = F.tag log.toValue with
  | some entry =>
    exact ⟨s, entry.log, rfl, h, rfl, (alike_of_lookup hcaches htag hfound).2⟩
  | none =>
    have hread := hl.readable_of_cold (cold_of_lookup hcaches hfound)
    obtain ⟨log', hlog', halike⟩ := parseThreadLog_readable hread
    have hsame : F.tag log'.toValue = F.tag log.toValue := by
      rw [ThreadLog.alike_iff.mpr halike]
    refine ⟨⟨{ s.kernel with
        logs := updateAt s.kernel.logs cl.store key (some ⟨log', F.tag log'.toValue⟩) }, s.puts⟩, log',
      ?_, ⟨h.object, ?_⟩, rfl, halike⟩
    · have hget := eval_retryGet cl F h.object
      rw [parseJson_readable hread] at hget
      simp only [ThreadStore.over_storage, Program.eval_andThen_ok hget, hlog', ← hsame]
      rfl
    · exact h.insert (halike.schemaVersion.trans hread.schema) cl.store

/-- What a load returns for a log that can be loaded, or for none. -/
theorem eval_loadThreadLogForWrite (htag : Function.Injective F.tag) {c : Option ThreadLog}
    {s : Solo B E} (h : Settled F key c s) (hl : ∀ log, c = some log → Loadable cl.store key s log) :
    ∃ s' loaded, (cl.self.loadThreadLogForWrite key).eval (cl.handle F) s = (s', .ok loaded) ∧
    Settled F key c s' ∧ s'.puts = s.puts ∧
    ThreadStore.expectedEtagOf loaded = (c.map fun log => F.tag log.toValue) ∧
    ThreadLog.Alike (ThreadStore.logOf loaded) (c.getD ThreadLog.default) := by
  have hhead := eval_retryHead cl F key s
  rw [h.head_eq] at hhead
  rw [ThreadStore.loadThreadLogForWrite, ThreadStore.over_storage, Program.eval_andThen_ok hhead]
  cases c with
  | none => exact ⟨s, .missing, rfl, h, rfl, rfl, ⟨rfl, rfl, rfl, rfl, rfl⟩⟩
  | some log =>
    obtain ⟨s', log', hfetch, hs', hputs, halike⟩ :=
      eval_fetchLog cl htag h (hl log rfl)
    have hschema := ensureThreadLogSchema_ok (halike.schemaVersion.trans ((hl log rfl).schema h))
    refine ⟨s', .loaded ⟨some (F.tag log.toValue), log'⟩, ?_, hs', hputs, rfl, halike⟩
    simp only [Option.map_some, Program.eval_andThen_ok hfetch, hschema]
    rfl

/-- How an attempt to append ends, by the pattern of failures of its put. -/
def AppendEnd (F : Format B E) (store : Nat) (key : String) (c : Option ThreadLog)
    (log : ThreadLog) (result : Attempt) (out : Solo B E × Except CoreError Unit) : Prop :=
  match result with
  | .written next => out.2 = .ok () ∧ Settled F key (some log) out.1 ∧ out.1.puts = next ∧
    Loadable store key out.1 log
  | .conflict next => (∃ msg, out.2 = .error (.auditConflict msg)) ∧
    Settled F key (some log) out.1 ∧ out.1.puts = next
  | .gaveUp => ∃ e, out.2 = .error (.storage e) ∧ e.retry = true ∧
    (Settled F key c out.1 ∨ Settled F key (some log) out.1)

omit [DecidableEq E] in
/-- Only the document of the log counts. -/
theorem AppendEnd.of_alike {store : Nat} {c : Option ThreadLog} {log log' : ThreadLog}
    (h : ThreadLog.Alike log log') {result : Attempt} {out : Solo B E × Except CoreError Unit}
    (hout : AppendEnd F store key c log result out) : AppendEnd F store key c log' result out := by
  have hsettled : ∀ s : Solo B E, Settled F key (some log) s → Settled F key (some log') s :=
    fun s hs => ⟨by rw [hs.object, Option.map_some, Option.map_some, ThreadLog.alike_iff.mpr h],
      hs.caches⟩
  cases result with
  | written next =>
    obtain ⟨hok, hs, hputs, hl⟩ := hout
    refine ⟨hok, hsettled _ hs, hputs, hl.imp h.readable ?_⟩
    rintro ⟨entry, hentry, hvalue⟩
    exact ⟨entry, hentry, hvalue.trans (ThreadLog.alike_iff.mpr h)⟩
  | conflict next => exact ⟨hout.1, hsettled _ hout.2.1, hout.2.2⟩
  | gaveUp =>
    obtain ⟨e, he, hretry, hs⟩ := hout
    exact ⟨e, he, hretry, hs.imp_right (hsettled _)⟩

section Commit
variable {log : ThreadLog} {expected : Option E} {s s' : Solo B E} (threadId : String)

/-- A log that is written is remembered. -/
theorem eval_commitLog_written {F : Format B E} {etag : E}
    (hout : (retryPutJsonIfEtagMatches backend key log.toValue expected).eval (cl.handle F) s =
      (s', .ok (.written etag))) :
    (cl.self.commitLog cl.showEtag threadId key log expected).eval (cl.handle F) s =
      (⟨{ s'.kernel with logs := updateAt s'.kernel.logs cl.store key (some ⟨log, etag⟩) },
        s'.puts⟩, .ok ()) := by
  have hsave : (cl.self.saveThreadLogIfEtagMatches cl.showEtag threadId key log expected).eval
      (cl.handle F) s = (s', .ok etag) := by
    rw [ThreadStore.saveThreadLogIfEtagMatches, ThreadStore.over_storage,
      Program.eval_andThen_ok hout]
    rfl
  rw [ThreadStore.commitLog, Program.eval_andThen_ok hsave]
  rfl

theorem eval_commitLog_conflict {F : Format B E} {current : Option E}
    (hout : (retryPutJsonIfEtagMatches backend key log.toValue expected).eval (cl.handle F) s =
      (s', .ok (.conflict current))) :
    (cl.self.commitLog cl.showEtag threadId key log expected).eval (cl.handle F) s =
      (s', .error (.auditConflict
        (ThreadStore.conflictMessage cl.showEtag threadId expected current))) := by
  have hsave : (cl.self.saveThreadLogIfEtagMatches cl.showEtag threadId key log expected).eval
      (cl.handle F) s = (s', .error (.auditConflict
        (ThreadStore.conflictMessage cl.showEtag threadId expected current))) := by
    rw [ThreadStore.saveThreadLogIfEtagMatches, ThreadStore.over_storage,
      Program.eval_andThen_ok hout]
    rfl
  rw [ThreadStore.commitLog, Program.eval_andThen_error hsave]

theorem eval_commitLog_error {F : Format B E} {e : CoreError}
    (hout : (retryPutJsonIfEtagMatches backend key log.toValue expected).eval (cl.handle F) s =
      (s', .error e)) :
    (cl.self.commitLog cl.showEtag threadId key log expected).eval (cl.handle F) s =
      (s', .error e) := by
  have hsave : (cl.self.saveThreadLogIfEtagMatches cl.showEtag threadId key log expected).eval
      (cl.handle F) s = (s', .error e) := by
    rw [ThreadStore.saveThreadLogIfEtagMatches, ThreadStore.over_storage,
      Program.eval_andThen_error hout]
  rw [ThreadStore.commitLog, Program.eval_andThen_error hsave]

end Commit

theorem eval_commitLog {c : Option ThreadLog} {s : Solo B E} (h : Settled F key c s)
    (log : ThreadLog) (hschema : log.schemaVersion = THREAD_SCHEMA_VERSION)
    (hfresh : (c.map fun log => F.tag log.toValue) ≠ some (F.tag log.toValue)) (threadId : String) :
    AppendEnd F cl.store key c log (attempt cl.faults SAFE_STORAGE_RETRY_DELAYS_MS.length s.puts false)
      ((cl.self.commitLog cl.showEtag threadId key log
        (c.map fun log => F.tag log.toValue)).eval (cl.handle F) s) := by
  have hput := eval_retryPut cl hfresh h.head_eq
  cases hout : (retryPutJsonIfEtagMatches backend key log.toValue
      (c.map fun log => F.tag log.toValue)).eval (cl.handle F) s with
  | mk s' r =>
    rw [hout] at hput
    have hcaches : ∀ owner entry, s'.kernel.logs owner key = some entry →
        entry.etag = F.tag entry.log.toValue ∧ entry.log.schemaVersion = THREAD_SCHEMA_VERSION := by
      rw [hput.logs]
      exact h.caches
    cases hresult : attempt cl.faults SAFE_STORAGE_RETRY_DELAYS_MS.length s.puts false with
    | written next =>
      obtain ⟨rfl, hobject, hputs⟩ := hput.written next hresult
      have hs' : Settled F key (some log) s' := ⟨hobject, hcaches⟩
      rw [eval_commitLog_written cl threadId hout]
      refine ⟨rfl, ⟨hobject, hs'.insert hschema cl.store⟩, hputs,
        Or.inr ⟨⟨log, F.tag log.toValue⟩, ?_, rfl⟩⟩
      exact (updateAt_apply _ _ _ _ _ _).trans (if_pos ⟨rfl, rfl⟩)
    | conflict next =>
      obtain ⟨⟨current, rfl⟩, hobject, hputs⟩ := hput.conflict next hresult
      rw [eval_commitLog_conflict cl threadId hout]
      exact ⟨⟨_, rfl⟩, ⟨hobject, hcaches⟩, hputs⟩
    | gaveUp =>
      obtain ⟨e, rfl, hretry, hobject⟩ := hput.gaveUp hresult
      rw [eval_commitLog_error cl threadId hout]
      exact ⟨e, rfl, hretry, hobject.imp (fun hsame => ⟨hsame.trans h.object, hcaches⟩)
        fun hnew => ⟨hnew, hcaches⟩⟩

/-- An attempt over a log that can be loaded, or none, pushes the step unless it gives up. -/
theorem eval_appendStepLocked (htag : Function.Injective F.tag) {c : Option ThreadLog}
    {s : Solo B E} (h : Settled F key c s)
    (hl : ∀ log, c = some log → Loadable cl.store key s log) (threadId : String)
    (step : ThreadStep) :
    AppendEnd F cl.store key c ((c.getD ThreadLog.default).push step)
      (attempt cl.faults SAFE_STORAGE_RETRY_DELAYS_MS.length s.puts false)
      ((cl.self.appendStepLocked cl.showEtag key threadId step).eval (cl.handle F) s) := by
  obtain ⟨s', loaded, hload, hs', hputs, hexpected, halike⟩ :=
    eval_loadThreadLogForWrite cl htag h hl
  have hbase : (c.getD ThreadLog.default).schemaVersion = THREAD_SCHEMA_VERSION := by
    cases c with
    | none => rfl
    | some log => exact (hl log rfl).schema h
  have hpush := halike.push step
  have hvalue := ThreadLog.alike_iff.mpr hpush
  have hfresh : (c.map fun log => F.tag log.toValue) ≠
      some (F.tag ((ThreadStore.logOf loaded).push step).toValue) := by
    intro he
    obtain ⟨log, rfl, htags⟩ := Option.map_eq_some_iff.mp he
    rw [hvalue] at htags
    exact ThreadLog.not_alike_push step (ThreadLog.alike_iff.mp (htag htags))
  rw [ThreadStore.appendStepLocked, Program.eval_andThen_ok hload, hexpected, ← hputs]
  exact (eval_commitLog cl hs' ((ThreadStore.logOf loaded).push step)
    (halike.schemaVersion.trans hbase) hfresh threadId).of_alike hpush

/-! A log that cannot be read. -/

omit [DecidableEq E] in
theorem fatal_parseJson {bytes : B} {e : CoreError} (h : F.parseJson key bytes = .error e) :
    Fatal e := by
  rintro msg rfl
  unfold Format.parseJson at h
  cases hp : F.parse bytes <;> simp_all [Except.mapError]

theorem fatal_parseThreadLog {v : Json} {e : CoreError}
    (h : ThreadStore.parseThreadLog v = .error e) : Fatal e := by
  rintro msg rfl
  unfold ThreadStore.parseThreadLog at h
  cases hv : ThreadLog.fromValue v <;> simp_all [Except.mapError]

theorem fatal_schema {log : ThreadLog} {e : CoreError}
    (h : ThreadStore.ensureThreadLogSchema log = .error e) : Fatal e := by
  rintro msg rfl
  unfold ThreadStore.ensureThreadLogSchema at h
  split_ifs at h
  cases h

theorem eval_fetchLog_uncached {bytes : B} {s : Solo B E}
    (hobject : s.kernel.objects.get key = some bytes) (hcache : s.kernel.logs cl.store key = none)
    (etag : E) : ∃ s', (cl.self.fetchLog key etag).eval (cl.handle F) s =
      (s', (F.parseJson key bytes).bind ThreadStore.parseThreadLog) := by
  have hlookup : (cl.self.lookupLog key (some etag)).eval (cl.handle F) s = (s, none) := by
    rw [eval_lookupLog, Option.bind_some, hcache]
    rfl
  have hget := eval_retryGet cl F hobject
  simp only [ThreadStore.fetchLog, Program.bind_eq, Program.eval_bind_of hlookup,
    ThreadStore.over_storage]
  cases hjson : F.parseJson key bytes with
  | error e =>
    rw [hjson] at hget
    exact ⟨s, Program.eval_andThen_error hget⟩
  | ok v =>
    rw [hjson] at hget
    simp only [Program.eval_andThen_ok hget, Except.bind]
    cases ThreadStore.parseThreadLog v with
    | error e => exact ⟨s, rfl⟩
    | ok log => exact ⟨_, rfl⟩

omit [DecidableEq E] in
/-- A log that can be read through all three steps is readable. -/
theorem readable_of_parse {log log' : ThreadLog} {v : Json}
    (hjson : F.parseJson key (F.render log.toValue) = .ok v)
    (hparse : ThreadStore.parseThreadLog v = .ok log')
    (hschema : ThreadStore.ensureThreadLogSchema log' = .ok ()) : log.Readable := by
  have hv := F.of_parse_render (F.parseJson_eq_ok.mp hjson)
  subst hv
  have hfrom : ThreadLog.fromValue log.toValue = .ok log' := by
    unfold ThreadStore.parseThreadLog at hparse
    cases hf : ThreadLog.fromValue log.toValue <;> simp_all [Except.mapError]
  refine ⟨?_, ThreadLog.fromValue_isOk.mp ⟨log', hfrom⟩, ?_⟩
  · have halike := ThreadLog.alike_iff.mp (ThreadLog.toValue_of_fromValue hfrom)
    unfold ThreadStore.ensureThreadLogSchema at hschema
    split_ifs at hschema with hne
    exact halike.schemaVersion.symm.trans (not_not.mp hne)
  · by_contra hdeep
    obtain ⟨e, he⟩ := F.parse_render_deep log.toValue (not_le.mp hdeep)
    rw [F.parseJson_eq_ok, he] at hjson
    cases hjson

/-- The load of an unreadable log ends with an error that is not a conflict. -/
theorem eval_load_unreadable {log : ThreadLog} {s : Solo B E} (h : Settled F key (some log) s)
    (hcache : s.kernel.logs cl.store key = none) (hread : ¬ log.Readable) : ∃ s' e,
    (cl.self.loadThreadLogForWrite key).eval (cl.handle F) s = (s', .error e) ∧ Fatal e := by
  have hhead := eval_retryHead cl F key s
  rw [h.head_eq] at hhead
  obtain ⟨s', hfetch⟩ := eval_fetchLog_uncached cl h.object hcache
    (F.tag log.toValue)
  rw [ThreadStore.loadThreadLogForWrite, ThreadStore.over_storage, Program.eval_andThen_ok hhead]
  cases hjson : F.parseJson key (F.render log.toValue) with
  | error e =>
    rw [hjson] at hfetch
    exact ⟨s', e, Program.eval_andThen_error hfetch, fatal_parseJson hjson⟩
  | ok v =>
    cases hparse : ThreadStore.parseThreadLog v with
    | error e =>
      rw [hjson, Except.bind, hparse] at hfetch
      exact ⟨s', e, Program.eval_andThen_error hfetch, fatal_parseThreadLog hparse⟩
    | ok log' =>
      cases hschema : ThreadStore.ensureThreadLogSchema log' with
      | error e =>
        rw [hjson, Except.bind, hparse] at hfetch
        refine ⟨s', e, ?_, fatal_schema hschema⟩
        simp only [Option.map_some, Program.eval_andThen_ok hfetch, hschema]
        rfl
      | ok _ => exact absurd (readable_of_parse hjson hparse hschema) hread

theorem eval_appendStepLocked_unreadable {log : ThreadLog} {s : Solo B E}
    (h : Settled F key (some log) s) (hcache : s.kernel.logs cl.store key = none)
    (hread : ¬ log.Readable) (threadId : String) (step : ThreadStep) : ∃ s' e,
    (cl.self.appendStepLocked cl.showEtag key threadId step).eval (cl.handle F) s = (s', .error e) ∧
      Fatal e := by
  obtain ⟨s', e, hfail, he⟩ :=
    eval_load_unreadable cl h hcache hread
  rw [ThreadStore.appendStepLocked]
  exact ⟨s', e, Program.eval_andThen_error hfail, he⟩

theorem eval_withLock {F : Format B E} {α : Type}
    (body : Program (KernelCall B E) KernelCall.Answer (Except CoreError α)) (s : Solo B E) :
    (cl.self.withLock key body).eval (cl.handle F) s =
      ((body.eval (cl.handle F) (s.setLock key true)).1.setLock key false,
        (body.eval (cl.handle F) (s.setLock key true)).2) := by
  simp only [ThreadStore.withLock, Program.bind_eq, Program.eval_bind]
  rfl

end Store
end ReactRuntime.Session
