import ReactRuntime.Session.AmbiguousPut
import ReactRuntime.Session.Linearization

/-!
# What one call leaves behind

One client after the other calls a thread store, over any stored log, any caches
that pair a log with its own etag, and any pattern of failures of the conditional
puts. A writer that does not repeat either leaves the log alone or applies its
edit once, and it applies the edit exactly if it can load the log and one of its
puts reaches the storage.
-/
namespace ReactRuntime.Session
open Library Serde ReactRuntime.Core Storage

/-- Some put among `retries + 1` puts from the number `n` on reaches the storage. -/
def lands (faults : Nat → Fault) : (retries n : Nat) → Bool
  | retries, n => match faults n, retries with
    | .answer, _ | .lose _, _ => true
    | .drop _, 0 => false
    | .drop _, retries + 1 => lands faults retries (n + 1)

theorem lands_of_drop {faults : Nat → Fault} {n : Nat} {e : RetryableError}
    (hf : faults n = .drop e) (retries : Nat) :
    lands faults (retries + 1) n = lands faults retries (n + 1) := by
  conv_lhs => unfold lands
  rw [hf]

variable {B E : Type} [DecidableEq E] {F : ExactFormat B E} (cl : Client E) {key threadId : String}

namespace Client

/-- The storage answers every put. -/
def Answered : Prop := ∀ n, cl.faults n = .answer

/-- The retries of a put of this client, from the number `n` on, reach the storage. -/
def putLands (n : Nat) : Bool := lands cl.faults SAFE_STORAGE_RETRY_DELAYS_MS.length n

omit [DecidableEq E] in
theorem Answered.putLands {cl : Client E} (h : cl.Answered) (n : Nat) : cl.putLands n = true := by
  unfold Client.putLands lands
  rw [h n]

end Client

/-- A conditional put with retry leaves the object alone or writes the document, and reports that it
wrote only after it did. -/
structure PutLeft (F : Format B E) (key : String) (v : Json) (landed : Bool) (s : Solo B E)
    (out : Solo B E × Except CoreError (ConditionalWriteStatus E)) : Prop where
  logs : out.1.kernel.logs = s.kernel.logs
  object : out.1.kernel.objects.get key =
    if landed then some (F.render v) else s.kernel.objects.get key
  written : ∀ e, out.2 = .ok (.written e) → landed = true ∧ e = F.tag v

/-- The object before a put: under the expected etag, or written by an earlier round. -/
def PutOpen (F : Format B E) (key : String) (v : Json) (expected : Option E) (s : Solo B E) : Prop :=
  F.headOf s.kernel.objects key = expected ∨ s.kernel.objects.get key = some (F.render v)

/-- A put that reaches the storage leaves the document there, whether or not it is refused. -/
theorem perform_put_open {v : Json} {expected : Option E} {s : Solo B E}
    (h : PutOpen F key v expected s) :
    (s.kernel.perform F (Solo.site cl.store) (.storage (.putJsonIfEtagMatches key v expected))).1.logs =
      s.kernel.logs ∧
    (s.kernel.perform F (Solo.site cl.store)
      (.storage (.putJsonIfEtagMatches key v expected))).1.objects.get key = some (F.render v) ∧
    ∀ e, (s.kernel.perform F (Solo.site cl.store)
      (.storage (.putJsonIfEtagMatches key v expected))).2 = .ok (.written e) → e = F.tag v := by
  by_cases hmatch : F.headOf s.kernel.objects key = expected
  · simp [Kernel.perform, Format.serve, hmatch]
  · have hget := h.resolve_left hmatch
    simp [Kernel.perform, Format.serve, hmatch, hget]

/-- The induction follows the delays: a dropped put leaves the next round where it was. -/
theorem eval_putRounds_open {v : Json} {expected : Option E} (delays : List Nat) {s : Solo B E}
    (h : PutOpen F key v expected s) :
    PutLeft F key v (lands cl.faults delays.length s.puts) s
      ((retryClassified delays (KernelCall.storage (.putJsonIfEtagMatches key v expected)).issue).eval
        (cl.handle F) s) := by
  induction delays generalizing s with
  | nil =>
    have hop := eval_put cl F key v expected s
    obtain ⟨hlogs, hget, hwritten⟩ := perform_put_open cl h
    rw [eval_retryClassified_nil, hop]
    cases hf : cl.faults s.puts with
    | answer =>
      exact ⟨hlogs, by simp [lands, hf, hget], fun e he => ⟨by simp [lands, hf], hwritten e he⟩⟩
    | drop e => exact ⟨rfl, by simp [lands, hf], fun e he => by cases he⟩
    | lose e => exact ⟨hlogs, by simp [lands, hf, hget], fun e he => by cases he⟩
  | cons d delays ih =>
    have hop := eval_put cl F key v expected s
    obtain ⟨hlogs, hget, hwritten⟩ := perform_put_open cl h
    cases hf : cl.faults s.puts with
    | answer =>
      rw [hf] at hop
      have hfinal : ∀ e, (s.kernel.perform F (Solo.site cl.store)
          (.storage (.putJsonIfEtagMatches key v expected))).2 = .error e →
          Classify.retry e = false := by
        intro e he
        simp only [Kernel.perform, Format.serve] at he
        split_ifs at he
      rw [eval_retryClassified_of_final hop hfinal]
      exact ⟨hlogs, by simp [lands, hf, hget], fun e he => ⟨by simp [lands, hf], hwritten e he⟩⟩
    | drop e =>
      rw [hf] at hop
      rw [eval_retryClassified_of_retry hop e.2, List.length_cons, lands_of_drop hf]
      have hrest := ih (s := ⟨s.kernel, s.puts + 1⟩) h
      exact ⟨hrest.logs, hrest.object, hrest.written⟩
    | lose e =>
      rw [hf] at hop
      rw [eval_retryClassified_of_retry hop e.2]
      have hrest := ih (s := ⟨_, s.puts + 1⟩) (Or.inr hget)
      have hobject := hrest.object
      rw [hget, ite_self] at hobject
      have hlands : lands cl.faults (d :: delays).length s.puts = true := by simp [lands, hf]
      rw [hlands]
      exact ⟨hrest.logs.trans hlogs, hobject, fun e he => ⟨rfl, (hrest.written e he).2⟩⟩

theorem eval_retryPut_open {v : Json} {expected : Option E} {s : Solo B E}
    (h : F.headOf s.kernel.objects key = expected) :
    PutLeft F key v (cl.putLands s.puts) s
      ((retryPutJsonIfEtagMatches backend key v expected).eval (cl.handle F) s) :=
  eval_putRounds_open cl SAFE_STORAGE_RETRY_DELAYS_MS (Or.inl h)

/-- A put under the current etag is written when it is answered. -/
theorem eval_retryPut_answered (hf : cl.Answered) {v : Json} {expected : Option E} {s : Solo B E}
    (h : F.headOf s.kernel.objects key = expected) :
    ((retryPutJsonIfEtagMatches backend key v expected).eval (cl.handle F) s).2 =
      .ok (.written (F.tag v)) := by
  have hop := eval_put cl F key v expected s
  rw [hf s.puts] at hop
  have hwritten : (s.kernel.perform F (Solo.site cl.store)
      (.storage (.putJsonIfEtagMatches key v expected))).2 = .ok (.written (F.tag v)) := by
    simp [Kernel.perform, Format.serve, h]
  rw [hwritten] at hop
  exact congrArg Prod.snd
    (eval_retryClassified_of_final hop (fun e he => by cases he) SAFE_STORAGE_RETRY_DELAYS_MS)

/-- The object holds the log, if there is one, and every cache pairs a log with its own etag. -/
structure Holds (F : Format B E) (key : String) (c : Option ThreadLog) (s : Solo B E) : Prop where
  object : s.kernel.objects.get key = c.map fun log => F.render log.toValue
  caches : ∀ owner entry, s.kernel.logs owner key = some entry →
    entry.etag = F.tag entry.log.toValue

/-- A store can load the log: it has the current schema, and is cached or can be read. -/
structure CanLoad (store : Nat) (key : String) (s : Solo B E) (log : ThreadLog) : Prop where
  schema : log.schemaVersion = THREAD_SCHEMA_VERSION
  source : Loadable store key s log

/-- A store can load what is there. -/
def Loads (store : Nat) (key : String) (c : Option ThreadLog) (s : Solo B E) : Prop :=
  ∀ log, c = some log → CanLoad store key s log

section Holds
variable {c : Option ThreadLog} {s : Solo B E}

omit [DecidableEq E] in
theorem loads_setLock (store : Nat) (k : String) (held : Bool) :
    Loads store key c (s.setLock k held) ↔ Loads store key c s :=
  ⟨fun h log hlog => ⟨(h log hlog).schema, (h log hlog).source⟩,
    fun h log hlog => ⟨(h log hlog).schema, (h log hlog).source⟩⟩

omit [DecidableEq E] in
theorem Holds.head_eq (h : Holds F key c s) :
    F.headOf s.kernel.objects key = c.map fun log => F.tag log.toValue := by
  rw [Format.headOf, h.object, Option.map_map]
  rfl

omit [DecidableEq E] in
theorem Holds.setLock (h : Holds F key c s) (k : String) (held : Bool) :
    Holds F key c (s.setLock k held) := ⟨h.object, h.caches⟩

omit [DecidableEq E] in
/-- A store remembers a log under its own etag. -/
theorem Holds.remember (h : Holds F key c s) (owner : Nat) (log : ThreadLog) :
    Holds F key c ⟨{ s.kernel with
      logs := updateAt s.kernel.logs owner key (some ⟨log, F.tag log.toValue⟩) }, s.puts⟩ := by
  refine ⟨h.object, forall_updateAt h.caches ?_⟩
  intro entry hentry
  cases hentry
  rfl

omit [DecidableEq E] in
theorem Holds.forget (h : Holds F key c s) (owner : Nat) : Holds F key c
    ⟨{ s.kernel with logs := updateAt s.kernel.logs owner key none }, s.puts⟩ :=
  ⟨h.object, forall_updateAt h.caches fun _ hnone => nomatch hnone⟩

omit [DecidableEq E] in
/-- Only the document of the log counts. -/
theorem Holds.of_alike {log log' : ThreadLog} (h : Holds F key (some log) s)
    (ha : ThreadLog.Alike log log') : Holds F key (some log') s :=
  ⟨by rw [h.object, Option.map_some, Option.map_some, ThreadLog.alike_iff.mpr ha], h.caches⟩

end Holds

omit [DecidableEq E] in
theorem Loadable.of_alike {store : Nat} {s : Solo B E} {log log' : ThreadLog}
    (h : Loadable store key s log) (ha : ThreadLog.Alike log log') : Loadable store key s log' := by
  refine h.imp ha.readable ?_
  rintro ⟨entry, hentry, hvalue⟩
  exact ⟨entry, hentry, hvalue.trans (ThreadLog.alike_iff.mpr ha)⟩

/-- The state after a store has remembered a log under its etag. -/
def Solo.remember (F : Format B E) (s : Solo B E) (store : Nat) (key : String) (log : ThreadLog) :
    Solo B E :=
  ⟨{ s.kernel with logs := updateAt s.kernel.logs store key (some ⟨log, F.tag log.toValue⟩) }, s.puts⟩

omit [DecidableEq E] in
theorem loadable_remember {store : Nat} {log log' : ThreadLog} (s : Solo B E)
    (h : log'.toValue = log.toValue) : Loadable store key (s.remember F store key log') log :=
  Or.inr ⟨⟨log', F.tag log'.toValue⟩, by simp [Solo.remember, updateAt_apply], h⟩

/-- A fetch takes the log from the cache, or reads and remembers it. -/
theorem eval_fetchLog_cases (htag : Function.Injective F.tag) {log : ThreadLog} {s : Solo B E}
    (h : Holds F key (some log) s) :
    (∃ entry, s.kernel.logs cl.store key = some entry ∧ ThreadLog.Alike entry.log log ∧
      (cl.self.fetchLog key (F.tag log.toValue)).eval (cl.handle F) s = (s, .ok entry.log)) ∨
    ((∀ entry, s.kernel.logs cl.store key = some entry → entry.log.toValue ≠ log.toValue) ∧
      match (F.parseJson key (F.render log.toValue)).bind ThreadStore.parseThreadLog with
      | .error e => (cl.self.fetchLog key (F.tag log.toValue)).eval (cl.handle F) s = (s, .error e)
      | .ok log' => ThreadLog.Alike log' log ∧
        (cl.self.fetchLog key (F.tag log.toValue)).eval (cl.handle F) s =
          (s.remember F cl.store key log', .ok log')) := by
  simp only [ThreadStore.fetchLog, Program.bind_eq, Program.eval_bind, eval_lookupLog,
    Option.bind_some]
  cases hfound : (s.kernel.logs cl.store key).filter fun entry => entry.etag = F.tag log.toValue with
  | some entry =>
    left
    obtain ⟨hentry, halike⟩ := alike_of_lookup (h.caches cl.store) htag hfound
    exact ⟨entry, hentry, halike, rfl⟩
  | none =>
    right
    refine ⟨cold_of_lookup (h.caches cl.store) hfound, ?_⟩
    · have hget := eval_retryGet cl F h.object
      cases hjson : F.parseJson key (F.render log.toValue) with
      | error e =>
        rw [hjson] at hget
        exact Program.eval_andThen_error hget
      | ok v =>
        rw [hjson] at hget
        have hv := F.of_parse_render (F.parseJson_eq_ok.mp hjson)
        subst hv
        simp only [Except.bind, ThreadStore.over_storage, Program.eval_andThen_ok hget]
        cases hparse : ThreadStore.parseThreadLog log.toValue with
        | error e => rfl
        | ok log' =>
          have hvalue := parseThreadLog_toValue hparse
          refine ⟨ThreadLog.alike_iff.mp hvalue, ?_⟩
          rw [Solo.remember, hvalue]
          rfl

theorem schemaVersion_of_ensure {log : ThreadLog} {u : Unit}
    (h : ThreadStore.ensureThreadLogSchema log = .ok u) :
    log.schemaVersion = THREAD_SCHEMA_VERSION := by
  unfold ThreadStore.ensureThreadLogSchema at h
  split_ifs at h with hne
  exact not_not.mp hne

omit [DecidableEq E] in
/-- The text of a log fails to parse only if the log is unreadable. -/
theorem fatal_of_parse_error {log : ThreadLog} {e : CoreError}
    (h : (F.parseJson key (F.render log.toValue)).bind ThreadStore.parseThreadLog = .error e) :
    Fatal e ∧ ¬ log.Readable := by
  cases hjson : F.parseJson key (F.render log.toValue) with
  | error e' =>
    rw [hjson] at h
    cases h
    refine ⟨fatal_parseJson hjson, fun hread => ?_⟩
    rw [parseJson_readable hread] at hjson
    cases hjson
  | ok v =>
    rw [hjson] at h
    have hv := F.of_parse_render (F.parseJson_eq_ok.mp hjson)
    subst hv
    refine ⟨fatal_parseThreadLog h, fun hread => ?_⟩
    obtain ⟨log', hlog', -⟩ := parseThreadLog_readable hread
    rw [Except.bind, hlog'] at h
    cases h

omit [DecidableEq E] in
/-- A log that parses and has the current schema is readable. -/
theorem readable_of_parse_ok {log log' : ThreadLog}
    (h : (F.parseJson key (F.render log.toValue)).bind ThreadStore.parseThreadLog = .ok log')
    (hschema : ThreadStore.ensureThreadLogSchema log' = .ok ()) : log.Readable := by
  cases hjson : F.parseJson key (F.render log.toValue) with
  | error e =>
    rw [hjson] at h
    cases h
  | ok v =>
    rw [hjson] at h
    exact readable_of_parse hjson h hschema

/-- What a load leaves behind. -/
structure LoadLeft (F : Format B E) (store : Nat) (key : String) (c : Option ThreadLog)
    (s : Solo B E) (out : Solo B E × Except CoreError (LoadState E ThreadLog)) : Prop where
  holds : Holds F key c out.1
  puts : out.1.puts = s.puts
  loaded : ∀ l, out.2 = .ok l →
    ThreadStore.expectedEtagOf l = (c.map fun log => F.tag log.toValue) ∧
    ThreadLog.Alike (ThreadStore.logOf l) (c.getD ThreadLog.default) ∧
    Loads store key c s ∧ Loads store key c out.1
  failed : ∀ e, out.2 = .error e → Fatal e ∧ ¬ Loads store key c s

section Loaded
variable {store : Nat} {s m : Solo B E} {log log' : ThreadLog} (hm : Holds F key (some log) m)
  (hputs : m.puts = s.puts) (halike : ThreadLog.Alike log' log)
include hm hputs halike

omit [DecidableEq E] in
/-- A fetched log with another schema is refused. -/
theorem loadLeft_outdated {e : CoreError}
    (hschema : ThreadStore.ensureThreadLogSchema log' = .error e) :
    LoadLeft F store key (some log) s (m, .error e) := by
  refine ⟨hm, hputs, fun l hl => (by cases hl), fun e' he => ?_⟩
  cases he
  refine ⟨fatal_schema hschema, fun hloads => ?_⟩
  rw [ensureThreadLogSchema_ok (halike.schemaVersion.trans (hloads log rfl).schema)] at hschema
  cases hschema

omit [DecidableEq E] in
theorem loadLeft_loaded (hcan : CanLoad store key s log) (hcan' : CanLoad store key m log) :
    LoadLeft F store key (some log) s (m, .ok (.loaded ⟨some (F.tag log.toValue), log'⟩)) := by
  refine ⟨hm, hputs, fun l hl => ?_, fun e he => (by cases he)⟩
  cases hl
  refine ⟨rfl, halike, fun log'' hlog => ?_, fun log'' hlog => ?_⟩
  · cases hlog
    exact hcan
  · cases hlog
    exact hcan'

end Loaded

/-- A load succeeds exactly if the store can load what is there. -/
theorem eval_load (htag : Function.Injective F.tag) {c : Option ThreadLog} {s : Solo B E}
    (h : Holds F key c s) : LoadLeft F cl.store key c s
      ((cl.self.loadThreadLogForWrite key).eval (cl.handle F) s) := by
  have hhead := eval_retryHead cl F key s
  rw [h.head_eq] at hhead
  rw [ThreadStore.loadThreadLogForWrite, ThreadStore.over_storage, Program.eval_andThen_ok hhead]
  cases c with
  | none =>
    refine ⟨h, rfl, fun l hl => ?_, fun e he => by cases he⟩
    cases hl
    exact ⟨rfl, ⟨rfl, rfl, rfl, rfl, rfl⟩, fun log hlog => (by cases hlog),
      fun log hlog => (by cases hlog)⟩
  | some log =>
    simp only [Option.map_some]
    rcases eval_fetchLog_cases cl htag h with ⟨entry, hentry, halike, hfetch⟩ | ⟨hcold, hread⟩
    · have hsource : Loadable cl.store key s log :=
        Or.inr ⟨entry, hentry, ThreadLog.alike_iff.mpr halike⟩
      rw [Program.eval_andThen_ok hfetch]
      cases hschema : ThreadStore.ensureThreadLogSchema entry.log with
      | error e => exact loadLeft_outdated h rfl halike hschema
      | ok _ =>
        have hcan : CanLoad cl.store key s log :=
          ⟨halike.schemaVersion.symm.trans (schemaVersion_of_ensure hschema), hsource⟩
        exact loadLeft_loaded h rfl halike hcan hcan
    · cases hparse : (F.parseJson key (F.render log.toValue)).bind ThreadStore.parseThreadLog with
      | error e =>
        rw [hparse] at hread
        rw [Program.eval_andThen_error hread]
        obtain ⟨hfatal, hdeep⟩ := fatal_of_parse_error hparse
        refine ⟨h, rfl, fun l hl => (by cases hl), fun e' he => ?_⟩
        cases he
        exact ⟨hfatal, fun hloads => hdeep ((hloads log rfl).source.readable_of_cold hcold)⟩
      | ok log' =>
        rw [hparse] at hread
        obtain ⟨halike, hfetch⟩ := hread
        rw [Program.eval_andThen_ok hfetch]
        have hm : Holds F key (some log) (s.remember F cl.store key log') :=
          h.remember cl.store log'
        have hputs : (s.remember F cl.store key log').puts = s.puts := rfl
        cases hschema : ThreadStore.ensureThreadLogSchema log' with
        | error e => exact loadLeft_outdated hm hputs halike hschema
        | ok _ =>
          have hread := readable_of_parse_ok hparse hschema
          exact loadLeft_loaded hm hputs halike ⟨hread.schema, Or.inl hread⟩
            ⟨hread.schema, Or.inl hread⟩

/-- What a commit leaves behind: the log, if its put reaches the storage. -/
structure CommitLeft (F : Format B E) (key : String) (c : Option ThreadLog) (log : ThreadLog)
    (s : Solo B E) (out : Solo B E × Except CoreError Unit) : Prop where
  holds : Holds F key (if cl.putLands s.puts then some log else c) out.1
  cached : out.2 = .ok () → cl.putLands s.puts = true ∧ Loadable cl.store key out.1 log
  answered : cl.Answered → out.2 = .ok ()

theorem eval_commitLog_holds {c : Option ThreadLog} {s : Solo B E} (h : Holds F key c s)
    (log : ThreadLog) (threadId : String) : CommitLeft cl F key c log s
      ((cl.self.commitLog cl.showEtag threadId key log
        (c.map fun log => F.tag log.toValue)).eval (cl.handle F) s) := by
  have hput := eval_retryPut_open cl (v := log.toValue) h.head_eq
  have hanswered := fun hf : cl.Answered => eval_retryPut_answered cl hf (v := log.toValue) h.head_eq
  cases hout : (retryPutJsonIfEtagMatches backend key log.toValue
      (c.map fun log => F.tag log.toValue)).eval (cl.handle F) s with
  | mk m r =>
    rw [hout] at hput hanswered
    have hholds : Holds F key (if cl.putLands s.puts then some log else c) m := by
      refine ⟨?_, by rw [hput.logs]; exact h.caches⟩
      rw [hput.object]
      split_ifs
      · rfl
      · exact h.object
    cases r with
    | error e =>
      rw [eval_commitLog_error cl threadId hout]
      exact ⟨hholds, fun hok => (by cases hok), fun hf => by cases hanswered hf⟩
    | ok status =>
      cases status with
      | conflict current =>
        rw [eval_commitLog_conflict cl threadId hout]
        exact ⟨hholds, fun hok => (by cases hok), fun hf => by cases hanswered hf⟩
      | written e =>
        obtain ⟨hlands, rfl⟩ := hput.written e rfl
        rw [eval_commitLog_written cl threadId hout]
        exact ⟨hholds.remember cl.store log, fun _ => ⟨hlands, loadable_remember m rfl⟩,
          fun _ => rfl⟩

/-- The log after a call that may have found nothing to do, or whose puts may all have been lost. -/
def ThreadOp.after (op : ThreadOp) (landed : Bool) (c : Option ThreadLog) : Option ThreadLog :=
  match op.apply (c.getD ThreadLog.default) with
  | some log => if landed then some log else c
  | none => c

/-- What a writer that does not repeat leaves behind. -/
structure EditLeft (F : Format B E) (key : String) (op : ThreadOp) (c : Option ThreadLog)
    (s s' : Solo B E) : Prop where
  unloaded : ¬ Loads cl.store key c s → Holds F key c s'
  loaded : Loads cl.store key c s → Holds F key (op.after (cl.putLands s.puts) c) s'

/-- Load, decide, save: the shape of the writers that do not repeat. -/
theorem eval_edit (htag : Function.Injective F.tag) {α : Type} (op : ThreadOp)
    (k : LoadState E ThreadLog → Program (KernelCall B E) KernelCall.Answer (Except CoreError α))
    {c : Option ThreadLog} {s : Solo B E} (h : Holds F key c s)
    (hk : ∀ l m, Holds F key c m → m.puts = s.puts →
      ThreadStore.expectedEtagOf l = (c.map fun log => F.tag log.toValue) →
      ThreadLog.Alike (ThreadStore.logOf l) (c.getD ThreadLog.default) →
      Holds F key (op.after (cl.putLands s.puts) c) ((k l).eval (cl.handle F) m).1) :
    EditLeft cl F key op c s ((cl.self.withLock key
      ((cl.self.loadThreadLogForWrite key).andThen k)).eval (cl.handle F) s).1 := by
  rw [eval_withLock]
  have hload := eval_load cl htag (h.setLock key true)
  cases hout : (cl.self.loadThreadLogForWrite key).eval (cl.handle F) (s.setLock key true) with
  | mk m r =>
    rw [hout] at hload
    cases r with
    | error e =>
      rw [Program.eval_andThen_error hout]
      exact ⟨fun _ => hload.holds.setLock key false,
        fun hloads => absurd ((loads_setLock _ _ _).mpr hloads) (hload.failed e rfl).2⟩
    | ok l =>
      obtain ⟨hexpected, halike, hloads, -⟩ := hload.loaded l rfl
      rw [Program.eval_andThen_ok hout]
      exact ⟨fun hno => absurd ((loads_setLock _ _ _).mp hloads) hno,
        fun _ => (hk l m hload.holds hload.puts hexpected halike).setLock key false⟩

variable (threadId) in
/-- Saving the edit of a log in hand. -/
theorem holds_commitLog {op : ThreadOp} {c : Option ThreadLog} {s m : Solo B E}
    (h : Holds F key c m) (hputs : m.puts = s.puts) {l : LoadState E ThreadLog} {log : ThreadLog}
    (hexpected : ThreadStore.expectedEtagOf l = (c.map fun log => F.tag log.toValue))
    (halike : ThreadLog.Alike (ThreadStore.logOf l) (c.getD ThreadLog.default))
    (happly : op.apply (ThreadStore.logOf l) = some log) :
    Holds F key (op.after (cl.putLands s.puts) c)
      ((cl.self.commitLog cl.showEtag threadId key log
        (ThreadStore.expectedEtagOf l)).eval (cl.handle F) m).1 := by
  have hcommit := (eval_commitLog_holds cl h log threadId).holds
  rw [hexpected]
  rw [hputs] at hcommit
  rcases ThreadOp.apply_alike (e := op) halike with ⟨hnone, -⟩ | ⟨l₁, l₂, h₁, h₂, ha⟩
  · rw [happly] at hnone
    cases hnone
  · rw [happly] at h₁
    cases h₁
    rw [ThreadOp.after, h₂]
    split_ifs with hlands
    · rw [if_pos hlands] at hcommit
      exact hcommit.of_alike ha
    · rw [if_neg hlands] at hcommit
      exact hcommit

omit [DecidableEq E] in
/-- A writer that finds nothing to do leaves the log alone. -/
theorem holds_after_none {op : ThreadOp} {landed : Bool} {c : Option ThreadLog} {m : Solo B E}
    (h : Holds F key c m) {l : LoadState E ThreadLog}
    (halike : ThreadLog.Alike (ThreadStore.logOf l) (c.getD ThreadLog.default))
    (happly : op.apply (ThreadStore.logOf l) = none) : Holds F key (op.after landed c) m := by
  rcases ThreadOp.apply_alike (e := op) halike with ⟨-, hnone⟩ | ⟨l₁, l₂, h₁, -, -⟩
  · rw [ThreadOp.after, hnone]
    exact h
  · rw [happly] at h₁
    cases h₁

section Writers
variable (htag : Function.Injective F.tag) (hkey : cl.threadKey threadId = .ok key)
  {c : Option ThreadLog} {s : Solo B E} (h : Holds F key c s)
include htag hkey h

theorem eval_ensurePreflightPhaseStep (agent : String) (suiteId : Option String)
    (initialPhase ts : String) :
    EditLeft cl F key (.preflight agent suiteId initialPhase ts) c s
      ((cl.self.ensurePreflightPhaseStep cl.showEtag threadId agent suiteId initialPhase ts).eval
        (cl.handle F) s).1 := by
  simp only [ThreadStore.ensurePreflightPhaseStep, cl.key_self hkey]
  apply eval_edit cl htag _ _ h
  intro l m hm hputs hexpected halike
  cases hp : (ThreadStore.logOf l).firstPhase with
  | some found =>
    exact holds_after_none hm halike (by rw [ThreadOp.apply, hp]; rfl)
  | none =>
    have happly : (ThreadOp.preflight agent suiteId initialPhase ts).apply (ThreadStore.logOf l) =
        some { ThreadStore.logOf l with steps := (ThreadStore.logOf l).steps ++
          [preflightStep agent suiteId initialPhase ts] } := by
      rw [ThreadOp.apply, hp]
      rfl
    have hcommit := holds_commitLog cl threadId hm hputs hexpected halike happly
    simp only [Program.andThen, Program.eval_bind]
    split <;> exact hcommit

theorem eval_setTitleIfAbsent (title : String) :
    EditLeft cl F key (.setTitleIfAbsent title) c s
      ((cl.self.setTitleIfAbsent cl.showEtag threadId title).eval (cl.handle F) s).1 := by
  simp only [ThreadStore.setTitleIfAbsent, cl.key_self hkey]
  apply eval_edit cl htag _ _ h
  intro l m hm hputs hexpected halike
  split_ifs with ha
  · exact holds_commitLog cl threadId hm hputs hexpected halike (if_pos ha)
  · exact holds_after_none hm halike (if_neg ha)

theorem eval_lockTitle (title : String) :
    EditLeft cl F key (.lockTitle title) c s
      ((cl.self.lockTitle cl.showEtag threadId title).eval (cl.handle F) s).1 := by
  simp only [ThreadStore.lockTitle, cl.key_self hkey]
  apply eval_edit cl htag _ _ h
  intro l m hm hputs hexpected halike
  split_ifs with hl
  · exact holds_after_none hm halike (if_pos hl)
  · exact holds_commitLog cl threadId hm hputs hexpected halike (if_neg hl)

end Writers

/-- What one attempt to append leaves behind. -/
structure AttemptLeft (F : Format B E) (key : String) (step : ThreadStep) (c : Option ThreadLog)
    (s : Solo B E) (out : Solo B E × Except CoreError Unit) : Prop where
  unloaded : ¬ Loads cl.store key c s →
    Holds F key c out.1 ∧ ∃ e, out.2 = .error e ∧ Fatal e
  loaded : Loads cl.store key c s → Holds F key
    (if cl.putLands s.puts then some ((c.getD ThreadLog.default).push step) else c) out.1
  answered : cl.Answered → Loads cl.store key c s → out.2 = .ok () ∧
    Loads cl.store key (some ((c.getD ThreadLog.default).push step)) out.1

theorem eval_attempt (htag : Function.Injective F.tag) {c : Option ThreadLog} {s : Solo B E}
    (h : Holds F key c s) (threadId : String) (step : ThreadStep) :
    AttemptLeft cl F key step c s
      ((cl.self.appendStepLocked cl.showEtag key threadId step).eval (cl.handle F) s) := by
  have hload := eval_load cl htag h
  rw [ThreadStore.appendStepLocked]
  cases hout : (cl.self.loadThreadLogForWrite key).eval (cl.handle F) s with
  | mk m r =>
    rw [hout] at hload
    cases r with
    | error e =>
      obtain ⟨hfatal, hno⟩ := hload.failed e rfl
      rw [Program.eval_andThen_error hout]
      exact ⟨fun _ => ⟨hload.holds, e, rfl, hfatal⟩, fun hloads => absurd hloads hno,
        fun _ hloads => absurd hloads hno⟩
    | ok l =>
      obtain ⟨hexpected, halike, hloads, -⟩ := hload.loaded l rfl
      rw [Program.eval_andThen_ok hout, hexpected]
      have hcommit := eval_commitLog_holds cl hload.holds ((ThreadStore.logOf l).push step) threadId
      have hpush := halike.push step
      refine ⟨fun hno => absurd hloads hno, fun _ => ?_, fun hf _ => ⟨hcommit.answered hf, ?_⟩⟩
      · have hholds := hcommit.holds
        rw [hload.puts] at hholds
        split_ifs with hlands
        · rw [if_pos hlands] at hholds
          exact hholds.of_alike hpush
        · rw [if_neg hlands] at hholds
          exact hholds
      · rintro log hlog
        cases hlog
        refine ⟨?_, (hcommit.cached (hcommit.answered hf)).2.of_alike hpush⟩
        cases c with
        | none => rfl
        | some log => exact (hloads log rfl).schema

/-- Attempts that meet their own writes push the step again and again. -/
theorem eval_attempts (htag : Function.Injective F.tag) (threadId : String) (step : ThreadStep)
    (attempts : Nat) {c : Option ThreadLog} {s : Solo B E} (h : Holds F key c s) :
    ∃ n, Holds F key (pushedTimes step c n)
      ((cl.self.appendAttempts cl.showEtag key threadId step attempts).eval (cl.handle F) s).1 := by
  induction attempts generalizing c s with
  | zero => exact ⟨0, h⟩
  | succ attempts ih =>
    have hleft := eval_attempt cl htag h threadId step
    rw [ThreadStore.appendAttempts, Program.bind_eq, Program.eval_bind]
    cases hout : (cl.self.appendStepLocked cl.showEtag key threadId step).eval (cl.handle F) s with
    | mk m r =>
      rw [hout] at hleft
      have hm : ∃ n, Holds F key (pushedTimes step c n) m ∧ n ≤ 1 := by
        by_cases hloads : Loads cl.store key c s
        · have hholds := hleft.loaded hloads
          split_ifs at hholds
          · exact ⟨1, hholds, le_rfl⟩
          · exact ⟨0, hholds, Nat.zero_le 1⟩
        · exact ⟨0, (hleft.unloaded hloads).1, Nat.zero_le 1⟩
      obtain ⟨n, hm, hn⟩ := hm
      cases r with
      | ok _ => exact ⟨n, hm⟩
      | error e =>
        cases e with
        | auditConflict msg =>
          obtain ⟨k, hk⟩ := ih (hm.forget cl.store)
          change ∃ n, Holds F key (pushedTimes step c n) (((cl.self.cacheRemove key).bind fun _ =>
            cl.self.appendAttempts cl.showEtag key threadId step attempts).eval (cl.handle F) m).1
          rw [Program.eval_bind_of (eval_cacheRemove cl m)]
          rcases Nat.le_one_iff_eq_zero_or_eq_one.mp hn with rfl | rfl
          · exact ⟨k, hk⟩
          · exact ⟨k + 1, pushedTimes_push step c k ▸ hk⟩
        | _ => exact ⟨n, hm⟩

section Append
variable (htag : Function.Injective F.tag) (hkey : cl.threadKey threadId = .ok key)
  {c : Option ThreadLog} {s : Solo B E} (h : Holds F key c s)
include htag hkey h

theorem eval_appendStep_holds (step : ThreadStep) : ∃ n, Holds F key (pushedTimes step c n)
    ((cl.self.appendStep cl.showEtag threadId step).eval (cl.handle F) s).1 := by
  obtain ⟨n, hn⟩ := eval_attempts cl htag threadId step (AUDIT_MAX_CONFLICT_RETRIES + 1)
    (h.setLock key true)
  rw [eval_appendStep cl hkey]
  exact ⟨n, hn.setLock key false⟩

/-- Over a storage that answers, an append pushes its step once if the store can load the log, and
fails without a trace otherwise. -/
theorem eval_appendStep_answered (hf : cl.Answered) (step : ThreadStep) :
    (Loads cl.store key c s →
      ((cl.self.appendStep cl.showEtag threadId step).eval (cl.handle F) s).2 = .ok () ∧
      Holds F key (some ((c.getD ThreadLog.default).push step))
        ((cl.self.appendStep cl.showEtag threadId step).eval (cl.handle F) s).1 ∧
      Loads cl.store key (some ((c.getD ThreadLog.default).push step))
        ((cl.self.appendStep cl.showEtag threadId step).eval (cl.handle F) s).1) ∧
    (¬ Loads cl.store key c s →
      (∃ e, ((cl.self.appendStep cl.showEtag threadId step).eval (cl.handle F) s).2 = .error e) ∧
      Holds F key c ((cl.self.appendStep cl.showEtag threadId step).eval (cl.handle F) s).1) := by
  have hleft := eval_attempt cl htag (h.setLock key true) threadId step
  rw [eval_appendStep cl hkey, ThreadStore.appendAttempts, Program.bind_eq, Program.eval_bind]
  cases hout : (cl.self.appendStepLocked cl.showEtag key threadId step).eval (cl.handle F)
      (s.setLock key true) with
  | mk m r =>
    rw [hout] at hleft
    refine ⟨fun hloads => ?_, fun hno => ?_⟩
    · have hloads' := (loads_setLock cl.store key true).mpr hloads
      obtain ⟨rfl, hcached⟩ := hleft.answered hf hloads'
      have hholds := hleft.loaded hloads'
      rw [hf.putLands, if_pos rfl] at hholds
      exact ⟨rfl, hholds.setLock key false, (loads_setLock cl.store key false).mpr hcached⟩
    · obtain ⟨hholds, e, rfl, hfatal⟩ :=
        hleft.unloaded fun hl => hno ((loads_setLock cl.store key true).mp hl)
      cases e with
      | auditConflict msg => exact absurd rfl (hfatal msg)
      | _ => exact ⟨⟨_, rfl⟩, hholds.setLock key false⟩

end Append

theorem eval_retryGet_missing (F : Format B E) {s : Solo B E}
    (h : s.kernel.objects.get key = none) : (retryGetJson backend key).eval (cl.handle F) s =
      (s, .error (.storage (.notFound key))) := by
  apply eval_retryClassified_of_final
  · simp [backend, KernelCall.issue, Solo.handle, Kernel.perform, Format.serve, h]
  · intro e he
    cases he
    rfl

/-- What a reader leaves behind. -/
structure GetLeft (F : Format B E) (key : String) (c : Option ThreadLog) (s : Solo B E)
    (out : Solo B E × Except CoreError ThreadLog) : Prop where
  holds : Holds F key c out.1
  found : ∀ log', out.2 = .ok log' → ∃ log, c = some log ∧ ThreadLog.Alike log' log
  failed : ∀ e, out.2 = .error e → out.1 = s ∧ (Loads cl.store key c s → c = none)

theorem eval_get_holds (htag : Function.Injective F.tag) (hkey : cl.threadKey threadId = .ok key)
    {c : Option ThreadLog} {s : Solo B E} (h : Holds F key c s) :
    GetLeft cl F key c s ((cl.self.get threadId).eval (cl.handle F) s) := by
  have hhead := eval_retryHead cl F key s
  rw [h.head_eq] at hhead
  have hlookup : ∀ x, (cl.self.lookupLog key x).eval (cl.handle F) s =
      (s, x.bind fun e => (s.kernel.logs cl.store key).filter fun entry => entry.etag = e) :=
    fun x => eval_lookupLog cl x s
  simp only [ThreadStore.get, cl.key_self hkey, ThreadStore.over_storage,
    Program.eval_andThen_ok hhead, Program.bind_eq, Program.eval_bind, hlookup]
  cases c with
  | none =>
    have hget := eval_retryGet_missing cl F h.object
    simp only [Option.map_none, Option.bind_none, Program.eval_bind, hget]
    exact ⟨h, fun log' hlog => (by cases hlog), fun _ _ => ⟨rfl, fun _ => rfl⟩⟩
  | some log =>
    simp only [Option.map_some, Option.bind_some]
    cases hfound : (s.kernel.logs cl.store key).filter fun entry => entry.etag = F.tag log.toValue with
    | some entry =>
      refine ⟨h, fun log' hlog => ?_, fun e he => (by cases he)⟩
      cases hlog
      exact ⟨log, rfl, (alike_of_lookup (h.caches cl.store) htag hfound).2⟩
    | none =>
      have hloads : Loads cl.store key (some log) s → log.Readable := fun hl =>
        (hl log rfl).source.readable_of_cold (cold_of_lookup (h.caches cl.store) hfound)
      have hget := eval_retryGet cl F h.object
      simp only [Program.eval_bind, hget]
      cases hjson : F.parseJson key (F.render log.toValue) with
      | error e =>
        refine ⟨h, fun log' hlog => (by cases hlog), fun _ _ => ⟨rfl, fun hl => ?_⟩⟩
        rw [parseJson_readable (hloads hl)] at hjson
        cases hjson
      | ok v =>
        have hv := F.of_parse_render (F.parseJson_eq_ok.mp hjson)
        subst hv
        cases hparse : ThreadStore.parseThreadLog log.toValue with
        | error e =>
          simp only [hparse]
          refine ⟨h, fun log' hlog => (by cases hlog), fun _ _ => ⟨rfl, fun hl => ?_⟩⟩
          obtain ⟨log', hlog', -⟩ := parseThreadLog_readable (hloads hl)
          rw [hlog'] at hparse
          cases hparse
        | ok log' =>
          have hvalue := parseThreadLog_toValue hparse
          have halike := ThreadLog.alike_iff.mp hvalue
          cases hschema : ThreadStore.ensureThreadLogSchema log' with
          | error e =>
            simp only [hparse, hschema]
            refine ⟨h, fun l hl => (by cases hl), fun _ _ => ⟨rfl, fun hl => ?_⟩⟩
            rw [ensureThreadLogSchema_ok
              (halike.schemaVersion.trans (hloads hl).schema)] at hschema
            cases hschema
          | ok _ =>
            simp only [hparse, hschema]
            refine ⟨hvalue ▸ h.remember cl.store log', fun l hl => ?_, fun e he => (by cases he)⟩
            cases hl
            exact ⟨log, rfl, halike⟩

end ReactRuntime.Session
