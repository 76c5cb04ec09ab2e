import ReactRuntime.Session.Sequential

/-!
# Appends over a storage with ambiguous failures

An append that meets its own write starts over from the log that already holds its
step, and pushes the step again. So the pattern of failures decides how many copies
of the step a successful append leaves behind.
-/
namespace ReactRuntime.Session
open Library Serde ReactRuntime.Core Storage

/-- Some attempt among the next ones is written, and only attempts that meet their own write come
before it. -/
def succeeds (faults : Nat → Fault) : (attempts n : Nat) → Bool
  | 0, _ => false
  | attempts + 1, n => match attempt faults SAFE_STORAGE_RETRY_DELAYS_MS.length n false with
    | .written _ => true
    | .conflict next => succeeds faults attempts next
    | .gaveUp => false

/-- The first attempt meets its own write, and a later one is written. -/
def duplicates (faults : Nat → Fault) : Bool :=
  match attempt faults SAFE_STORAGE_RETRY_DELAYS_MS.length 0 false with
  | .conflict next => succeeds faults AUDIT_MAX_CONFLICT_RETRIES next
  | .written _ | .gaveUp => false

/-- How many copies of a step an append with the given number of attempts writes, if it succeeds:
one for each attempt that meets its own write, and one for the attempt that is written. -/
def copies (faults : Nat → Fault) : (attempts n : Nat) → Option Nat
  | 0, _ => none
  | attempts + 1, n => match attempt faults SAFE_STORAGE_RETRY_DELAYS_MS.length n false with
    | .written _ => some 1
    | .conflict next => (copies faults attempts next).map (· + 1)
    | .gaveUp => none

theorem copies_pos {faults : Nat → Fault} {attempts n k : Nat}
    (h : copies faults attempts n = some k) : 0 < k := by
  induction attempts generalizing n k with
  | zero => cases h
  | succ attempts ih =>
    rw [copies] at h
    split at h
    · cases h
      decide
    · obtain ⟨j, -, rfl⟩ := Option.map_eq_some_iff.mp h
      omega
    · cases h

theorem copies_isSome (faults : Nat → Fault) (attempts n : Nat) :
    (copies faults attempts n).isSome = succeeds faults attempts n := by
  induction attempts generalizing n with
  | zero => rfl
  | succ attempts ih =>
    rw [copies, succeeds]
    split
    · rfl
    · rw [Option.isSome_map, ih]
    · rfl

/-- A pattern leaves more than one copy exactly if it duplicates. -/
theorem duplicates_iff {faults : Nat → Fault} : duplicates faults = true ↔
    ∃ k, copies faults (AUDIT_MAX_CONFLICT_RETRIES + 1) 0 = some k ∧ k ≠ 1 := by
  rw [duplicates, copies]
  cases attempt faults SAFE_STORAGE_RETRY_DELAYS_MS.length 0 false with
  | written next => simp
  | gaveUp => simp
  | conflict next =>
    simp only [← copies_isSome, Option.isSome_iff_exists, Option.map_eq_some_iff]
    constructor
    · rintro ⟨k, hk⟩
      have hpos := copies_pos hk
      exact ⟨k + 1, ⟨k, hk, rfl⟩, by omega⟩
    · rintro ⟨_, ⟨k, hk, -⟩, -⟩
      exact ⟨k, hk⟩

variable {B E : Type} [DecidableEq E] {F : ExactFormat B E} (cl : Client E) {key : String}

/-- The log with a step pushed several times. -/
def pushTimes (step : ThreadStep) : Nat → ThreadLog → ThreadLog
  | 0, log => log
  | n + 1, log => pushTimes step n (log.push step)

theorem pushTimes_steps_length (step : ThreadStep) (n : Nat) (log : ThreadLog) :
    (pushTimes step n log).steps.length = log.steps.length + n := by
  induction n generalizing log with
  | zero => rfl
  | succ n ih =>
    rw [pushTimes, ih]
    simp only [ThreadLog.push, List.length_append, List.length_singleton]
    omega

omit [DecidableEq E] in
theorem Settled.remove {c : Option ThreadLog} {s : Solo B E} (h : Settled F key c s)
    (owner : Nat) : Settled F key c
      ⟨{ s.kernel with logs := updateAt s.kernel.logs owner key none }, s.puts⟩ :=
  ⟨h.object, forall_updateAt h.caches fun _ hnone => nomatch hnone⟩

theorem eval_cacheRemove {F : Format B E} (s : Solo B E) :
    (cl.self.cacheRemove key).eval (cl.handle F) s =
      (⟨{ s.kernel with logs := updateAt s.kernel.logs cl.store key none }, s.puts⟩, ()) := rfl

/-- The errors of an append that could read the log. -/
def Outage : CoreError → Prop
  | .storage e => e.retry = true
  | .auditUnavailable _ _ => True
  | _ => False

/-- The log after some copies of a step were pushed, and as it was before any. -/
def pushedTimes (step : ThreadStep) (c : Option ThreadLog) : Nat → Option ThreadLog
  | 0 => c
  | n + 1 => some (pushTimes step (n + 1) (c.getD ThreadLog.default))

theorem pushedTimes_push (step : ThreadStep) (c : Option ThreadLog) (n : Nat) :
    pushedTimes step (some ((c.getD ThreadLog.default).push step)) n = pushedTimes step c (n + 1) := by
  cases n <;> rfl

/-- How a whole append ends: with the number of copies of the pattern, or with an error. -/
def CopiesEnd (F : Format B E) (key : String) (c : Option ThreadLog) (step : ThreadStep)
    (result : Option Nat) (out : Solo B E × Except CoreError Unit) : Prop :=
  match result with
  | some n => out.2 = .ok () ∧ Settled F key (pushedTimes step c n) out.1
  | none => ∃ e n, out.2 = .error e ∧ Outage e ∧ Settled F key (pushedTimes step c n) out.1

omit [DecidableEq E] in
theorem CopiesEnd.again {c : Option ThreadLog} {step : ThreadStep} {result : Option Nat}
    {out : Solo B E × Except CoreError Unit}
    (h : CopiesEnd F key (some ((c.getD ThreadLog.default).push step)) step result out) :
    CopiesEnd F key c step (result.map (· + 1)) out := by
  cases result with
  | some n => exact ⟨h.1, pushedTimes_push step c n ▸ h.2⟩
  | none =>
    obtain ⟨e, n, he, hout, hs⟩ := h
    exact ⟨e, n + 1, he, hout, pushedTimes_push step c n ▸ hs⟩

/-- The attempts over logs that stay readable. -/
theorem eval_appendAttempts (htag : Function.Injective F.tag) (threadId : String)
    (step : ThreadStep) (n : Nat) {c : Option ThreadLog} {s : Solo B E} (h : Settled F key c s)
    (hread : ∀ log, c = some log → log.Readable)
    (hpush : ((c.getD ThreadLog.default).push step).Readable) :
    CopiesEnd F key c step (copies cl.faults n s.puts)
      ((cl.self.appendAttempts cl.showEtag key threadId step n).eval
        (cl.handle F) s) := by
  induction n generalizing c s with
  | zero => exact ⟨_, 0, rfl, trivial, h⟩
  | succ n ih =>
    have hend := eval_appendStepLocked cl htag h (fun log hl => Or.inl (hread log hl)) threadId step
    rw [ThreadStore.appendAttempts, Program.bind_eq, Program.eval_bind, copies]
    cases hout : (cl.self.appendStepLocked cl.showEtag key threadId
        step).eval (cl.handle F) s with
    | mk s' r =>
      rw [hout] at hend
      cases hresult : attempt cl.faults SAFE_STORAGE_RETRY_DELAYS_MS.length s.puts false with
      | written next =>
        rw [hresult] at hend
        obtain ⟨rfl, hs', -⟩ := hend
        exact ⟨rfl, hs'⟩
      | conflict next =>
        rw [hresult] at hend
        obtain ⟨⟨msg, rfl⟩, hs', hputs⟩ := hend
        have hagain := ih (hs'.remove cl.store) (fun log hl => Option.some.inj hl ▸ hpush)
          hpush.push_again
        change CopiesEnd F key c step ((copies cl.faults n next).map (· + 1))
          (((cl.self.cacheRemove key).bind fun _ =>
            cl.self.appendAttempts cl.showEtag key threadId step n).eval
              (cl.handle F) s')
        rw [Program.eval_bind_of (eval_cacheRemove cl s'), ← hputs]
        exact CopiesEnd.again hagain
      | gaveUp =>
        rw [hresult] at hend
        obtain ⟨e, rfl, hretry, hs'⟩ := hend
        rcases hs' with hs' | hs'
        · exact ⟨.storage e, 0, rfl, hretry, hs'⟩
        · exact ⟨.storage e, 1, rfl, hretry, hs'⟩

/-- A log that cannot be read ends the append at once. -/
theorem eval_appendAttempts_stuck {log : ThreadLog} {s : Solo B E} (h : Settled F key (some log) s)
    (hcache : s.kernel.logs cl.store key = none) (hread : ¬ log.Readable) (threadId : String)
    (step : ThreadStep) (n : Nat) : ∃ s' e,
    (cl.self.appendAttempts cl.showEtag key threadId step n).eval
      (cl.handle F) s = (s', .error e) := by
  cases n with
  | zero => exact ⟨s, _, rfl⟩
  | succ n =>
    obtain ⟨s', e, hfail, he⟩ := eval_appendStepLocked_unreadable cl h hcache hread threadId step
    rw [ThreadStore.appendAttempts, Program.bind_eq, Program.eval_bind_of hfail]
    cases e with
    | auditConflict msg => exact absurd rfl (he msg)
    | _ => exact ⟨s', _, rfl⟩

/-- A successful append leaves one or more copies over the log it started from. Only a log that reads
back gets a second copy: the next attempt has to read what the last one wrote. -/
theorem eval_appendAttempts_ok (htag : Function.Injective F.tag) (threadId : String)
    (step : ThreadStep) (n : Nat) {c : Option ThreadLog} {s : Solo B E} (h : Settled F key c s)
    (hl : ∀ log, c = some log → Loadable cl.store key s log) {s' : Solo B E}
    (heval : (cl.self.appendAttempts cl.showEtag key threadId step n).eval (cl.handle F) s =
      (s', .ok ())) : ∃ k,
    Settled F key (some (pushTimes step (k + 1) (c.getD ThreadLog.default))) s' ∧
    Loadable cl.store key s' (pushTimes step (k + 1) (c.getD ThreadLog.default)) ∧
    (¬ ((c.getD ThreadLog.default).push step).Readable → k = 0) := by
  induction n generalizing c s with
  | zero => cases heval
  | succ n ih =>
    have hend := eval_appendStepLocked cl htag h hl threadId step
    rw [ThreadStore.appendAttempts, Program.bind_eq, Program.eval_bind] at heval
    cases hout : (cl.self.appendStepLocked cl.showEtag key threadId step).eval (cl.handle F) s with
    | mk m r =>
      rw [hout] at hend heval
      cases hresult : attempt cl.faults SAFE_STORAGE_RETRY_DELAYS_MS.length s.puts false with
      | written next =>
        rw [hresult] at hend
        obtain ⟨rfl, hm, -, hload⟩ := hend
        cases heval
        exact ⟨0, hm, hload, fun _ => rfl⟩
      | conflict next =>
        rw [hresult] at hend
        obtain ⟨⟨msg, rfl⟩, hm, -⟩ := hend
        change (((cl.self.cacheRemove key).bind fun _ =>
          cl.self.appendAttempts cl.showEtag key threadId step n).eval (cl.handle F) m) =
            (s', .ok ()) at heval
        rw [Program.eval_bind_of (eval_cacheRemove cl m)] at heval
        by_cases hpush : ((c.getD ThreadLog.default).push step).Readable
        · obtain ⟨k, hs', hload, -⟩ := ih (hm.remove cl.store)
            (fun log hlog => Or.inl (Option.some.inj hlog ▸ hpush)) heval
          exact ⟨k + 1, hs', hload, fun hdeep => absurd hpush hdeep⟩
        · obtain ⟨d, e, hstuck⟩ := eval_appendAttempts_stuck cl (hm.remove cl.store)
            (by simp [updateAt_apply]) hpush threadId step n
          rw [hstuck] at heval
          cases heval
      | gaveUp =>
        rw [hresult] at hend
        obtain ⟨e, rfl, -⟩ := hend
        cases heval

/-- A fresh store over a log that may not exist yet. -/
def Solo.start (F : Format B E) (key : String) (initial : Option ThreadLog) : Solo B E where
  kernel := { Kernel.init with
    objects := match initial with
      | none => SortedMap.empty
      | some log => SortedMap.empty.insert key (F.render log.toValue) }
  puts := 0

omit [DecidableEq E] in
theorem settled_start (F : Format B E) (key : String) (initial : Option ThreadLog) :
    Settled F key initial (Solo.start F key initial) where
  object := by cases initial <;> simp [Solo.start]
  caches _ _ h := nomatch h

theorem eval_appendStep {F : Format B E} {threadId : String} (hkey : cl.threadKey threadId = .ok key)
    (step : ThreadStep) (s : Solo B E) :
    (cl.self.appendStep cl.showEtag threadId step).eval
      (cl.handle F) s =
    (((cl.self.appendAttempts cl.showEtag key threadId step
        (AUDIT_MAX_CONFLICT_RETRIES + 1)).eval (cl.handle F)
        (s.setLock key true)).1.setLock key false,
      ((cl.self.appendAttempts cl.showEtag key threadId step
        (AUDIT_MAX_CONFLICT_RETRIES + 1)).eval (cl.handle F)
        (s.setLock key true)).2) := by
  simp only [ThreadStore.appendStep, cl.key_self hkey, eval_withLock]

omit [DecidableEq E] in
theorem Solo.start_logs (initial : Option ThreadLog) (owner : Nat) :
    ((Solo.start F.toFormat key initial).setLock key true).kernel.logs owner key = none := rfl

omit [DecidableEq E] in
/-- Copies that end in `Ok` are one copy exactly if the pattern of failures does not duplicate. -/
theorem copiesEnd_once_iff {initial : Option ThreadLog} {step : ThreadStep}
    {out : Solo B E × Except CoreError Unit} (hend : CopiesEnd F key initial step
      (copies cl.faults (AUDIT_MAX_CONFLICT_RETRIES + 1) 0) out) :
    (out.2 = .ok () → out.1.kernel.objects.get key =
      some (F.render ((initial.getD ThreadLog.default).push step).toValue)) ↔
    duplicates cl.faults = false := by
  constructor
  · intro honce
    rw [Bool.eq_false_iff]
    intro hdup
    obtain ⟨k, hk, hne⟩ := duplicates_iff.mp hdup
    rw [hk] at hend
    obtain ⟨j, rfl⟩ := Nat.exists_eq_add_one.mpr (copies_pos hk)
    have hdoc := hend.2.object.symm.trans (honce hend.1)
    have hvalue := F.render_injective (Option.some.inj hdoc)
    have hlen := congrArg List.length (ThreadLog.alike_iff.mp hvalue).steps
    simp only [List.length_map, pushTimes_steps_length, ThreadLog.push, List.length_append,
      List.length_singleton] at hlen
    omega
  · intro hfalse hok
    cases hk : copies cl.faults (AUDIT_MAX_CONFLICT_RETRIES + 1) 0 with
    | none =>
      rw [hk] at hend
      obtain ⟨e, -, he, -⟩ := hend
      rw [he] at hok
      cases hok
    | some k =>
      rw [hk] at hend
      have hone : k = 1 := by
        by_contra hne
        rw [duplicates_iff.mpr ⟨k, hk, hne⟩] at hfalse
        cases hfalse
      subst hone
      exact hend.2.object

/-- An append that returns `Ok` leaves the log with exactly one more step, unless the pattern of
failures duplicates over logs that can be read back. -/
theorem appendStep_exactlyOnce_iff (htag : Function.Injective F.tag) {threadId : String}
    (hkey : cl.threadKey threadId = .ok key) (initial : Option ThreadLog) (step : ThreadStep) :
    (∀ s', (cl.self.appendStep cl.showEtag threadId step).eval
        (cl.handle F) (Solo.start F key initial) = (s', .ok ()) →
      s'.kernel.objects.get key =
        some (F.render ((initial.getD ThreadLog.default).push step).toValue)) ↔
    ((∀ log, initial = some log → log.Readable) →
      ((initial.getD ThreadLog.default).push step).Readable → duplicates cl.faults = false) := by
  have hstart : Settled F.toFormat key initial ((Solo.start F.toFormat key initial).setLock key true) :=
    ⟨(settled_start F.toFormat key initial).object, (settled_start F.toFormat key initial).caches⟩
  rw [eval_appendStep cl hkey]
  by_cases hread : ∀ log, initial = some log → log.Readable
  · by_cases hpush : ((initial.getD ThreadLog.default).push step).Readable
    · have hend := eval_appendAttempts cl htag threadId step (AUDIT_MAX_CONFLICT_RETRIES + 1) hstart
        hread hpush
      have honce := copiesEnd_once_iff cl hend
      constructor
      · refine fun h _ _ => honce.mp fun hok => ?_
        have hobject := h _ (Prod.ext rfl hok)
        exact hobject
      · intro hnodup s' hs'
        rw [Prod.mk.injEq] at hs'
        rw [← hs'.1]
        exact honce.mpr (hnodup hread hpush) hs'.2
    · constructor
      · exact fun _ _ h => absurd h hpush
      · intro _ s' hs'
        rw [Prod.mk.injEq] at hs'
        obtain ⟨k, hsettled, -, hzero⟩ := eval_appendAttempts_ok cl htag threadId step
          (AUDIT_MAX_CONFLICT_RETRIES + 1) hstart (fun log hl => Or.inl (hread log hl))
          (Prod.ext rfl hs'.2)
        rw [hzero hpush] at hsettled
        rw [← hs'.1]
        exact hsettled.object
  · constructor
    · exact fun _ h => absurd h hread
    · intro _ s' hs'
      rw [Prod.mk.injEq] at hs'
      push Not at hread
      obtain ⟨log, rfl, hlog⟩ := hread
      obtain ⟨d, e, hstuck⟩ := eval_appendAttempts_stuck cl hstart (Solo.start_logs _ cl.store) hlog
        threadId step (AUDIT_MAX_CONFLICT_RETRIES + 1)
      rw [hstuck] at hs'
      cases hs'.2

/-- A client of the plain format whose thread ids are its keys. -/
def plainClient (faults : Nat → Fault) : Client Json := ⟨faults, 0, .ok, fun _ => ""⟩

/-- An append to an empty storage that answers every put. -/
def answeredAppend : Solo Json Json × Except CoreError Unit :=
  ((plainClient fun _ => .answer).self.appendStep (fun _ => "") "thread" (message "one")).eval
    ((plainClient fun _ => .answer).handle Format.plain) (Solo.start Format.plain "thread" none)

/-- A storage that answers every put keeps appends exactly once. -/
theorem appendStep_exactlyOnce_answered :
    answeredAppend.2 = .ok () ∧ answeredAppend.1.kernel.objects.get "thread" =
      some (Format.plain.render (ThreadLog.default.push (message "one")).toValue) := by
  have hok : answeredAppend.2 = .ok () := by decide +kernel
  exact ⟨hok, (appendStep_exactlyOnce_iff (plainClient fun _ => .answer)
    Format.plain_tag_injective rfl none (message "one")).mpr (fun _ _ => by decide)
    answeredAppend.1 (Prod.ext rfl hok)⟩

/-- The first put times out after it was applied; every later put is answered. -/
def timeoutOnce : Nat → Fault
  | 0 => .lose ⟨.timeout "put", rfl⟩
  | _ + 1 => .answer

/-- The retry meets its own write, and the append returns `Ok` over two copies of the step. -/
theorem appendStep_duplicates_step :
    ∃ s', ((plainClient timeoutOnce).self.appendStep (fun _ => "") "thread" (message "one")).eval
        ((plainClient timeoutOnce).handle Format.plain) (Solo.start Format.plain "thread" none) =
          (s', .ok ()) ∧
      s'.kernel.objects.get "thread" =
        some (Format.plain.render
          ((ThreadLog.default.push (message "one")).push (message "one")).toValue) ∧
      s'.kernel.objects.get "thread" ≠
        some (Format.plain.render (ThreadLog.default.push (message "one")).toValue) := by
  refine ⟨_, Prod.ext rfl ?_, ?_, ?_⟩
  · decide +kernel
  · decide +kernel
  · decide +kernel

end ReactRuntime.Session
