import ReactRuntime.Session.Legible

/-!
# Runs of observed calls

Observed calls run one after the other, each through its own store, over a storage
that may lose the answers of its conditional puts. As long as every result can be
read, every store can read the log and append to it. A result is read back as it was
if its floats are.
-/
namespace ReactRuntime.Session
open Library Serde ReactRuntime.Core Storage

theorem ToolObservation.payload_mapJson (f : Json → Json) (o : ToolObservation) :
    (o.mapJson f).payload = o.payload.map f := by
  simp only [payload, mapJson, SortedMap.get_mapValues, Option.map_or]

/-- The call as a reader sees it. -/
def ToolStepMeta.mapJson (f : Json → Json) (info : ToolStepMeta) : ToolStepMeta :=
  { info with args := f info.args, ctx := info.ctx.map (·.mapJson f) }

theorem ToolStepMeta.mapJson_endStep (f : Json → Json) (info : ToolStepMeta) (stamp : ToolStamp)
    (status : ToolStepStatus) (obs : ToolObservation) :
    (info.endStep stamp status obs).mapJson f =
      (info.mapJson f).endStep stamp status (obs.mapJson f) := by
  rw [endStep, endStep, ToolObservation.payload_mapJson]
  rfl

/-- An observation is read as it was before its documents were changed exactly if they were not and
no key of the tool shadows a field. -/
theorem ToolObservation.fromValue_mapJson_iff {f : Json → Json} {o : ToolObservation} :
    fromValue (o.mapJson f).toValue = .ok o ↔
      o.Unshadowed ∧ ∀ k v, o.extra.get k = some v → f v = v := by
  have hsame : (o.mapJson f).Unshadowed ↔ o.Unshadowed := by
    simp only [Unshadowed, mapJson, SortedMap.get_mapValues, Option.map_eq_some_iff]
    constructor
    · exact fun h k v hv => h k (f v) ⟨v, hv, rfl⟩
    · rintro h k _ ⟨v, hv, -⟩
      exact h k v hv
  constructor
  · intro h
    obtain ⟨-, -, -, hextra⟩ := fromValue_toValue_eq_ok.mp h
    have hown : o.Unshadowed := by
      intro k v hv hk
      rw [hextra, SortedMap.get_filterKeys] at hv
      simp [hk] at hv
    have hread := fromValue_toValue_iff.mpr (hsame.mpr hown)
    have heq : o.mapJson f = o := Except.ok.inj (hread.symm.trans h)
    refine ⟨hown, fun k v hv => ?_⟩
    have hget := congrArg (fun o : ToolObservation => o.extra.get k) heq
    simp only [mapJson, SortedMap.get_mapValues, hv, Option.map_some] at hget
    exact Option.some.inj hget
  · rintro ⟨hown, hfixed⟩
    have heq : o.mapJson f = o := by
      have hextra : o.extra.mapValues f = o.extra := by
        refine SortedMap.ext_get fun k => ?_
        rw [SortedMap.get_mapValues]
        cases hv : o.extra.get k with
        | none => rfl
        | some v => rw [Option.map_some, hfixed k v hv]
      rw [mapJson, hextra]
    rw [heq]
    exact fromValue_toValue_iff.mpr hown

/-- The end step is read with its own observation exactly then. -/
theorem ToolStepMeta.reread_endStep_iff {f : Json → Json} {info : ToolStepMeta} {stamp : ToolStamp}
    {status : ToolStepStatus} {obs : ToolObservation} :
    (∃ payload, ((info.endStep stamp status obs).mapJson f).reread =
      .ok (.toolEnd stamp.toolId info.name info.cleanName (f info.args) status payload
        (info.ctx.map (·.mapJson f)) obs stamp.endTs info.agent)) ↔
      obs.Unshadowed ∧ ∀ k v, obs.extra.get k = some v → f v = v := by
  rw [mapJson_endStep, endStep, ThreadStep.reread, ← ToolObservation.fromValue_mapJson_iff]
  constructor
  · rintro ⟨payload, h⟩
    obtain ⟨o, ho, hstep⟩ := De.map_eq_ok.mp h
    simp only [ThreadStep.toolEnd.injEq] at hstep
    rw [ho, hstep.2.2.2.2.2.2.2.1]
  · intro h
    rw [h]
    exact ⟨_, rfl⟩

section Store
variable {B E : Type} [DecidableEq E] {F : SerdeFormat B E} (cl : Client E) {key threadId : String}

/-- A store that has just been built has cached nothing. -/
def Solo.reopen (s : Solo B E) (store : Nat) : Solo B E :=
  ⟨{ s.kernel with logs := Function.update s.kernel.logs store fun _ => none }, s.puts⟩

omit [DecidableEq E] in
theorem Legible.reopen {s : Solo B E} (h : Legible F key s) (store : Nat) :
    Legible F key (s.reopen store) := by
  refine ⟨h.stored, fun owner entry hentry => ?_⟩
  simp only [Solo.reopen, Function.update_apply] at hentry
  split_ifs at hentry
  exact h.cached owner entry hentry

structure ObservedCall (T : Type) where
  store : Nat
  info : ToolStepMeta
  stamp : ToolStamp
  result : Except String T
  toObservation : T → Except String Json

variable {T : Type}

namespace ObservedCall
variable (call : ObservedCall T)

def run (F : Format B E) (threadId : String) (s : Solo B E) : Solo B E × Except String T :=
  (((cl.at call.store).self.observer cl.showEtag threadId).runObserved call.info call.stamp
    (.ret call.result) call.toObservation).eval ((cl.at call.store).handle F) s

def startStep : ThreadStep := call.info.startStep call.stamp

def endStep : ThreadStep := call.info.endStepOf call.stamp call.toObservation call.result

/-- The steps of the call can be read: the result of a successful tool uses no name of the kernel, and
nothing in the call is nested too deep. -/
structure Readable : Prop where
  fits : call.info.Fits (RECURSION_LIMIT - 3)
  extra : ∀ value raw, call.result = .ok value → call.toObservation value = .ok raw →
    ∀ k v, (ToolObservation.extraFromValue raw).get k = some v →
      k ∉ ToolObservation.ownKeys ∧ v.depth + 4 ≤ RECURSION_LIMIT

/-- The result is also read as it was: each of its floats is read from its digits as itself. -/
structure Clean (readFloat : UInt64 → UInt64) : Prop extends call.Readable where
  steady : ∀ value raw, call.result = .ok value → call.toObservation value = .ok raw →
    ∀ k v, (ToolObservation.extraFromValue raw).get k = some v → v.Steady readFloat

end ObservedCall

/-- Run the calls in order. -/
def runCalls (F : Format B E) (threadId : String) :
    List (ObservedCall T) → Solo B E → Solo B E
  | [], s => s
  | call :: calls, s => runCalls F threadId calls (call.run cl F threadId s).1

/-- A store that has just been built gets the log, and finds the end step of the call with the
observation that its result asked for. -/
def ReadsBack (F : SerdeFormat B E) (threadId : String) (call : ObservedCall T) (raw : Json)
    (s : Solo B E) : Prop :=
  ∀ store, ∃ log payload,
    (((cl.at store).self.get threadId).eval ((cl.at store).handle F) (s.reopen store)).2 = .ok log ∧
    log.steps.getLast? = some (.toolEnd call.stamp.toolId call.info.name call.info.cleanName
      (call.info.args.readBack F.readFloat) .ok payload
      (call.info.ctx.map (·.mapJson (Json.readBack F.readFloat)))
      ⟨true, [], [], ToolObservation.extraFromValue raw⟩ call.stamp.endTs call.info.agent)

/-- No store fails to parse the log: a `get` fails only if there is no log, and an append of a step
that reads back fails only because of the storage. -/
structure Usable (F : Format B E) (key threadId : String) (s : Solo B E) : Prop where
  get : ∀ store e, (((cl.at store).self.get threadId).eval ((cl.at store).handle F) s).2 =
    .error e → s.kernel.objects.get key = none
  append : ∀ store step e, StepFits step →
    (((cl.at store).self.appendStep cl.showEtag threadId step).eval
      ((cl.at store).handle F) s).2 = .error e → Outage e

namespace ObservedCall
variable {call : ObservedCall T}

theorem Readable.start (h : call.Readable) : StepFits call.startStep where
  parses := ToolStepMeta.parses_startStep
  depth := Nat.add_le_add_right (ToolStepMeta.depth_startStep_le.mpr h.fits) 2

/-- The observation of a call, whatever its result, shadows nothing and is not too deep. -/
theorem Readable.observation (h : call.Readable) (k : String) (v : Json)
    (hv : (call.info.outcome call.toObservation call.result).2.1.extra.get k = some v) :
    k ∉ ToolObservation.ownKeys ∧ v.depth ≤ 123 := by
  unfold ToolStepMeta.outcome at hv
  cases hresult : call.result with
  | error e =>
    rw [hresult] at hv
    cases hv
  | ok value =>
    rw [hresult] at hv
    cases hraw : call.toObservation value with
    | error e =>
      simp only [hraw] at hv
      cases hv
    | ok raw =>
      simp only [hraw] at hv
      have hk := h.extra value raw hresult hraw k v hv
      exact ⟨hk.1, Nat.le_of_add_le_add_right hk.2⟩

theorem depth_payload_le {o : ToolObservation} {n : Nat}
    (h : ∀ k v, o.extra.get k = some v → v.depth ≤ n) : (De.option id o.payload).depth ≤ n := by
  rw [depth_option_le]
  intro v hv
  rw [ToolObservation.payload, Option.or_eq_some_iff] at hv
  rcases hv with hv | ⟨-, hv⟩
  · exact h _ v hv
  · exact h _ v hv

theorem Readable.finish (h : call.Readable) : StepFits call.endStep := by
  have hdepth : ∀ k v, (call.info.outcome call.toObservation call.result).2.1.extra.get k = some v →
      v.depth ≤ 123 := fun k v hv => (h.observation k v hv).2
  refine ⟨⟨_, (ThreadStep.fromValue_toValue _).trans
    (ToolStepMeta.reread_endStep fun k v hv => (h.observation k v hv).1)⟩,
    Nat.add_le_add_right (ToolStepMeta.depth_endStep_le.mpr ⟨h.fits, ?_, ?_⟩) 2⟩
  · exact (depth_payload_le hdepth).trans (Nat.le_succ 123)
  · exact ToolObservation.depth_toValue_le.mpr hdepth

/-- The append of a step through the store of the call. -/
abbrev append (F : Format B E) (threadId : String) (step : ThreadStep) (s : Solo B E) :
    Solo B E × Except CoreError Unit :=
  ((cl.at call.store).self.appendStep cl.showEtag threadId step).eval
    ((cl.at call.store).handle F) s

theorem run_of_start_error {s m : Solo B E} {e : CoreError}
    (hstart : call.append cl F threadId call.startStep s = (m, .error e)) :
    call.run cl F threadId s = (m, .error ("audit unavailable (tool_start): " ++ e.display)) :=
  Observer.eval_runObserved_of_start hstart

theorem run_of_start {s m : Solo B E}
    (hstart : call.append cl F threadId call.startStep s = (m, .ok ())) :
    call.run cl F threadId s =
      (((cl.at call.store).self.appendStep cl.showEtag threadId call.endStep).bind fun r =>
        match r with
        | .error e => .ret (.error ("audit unavailable (tool_end): " ++ e.display))
        | .ok () => .ret (call.info.outcome call.toObservation call.result).2.2).eval
          ((cl.at call.store).handle F) m :=
  Observer.eval_runObserved_of_operation hstart
    (show _ = (m, call.result) from rfl)

theorem run_of_finish_error {s m d : Solo B E} {e : CoreError}
    (hstart : call.append cl F threadId call.startStep s = (m, .ok ()))
    (hend : call.append cl F threadId call.endStep m = (d, .error e)) :
    call.run cl F threadId s = (d, .error ("audit unavailable (tool_end): " ++ e.display)) := by
  rw [run_of_start cl hstart, Program.eval_bind_of hend]
  rfl

theorem run_of_finish {s m d : Solo B E}
    (hstart : call.append cl F threadId call.startStep s = (m, .ok ()))
    (hend : call.append cl F threadId call.endStep m = (d, .ok ())) :
    call.run cl F threadId s = (d, (call.info.outcome call.toObservation call.result).2.2) := by
  rw [run_of_start cl hstart, Program.eval_bind_of hend]
  rfl

/-- A call that returned a value has appended both of its steps. -/
theorem run_eq_ok {s s' : Solo B E} {value : T}
    (h : call.run cl F threadId s = (s', .ok value)) : ∃ m,
    call.append cl F threadId call.startStep s = (m, .ok ()) ∧
    call.append cl F threadId call.endStep m = (s', .ok ()) := by
  cases hstart : call.append cl F threadId call.startStep s with
  | mk m r =>
    cases r with
    | error e =>
      rw [run_of_start_error cl hstart] at h
      cases h
    | ok _ =>
      cases hend : call.append cl F threadId call.endStep m with
      | mk d r =>
        cases r with
        | error e =>
          rw [run_of_finish_error cl hstart hend] at h
          cases h
        | ok _ =>
          rw [run_of_finish cl hstart hend, Prod.mk.injEq] at h
          exact ⟨m, rfl, h.1 ▸ hend⟩

theorem append_legible (call : ObservedCall T) (hkey : cl.threadKey threadId = .ok key)
    {step : ThreadStep} (hstep : StepFits step) {s : Solo B E} (h : Legible F key s) :
    PushEnd F.toFormat key step (call.append cl F threadId step s) :=
  eval_appendStep_legible (cl.at call.store) hkey hstep h

/-- A call whose steps can be read leaves legible logs, whether or not its appends succeed. -/
theorem Readable.run (hkey : cl.threadKey threadId = .ok key) {s : Solo B E}
    (h : Legible F key s) (hcall : call.Readable) :
    Legible F key (call.run cl F threadId s).1 := by
  cases hstart : call.append cl F threadId call.startStep s with
  | mk m r =>
    have hm := (append_legible cl call hkey hcall.start h).legible
    rw [hstart] at hm
    cases r with
    | error e => rwa [run_of_start_error cl hstart]
    | ok _ =>
      cases hend : call.append cl F threadId call.endStep m with
      | mk d r =>
        have hd := (append_legible cl call hkey hcall.finish hm).legible
        rw [hend] at hd
        cases r with
        | error e => rwa [run_of_finish_error cl hstart hend]
        | ok _ => rwa [run_of_finish cl hstart hend]

/-- A store that has just been built reads what is stored. -/
theorem eval_get_reopened (hkey : cl.threadKey threadId = .ok key) {s : Solo B E} {bytes : B}
    (hobject : s.kernel.objects.get key = some bytes) (store : Nat) :
    (((cl.at store).self.get threadId).eval ((cl.at store).handle F) (s.reopen store)).2 =
      readStored F.toFormat key threadId bytes := by
  have hcache : (s.reopen store).kernel.logs (cl.at store).store key = none := by
    simp [Solo.reopen, Client.at]
  exact eval_get_uncached (cl.at store) hkey hobject hcache

/-- The last step of a log that was read back. -/
theorem getLast?_of_readBack {log log' : ThreadLog} {step : ThreadStep} {f : Json → Json}
    (h : ThreadLog.fromValue ((log.push step).mapJson f).toValue = .ok log') :
    ∃ step', log'.steps.getLast? = some step' ∧ (step.mapJson f).reread = .ok step' := by
  apply ThreadLog.getLast?_of_fromValue h
  simp [ThreadLog.mapJson, ThreadLog.push]

theorem endStep_of_ok {value : T} {raw : Json} (hresult : call.result = .ok value)
    (hraw : call.toObservation value = .ok raw) :
    call.endStep = call.info.endStep call.stamp .ok (.fromSuccess raw) := by
  rw [endStep, hresult, ToolStepMeta.endStepOf_success call.info call.stamp hraw]

section ReadBack
variable {s s' : Solo B E} {value : T} {raw : Json} (hkey : cl.threadKey threadId = .ok key)
  (hresult : call.result = .ok value) (hraw : call.toObservation value = .ok raw)
  (hrun : call.run cl F threadId s = (s', .ok value))
include hkey hresult hraw hrun

/-- What a new store reads was stored, and so neither shadowed nor too deep. -/
theorem clean_of_readsBack (hback : ReadsBack cl F threadId call raw s') :
    call.Clean F.readFloat := by
  obtain ⟨m, hstart, hend⟩ := run_eq_ok cl hrun
  obtain ⟨log, hobject⟩ := eval_appendStep_stored (cl.at call.store) hkey hend
  obtain ⟨read, payload, hget, hlast⟩ := hback 0
  rw [eval_get_reopened cl hkey hobject, readStored_eq_ok] at hget
  obtain ⟨hdepth, hfrom, -⟩ := hget
  obtain ⟨step', hstep', hreread⟩ := getLast?_of_readBack hfrom
  rw [hlast, Option.some.injEq] at hstep'
  rw [← hstep', endStep_of_ok hresult hraw] at hreread
  obtain ⟨hown, hfixed⟩ := ToolStepMeta.reread_endStep_iff.mp ⟨payload, hreread⟩
  have hfits : call.endStep.toValue.depth ≤ 124 + 1 :=
    (ThreadLog.depth_toValue_le.mp hdepth).1 _ (by simp [ThreadLog.push])
  rw [endStep_of_ok hresult hraw, ToolStepMeta.depth_endStep_le] at hfits
  obtain ⟨hinfo, -, hobs⟩ := hfits
  refine ⟨⟨hinfo, fun value' raw' hvalue' hraw' k v hv => ?_⟩,
    fun value' raw' hvalue' hraw' k v hv => ?_⟩
  all_goals
    obtain rfl := Except.ok.inj (hresult.symm.trans hvalue')
    obtain rfl := Except.ok.inj (hraw.symm.trans hraw')
  · exact ⟨hown k v hv, Nat.add_le_add_right (ToolObservation.depth_toValue_le.mp hobs k v hv) 4⟩
  · exact Json.readBack_eq_self_iff.mp (hfixed k v hv)

theorem readsBack_of_clean (h : Legible F key s) (hclean : call.Clean F.readFloat) :
    ReadsBack cl F threadId call raw s' := by
  obtain ⟨m, hstart, hend⟩ := run_eq_ok cl hrun
  intro store
  have hm := (append_legible cl call hkey hclean.start h).legible
  rw [hstart] at hm
  have hpush := append_legible cl call hkey hclean.finish hm
  rw [hend] at hpush
  obtain ⟨log, hlog, hobject⟩ := hpush.pushed rfl
  have hread := hlog.push hclean.finish.parses hclean.finish.depth
  have hback : ((log.push call.endStep).mapJson (Json.readBack F.readFloat)).Readable :=
    hread.mapJson
  obtain ⟨log', hfrom⟩ := ThreadLog.fromValue_isOk.mpr hback.steps
  have halike := ThreadLog.alike_iff.mp (ThreadLog.toValue_of_fromValue hfrom)
  obtain ⟨step', hlast, hreread⟩ := getLast?_of_readBack hfrom
  have hown : (ToolObservation.fromSuccess raw).Unshadowed :=
    fun k v hv => (hclean.extra value raw hresult hraw k v hv).1
  have hfixed : ∀ k v, (ToolObservation.fromSuccess raw).extra.get k = some v →
      v.readBack F.readFloat = v :=
    fun k v hv => Json.readBack_eq_self_iff.mpr (hclean.steady value raw hresult hraw k v hv)
  obtain ⟨payload, hfound⟩ := ToolStepMeta.reread_endStep_iff.mpr ⟨hown, hfixed⟩
  rw [endStep_of_ok hresult hraw] at hreread
  obtain rfl := Except.ok.inj (hreread.symm.trans hfound)
  exact ⟨log', payload, (eval_get_reopened cl hkey hobject store).trans
    (readStored_eq_ok.mpr ⟨hread.depth, hfrom, halike.schemaVersion.trans hback.schema⟩), hlast⟩

end ReadBack

end ObservedCall

/-- Legible logs are usable by every store. -/
theorem Legible.usable (hkey : cl.threadKey threadId = .ok key) {s : Solo B E}
    (h : Legible F key s) : Usable cl F key threadId s where
  get store _ he := eval_get_legible (cl.at store) hkey h he
  append store _ _ hstep he := (eval_appendStep_legible (cl.at store) hkey hstep h).failed _ he

theorem legible_runCalls (hkey : cl.threadKey threadId = .ok key) {calls : List (ObservedCall T)}
    (hcalls : ∀ call ∈ calls, call.Readable) {s : Solo B E} (h : Legible F key s) :
    Legible F key (runCalls cl F threadId calls s) := by
  induction calls generalizing s with
  | nil => exact h
  | cons call calls ih =>
    have hfirst := (hcalls call List.mem_cons_self).run cl hkey h
    exact ih (fun later hlater => hcalls later (List.mem_cons_of_mem call hlater)) hfirst

/-- After calls whose steps can be read every store can read the log and append to it, and the result
of a further call reads back exactly if that call is clean. -/
theorem observedCalls_readBack_iff (hkey : cl.threadKey threadId = .ok key) {s : Solo B E}
    (h : Legible F key s) (calls : List (ObservedCall T)) (hcalls : ∀ call ∈ calls, call.Readable) :
    (∀ store, Usable cl F key threadId (runCalls cl F threadId calls s) ∧
      Usable cl F key threadId ((runCalls cl F threadId calls s).reopen store)) ∧
    ∀ (call : ObservedCall T) (value : T) (raw : Json) (s' : Solo B E), call.result = .ok value →
      call.toObservation value = .ok raw →
      call.run cl F threadId (runCalls cl F threadId calls s) = (s', .ok value) →
      (ReadsBack cl F threadId call raw s' ↔ call.Clean F.readFloat) := by
  have hafter := legible_runCalls cl hkey hcalls h
  refine ⟨fun store => ⟨hafter.usable cl hkey, (hafter.reopen store).usable cl hkey⟩, ?_⟩
  intro call value raw s' hresult hraw hrun
  exact ⟨ObservedCall.clean_of_readsBack cl hkey hresult hraw hrun,
    ObservedCall.readsBack_of_clean cl hkey hresult hraw hrun hafter⟩

end Store

/-- The digits `31.245270191439438` are read as those of the next float. -/
abbrev reread : SerdeFormat Json Json :=
  SerdeFormat.plain fun bits => if bits = 0x403f3eca06faea82 then 0x403f3eca06faea83 else bits

/-- A call of a tool that returns the given document. -/
def plainCall (v : Json) : ObservedCall Json :=
  ⟨0, ⟨"agent", "agent_loop", "run_sql", "Run SQL", .object [], none⟩,
    ⟨"id", "t0", "t1", "t2"⟩, .ok v, .ok⟩

/-- The state after that call, made on a thread that does not exist yet. -/
def afterPlainCall (v : Json) : Solo Json Json :=
  ((plainCall v).run (plainClient fun _ => .answer) reread.toFormat "thread"
    (Solo.start reread.toFormat "thread" none)).1

/-- A count, and a float that is read as it was. -/
def rowCount : Json := .object [("rows", .num (.posInt 3)), ("share", .num (.float 0x3fe0000000000000))]

theorem mem_rowCount {k : String} {v : Json}
    (h : (ToolObservation.extraFromValue rowCount).get k = some v) :
    k = "rows" ∧ v = .num (.posInt 3) ∨ k = "share" ∧ v = .num (.float 0x3fe0000000000000) := by
  have hmem := SortedMap.mem_entries_of_get h
  have hentries : (ToolObservation.extraFromValue rowCount).entries =
      [("rows", .num (.posInt 3)), ("share", .num (.float 0x3fe0000000000000))] := by decide
  rw [hentries] at hmem
  simpa using hmem

theorem plainCall_clean_rowCount : (plainCall rowCount).Clean reread.readFloat where
  fits := ⟨by decide, by decide⟩
  extra value raw hresult hraw k v hv := by
    cases hresult
    cases hraw
    obtain ⟨rfl, rfl⟩ | ⟨rfl, rfl⟩ := mem_rowCount hv
    · exact ⟨by decide, by decide⟩
    · exact ⟨by decide, by decide⟩
  steady value raw hresult hraw k v hv := by
    cases hresult
    cases hraw
    obtain ⟨rfl, rfl⟩ | ⟨rfl, rfl⟩ := mem_rowCount hv
    · exact .num rfl
    · exact .num (by decide)

/-- A result with a float is read back by every new store. -/
theorem observedCalls_readBack_rowCount :
    ReadsBack (plainClient fun _ => .answer) reread "thread" (plainCall rowCount) rowCount
      (afterPlainCall rowCount) := by
  have hok : ((plainCall rowCount).run (plainClient fun _ => .answer) reread.toFormat "thread"
      (Solo.start reread.toFormat "thread" none)).2 = .ok rowCount := by
    decide +kernel
  have hrun : (plainCall rowCount).run (plainClient fun _ => .answer) reread.toFormat "thread"
      (runCalls (plainClient fun _ => .answer) reread.toFormat "thread" ([] : List (ObservedCall Json))
        (Solo.start reread.toFormat "thread" none)) = (afterPlainCall rowCount, .ok rowCount) :=
    Prod.ext rfl hok
  have hstart : Legible reread.toFormat "thread" (Solo.start reread.toFormat "thread" none) :=
    legible_start (by simp)
  have hiff := (observedCalls_readBack_iff (plainClient fun _ => .answer) rfl hstart []
    (by simp)).2 (plainCall rowCount) rowCount rowCount _ rfl rfl hrun
  exact hiff.mpr plainCall_clean_rowCount

/-- A result with a key `ok` that is not a boolean. -/
def shadowingResult : Json := .object [("ok", .str "x")]

/-- The call returns `Ok`, and from then on a new store can neither read the log nor append to it. -/
theorem observedCalls_break_log :
    ((plainCall shadowingResult).run (plainClient fun _ => .answer) reread.toFormat "thread"
      (Solo.start reread.toFormat "thread" none)).2 = .ok shadowingResult ∧
    (∃ msg, ((((plainClient fun _ => .answer).at 0).self.get "thread").eval
      (((plainClient fun _ => .answer).at 0).handle reread.toFormat)
      ((afterPlainCall shadowingResult).reopen 0)).2 = .error (.session msg)) ∧
    (∃ msg, (((plainClient fun _ => .answer).self.appendStep (fun _ => "") "thread"
      (message "next")).eval ((plainClient fun _ => .answer).handle reread.toFormat)
      ((afterPlainCall shadowingResult).reopen 0)).2 = .error (.session msg)) ∧
    ¬ ReadsBack (plainClient fun _ => .answer) reread "thread" (plainCall shadowingResult)
      shadowingResult (afterPlainCall shadowingResult) := by
  have hget : ((((plainClient fun _ => .answer).at 0).self.get "thread").eval
      (((plainClient fun _ => .answer).at 0).handle reread.toFormat)
      ((afterPlainCall shadowingResult).reopen 0)).2 =
        .error (.session "failed to parse thread log: invalid type, expected a boolean") := by
    decide +kernel
  refine ⟨by decide +kernel, ⟨_, hget⟩, ?_, fun hback => ?_⟩
  · exact ⟨"failed to parse thread log: invalid type, expected a boolean", by decide +kernel⟩
  · obtain ⟨log, payload, hlog, -⟩ := hback 0
    cases hget.symm.trans hlog

end ReactRuntime.Session
