import ReactRuntime.Session.Codec

/-!
# What a fresh reader makes of a stored log

Every variant but one reads back as it was written, up to the optional raw values
whose `null` reads as absent. A tool observation is the exception: its flattened
keys share one object with the fields of the kernel.
-/
namespace ReactRuntime.Session
open Library Serde

@[simp] theorem list_strs (xs : List String) : De.list De.str (strs xs) = .ok xs :=
  De.mapM_map (f := Json.str) (fun _ => rfl) xs

@[simp] theorem Observation.fromValue_toValue (o : Observation) :
    Observation.fromValue o.toValue = .ok o := by
  simp [Observation.fromValue, Observation.toValue]

@[simp] theorem ExecutionContext.nullable_option (c : Option ExecutionContext) :
    De.nullable ExecutionContext.fromValue (De.option ExecutionContext.toValue c) = .ok c :=
  De.nullable_option (by simp [ExecutionContext.toValue])
    (fun c => by
      simp only [ExecutionContext.fromValue, ExecutionContext.toValue, De.fields, De.ok_bind,
        SortedMap.ofList_entries]) c

@[simp] theorem ToolStepStatus.fromValue_asStr (s : ToolStepStatus) :
    ToolStepStatus.fromValue (.str s.asStr) = .ok s := by
  cases s <;> rfl

@[simp] theorem RunLoopStopKind.fromValue_asStr (s : RunLoopStopKind) :
    RunLoopStopKind.fromValue (.str s.asStr) = .ok s := by
  cases s <;> rfl

@[simp] theorem LlmStepStatus.fromValue_asStr (s : LlmStepStatus) :
    LlmStepStatus.fromValue (.str s.asStr) = .ok s := by
  cases s <;> rfl

@[simp] theorem ArtifactSaveStatus.asStr_ofStr (s : String) :
    (ArtifactSaveStatus.ofStr s).asStr = s := by
  unfold ArtifactSaveStatus.ofStr
  split <;> rfl

namespace ThreadStep

/-- The step a fresh reader sees. -/
def reread : ThreadStep → Except String ThreadStep
  | .toolStart toolId name cleanName args status payload ctx ts agent =>
    .ok (.toolStart toolId name cleanName args status (De.dropNull payload) ctx ts agent)
  | .toolEnd toolId name cleanName args status payload ctx observation ts agent =>
    (ToolObservation.fromValue observation.toValue).map fun o =>
      .toolEnd toolId name cleanName args status (De.dropNull payload) ctx o ts agent
  | .phase phaseName fromPhase reasonCode reasonDetail observation ts agent =>
    .ok (.phase phaseName fromPhase reasonCode (De.dropNull reasonDetail) observation ts agent)
  | .artifactSaved kind name entityId key status linesAdded linesRemoved observation ts agent =>
    .ok (.artifactSaved kind name entityId key (.ofStr status.asStr) linesAdded linesRemoved
      observation ts agent)
  | .reviewResponse text extraMeta observation ts agent =>
    .ok (.reviewResponse text (De.dropNull extraMeta) observation ts agent)
  | s => .ok s

theorem fromValue_toValue (s : ThreadStep) : fromValue s.toValue = s.reread := by
  cases s with
  | switchSuite source target observation ts agent =>
    simp [fromValue, toValue, toFields, fromFields, readSwitchSuite, reread]
  | switchAgent source target observation ts agent =>
    simp [fromValue, toValue, toFields, fromFields, readSwitchAgent, reread]
  | user text observation ts agent =>
    simp [fromValue, toValue, toFields, fromFields, readUser, reread]
  | toolStart toolId name cleanName args status payload ctx ts agent =>
    simp [fromValue, toValue, toFields, fromFields, readToolStart, reread]
  | toolEnd toolId name cleanName args status payload ctx observation ts agent =>
    simp [fromValue, toValue, toFields, fromFields, readToolEnd, reread]
    cases ToolObservation.fromValue observation.toValue <;> rfl
  | llmStart callId model phaseName ctx ts agent =>
    simp [fromValue, toValue, toFields, fromFields, readLlmStart, reread]
  | llmEnd callId model phaseName status error ctx ts agent =>
    simp [fromValue, toValue, toFields, fromFields, readLlmEnd, reread]
  | llmCall callId model phaseName promptHash parts partHashes responseHash responseText observation ts
      agent =>
    simp [fromValue, toValue, toFields, fromFields, readLlmCall, reread]
  | phase phaseName fromPhase reasonCode reasonDetail observation ts agent =>
    simp [fromValue, toValue, toFields, fromFields, readPhase, reread]
  | guardBlock phaseName kind reason observation ts agent =>
    simp [fromValue, toValue, toFields, fromFields, readGuardBlock, reread]
  | runLoopStop kind reason observation ts agent =>
    simp [fromValue, toValue, toFields, fromFields, readRunLoopStop, reread]
  | artifactFocus kind name entityId exist observation ts agent =>
    simp [fromValue, toValue, toFields, fromFields, readArtifactFocus, reread]
  | artifactSaved kind name entityId key status linesAdded linesRemoved observation ts agent =>
    simp [fromValue, toValue, toFields, fromFields, readArtifactSaved, reread]
  | interrupt kind prompt observation ts agent =>
    simp [fromValue, toValue, toFields, fromFields, readInterrupt, reread]
  | reviewResponse text extraMeta observation ts agent =>
    simp [fromValue, toValue, toFields, fromFields, readReviewResponse, reread]
  | complete kind payload display observation ts agent =>
    simp [fromValue, toValue, toFields, fromFields, readComplete, reread]
  | checkpoint kind payload display observation ts agent =>
    simp [fromValue, toValue, toFields, fromFields, readCheckpoint, reread]

end ThreadStep
theorem strs_of_list {j : Json} {xs : List String} (h : De.list De.str j = .ok xs) :
    strs xs = j := by
  cases j with
  | arr js => exact congrArg Json.arr (De.map_of_mapM (fun _ _ _ hj => (De.str_eq_ok.mp hj).symm) h)
  | _ => cases h

namespace ToolObservation

/-- The document of an observation, as a map. -/
def document (o : ToolObservation) : SortedMap String Json :=
  SortedMap.ofList ([("ok", .bool o.ok), ("errors", strs o.errors), ("warnings", strs o.warnings)] ++
    o.extra.entries)

/-- A key of the tool wins over the field of the kernel that has the same name. -/
theorem get_document (o : ToolObservation) (k : String) :
    o.document.get k = (o.extra.get k).or (if k = "warnings" then some (strs o.warnings)
      else if k = "errors" then some (strs o.errors)
      else if k = "ok" then some (.bool o.ok) else none) := by
  rw [document, SortedMap.get_ofList, List.reverse_append, List.lookup_append,
    SortedMap.get_eq_lookup_reverse]
  simp [SortedMap.lookup_cons_ite]

theorem toValue_eq_document (o : ToolObservation) : o.toValue = .obj o.document.entries := rfl

/-- What a reader needs to find under the names of the kernel. -/
theorem fromValue_toValue_eq_ok {o o' : ToolObservation} : fromValue o.toValue = .ok o' ↔
    o.document.get "ok" = some (.bool o'.ok) ∧ o.document.get "errors" = some (strs o'.errors) ∧
    o.document.get "warnings" = some (strs o'.warnings) ∧
    o'.extra = o.document.filterKeys fun k => !ownKeys.contains k := by
  have hextra : SortedMap.ofList (o.document.entries.filter fun f => !ownKeys.contains f.1) =
      o.document.filterKeys fun k => !ownKeys.contains k :=
    SortedMap.ofList_entries (o.document.filterKeys fun k => !ownKeys.contains k)
  have hwarn : (o.document.get "warnings").isSome := by
    rw [get_document]
    simp
  obtain ⟨w, hw⟩ := Option.isSome_iff_exists.mp hwarn
  simp only [fromValue, toValue_eq_document, De.fields, De.ok_bind, De.bind_eq_ok, De.field_eq_ok,
    De.bool_eq_ok, De.defaultField_of_lookup (show o.document.entries.lookup "warnings" = some w
      from hw), hextra]
  constructor
  · rintro ⟨ok, ⟨v, hv, rfl⟩, errors, ⟨ve, he, hes⟩, warnings, hws, h⟩
    cases h
    exact ⟨hv, by rw [strs_of_list hes]; exact he, by rw [strs_of_list hws, hw], rfl⟩
  · rintro ⟨hok, herrors, hwarnings, hex⟩
    have hwv : w = strs o'.warnings := Option.some.inj (hw.symm.trans hwarnings)
    refine ⟨o'.ok, ⟨_, hok, rfl⟩, o'.errors, ⟨_, herrors, list_strs _⟩, o'.warnings, ?_, ?_⟩
    · rw [hwv, list_strs]
    · rw [← hex]

/-- An observation that a reader accepts is written back as the document it was read from. -/
theorem toValue_of_fromValue {o o' : ToolObservation} (h : fromValue o.toValue = .ok o') :
    o'.toValue = o.toValue := by
  obtain ⟨hok, herrors, hwarnings, hextra⟩ := fromValue_toValue_eq_ok.mp h
  rw [toValue_eq_document, toValue_eq_document]
  congr 2
  apply SortedMap.ext_get
  intro k
  rw [get_document o', hextra, SortedMap.get_filterKeys]
  by_cases hw : k = "warnings"
  · simp [hw, ownKeys, hwarnings]
  · by_cases he : k = "errors"
    · simp [he, ownKeys, herrors]
    · by_cases ho : k = "ok"
      · simp [ho, ownKeys, hok]
      · simp [hw, he, ho, ownKeys]

end ToolObservation

namespace ThreadStep

theorem toValue_of_reread {s s' : ThreadStep} (h : s.reread = .ok s') : s'.toValue = s.toValue := by
  cases s with
  | toolStart toolId name cleanName args status payload ctx ts agent =>
    cases h
    simp [toValue, toFields]
  | toolEnd toolId name cleanName args status payload ctx observation ts agent =>
    obtain ⟨o, ho, rfl⟩ := De.map_eq_ok.mp h
    simp [toValue, toFields, ToolObservation.toValue_of_fromValue ho]
  | phase phaseName fromPhase reasonCode reasonDetail observation ts agent =>
    cases h
    simp [toValue, toFields]
  | artifactSaved kind name entityId key status linesAdded linesRemoved observation ts agent =>
    cases h
    simp [toValue, toFields]
  | reviewResponse text extraMeta observation ts agent =>
    cases h
    simp [toValue, toFields]
  | _ =>
    cases h
    rfl

theorem toValue_of_fromValue {s s' : ThreadStep} (h : fromValue s.toValue = .ok s') :
    s'.toValue = s.toValue :=
  toValue_of_reread (fromValue_toValue s ▸ h)

end ThreadStep

namespace ThreadResult

@[simp] theorem nullable_option (r : Option ThreadResult) :
    De.nullable fromValue (De.option toValue r) = .ok r :=
  De.nullable_option (by simp [toValue, Json.object]) (fun r => by simp [fromValue, toValue]) r

end ThreadResult

namespace ThreadLog

theorem schema_roundtrip (n : UInt32) : De.u32 (.num (.posInt n.toUInt64)) = .ok n := by
  have hn : n.toUInt64.toNat < 2 ^ 32 := by
    rw [UInt32.toNat_toUInt64]
    exact n.toNat_lt
  rw [De.u32, if_pos hn, UInt32.toUInt32_toUInt64]

/-- The log a fresh reader sees: the steps as they read back, the rest as it was written. -/
theorem fromValue_toValue (log : ThreadLog) : fromValue log.toValue =
    ((log.steps.map ThreadStep.toValue).mapM ThreadStep.fromValue).map
      fun steps => { log with steps := steps } := by
  simp [fromValue, toValue, schema_roundtrip, De.list]
  cases (log.steps.map ThreadStep.toValue).mapM ThreadStep.fromValue <;> rfl

/-- Writing back what a fresh reader saw changes nothing. -/
theorem toValue_of_fromValue {log log' : ThreadLog} (h : fromValue log.toValue = .ok log') :
    log'.toValue = log.toValue := by
  rw [fromValue_toValue, De.map_eq_ok] at h
  obtain ⟨steps, hsteps, rfl⟩ := h
  have hmap := De.map_of_mapM (f := ThreadStep.toValue) (fun j hj a ha => by
    obtain ⟨s, -, rfl⟩ := List.mem_map.mp hj
    exact ThreadStep.toValue_of_fromValue ha) hsteps
  simp only [toValue, hmap]

end ThreadLog

theorem ControlStateEnvelope.fromValue_toValue (e : ControlStateEnvelope) :
    fromValue e.toValue = .ok e := by
  simp [fromValue, toValue, ThreadLog.schema_roundtrip]

end ReactRuntime.Session
