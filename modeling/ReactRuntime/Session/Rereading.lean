import ReactRuntime.Session.Readable

/-!
# A log that was read back

The documents inside a step may come back changed, and nothing else of the log does. Such a log is
still one that a fresh store can read.
-/
namespace ReactRuntime.Session
open Library Serde ReactRuntime.Core Storage

variable (f : Json → Json)

def ExecutionContext.mapJson (c : ExecutionContext) : ExecutionContext := ⟨c.data.mapValues f⟩

def ToolObservation.mapJson (o : ToolObservation) : ToolObservation :=
  { o with extra := o.extra.mapValues f }

/-- The step with its documents changed. -/
def ThreadStep.mapJson : ThreadStep → ThreadStep
  | .toolStart toolId name cleanName args status payload ctx ts agent =>
    .toolStart toolId name cleanName (f args) status (payload.map f) (ctx.map (·.mapJson f)) ts agent
  | .toolEnd toolId name cleanName args status payload ctx observation ts agent =>
    .toolEnd toolId name cleanName (f args) status (payload.map f) (ctx.map (·.mapJson f))
      (observation.mapJson f) ts agent
  | .llmStart callId model phaseName ctx ts agent =>
    .llmStart callId model phaseName (ctx.map (·.mapJson f)) ts agent
  | .llmEnd callId model phaseName status error ctx ts agent =>
    .llmEnd callId model phaseName status error (ctx.map (·.mapJson f)) ts agent
  | .llmCall callId model phaseName promptHash parts partHashes responseHash responseText observation
      ts agent =>
    .llmCall callId model phaseName promptHash (parts.map f) partHashes responseHash responseText
      observation ts agent
  | .phase phaseName fromPhase reasonCode reasonDetail observation ts agent =>
    .phase phaseName fromPhase reasonCode (reasonDetail.map f) observation ts agent
  | .reviewResponse text extraMeta observation ts agent =>
    .reviewResponse text (extraMeta.map f) observation ts agent
  | .complete kind payload display observation ts agent =>
    .complete kind (f payload) display observation ts agent
  | .checkpoint kind payload display observation ts agent =>
    .checkpoint kind (f payload) display observation ts agent
  | s => s

def ThreadResult.mapJson (r : ThreadResult) : ThreadResult := { r with payload := f r.payload }

def ThreadLog.mapJson (log : ThreadLog) : ThreadLog :=
  { log with steps := log.steps.map (·.mapJson f), result := log.result.map (·.mapJson f) }

variable {f} {readFloat : UInt64 → UInt64}

theorem readBack_strs (xs : List String) : (strs xs).readBack readFloat = strs xs := by
  simp [strs]

@[simp] theorem Observation.readBack_toValue (o : Observation) :
    o.toValue.readBack readFloat = o.toValue := by
  simp [Observation.toValue, readBack_strs]

theorem ToolObservation.readBack_toValue (o : ToolObservation) :
    o.toValue.readBack readFloat = (o.mapJson (Json.readBack readFloat)).toValue := by
  simp [toValue, mapJson, readBack_strs, SortedMap.mapValues]

@[simp] theorem ExecutionContext.readBack_toValue (c : ExecutionContext) :
    c.toValue.readBack readFloat = (c.mapJson (Json.readBack readFloat)).toValue := by
  simp [toValue, mapJson]

theorem option_map {α β : Type} (enc : β → Json) (g : α → β) (o : Option α) :
    De.option enc (o.map g) = De.option (fun a => enc (g a)) o := by
  cases o <;> rfl

theorem readBack_strMap (m : SortedMap String String) :
    (Json.obj (m.entries.map fun e => (e.1, Json.str e.2))).readBack readFloat =
      .obj (m.entries.map fun e => (e.1, .str e.2)) := by
  have hentries : (Json.obj (m.mapValues Json.str).entries).readBack readFloat =
      .obj ((m.mapValues Json.str).mapValues (Json.readBack readFloat)).entries :=
    Json.readBack_entries _
  simpa [SortedMap.mapValues, Function.comp_def] using hentries

theorem ThreadStep.readBack_toValue (s : ThreadStep) :
    s.toValue.readBack readFloat = (s.mapJson (Json.readBack readFloat)).toValue := by
  rw [toValue, toValue, Json.readBack_object]
  cases s <;> simp [toFields, mapJson, option_map, ToolObservation.readBack_toValue, readBack_strMap]

theorem ThreadResult.readBack_toValue (r : ThreadResult) :
    r.toValue.readBack readFloat = (r.mapJson (Json.readBack readFloat)).toValue := by
  simp [toValue, mapJson]

/-- A log is read back with the documents inside it read back. -/
theorem ThreadLog.readBack_toValue (log : ThreadLog) :
    log.toValue.readBack readFloat = (log.mapJson (Json.readBack readFloat)).toValue := by
  have hsteps : (log.steps.map ThreadStep.toValue).map (Json.readBack readFloat) =
      (log.steps.map (·.mapJson (Json.readBack readFloat))).map ThreadStep.toValue := by
    rw [List.map_map, List.map_map]
    exact List.map_congr_left fun s _ => s.readBack_toValue
  rw [toValue, toValue, Json.readBack_object]
  simp only [List.map_cons, List.map_nil, Json.readBack_posInt, Json.readBack_arr, hsteps, option_map,
    Json.readBack_option, Json.readBack_str, Json.readBack_bool, mapJson, ThreadResult.readBack_toValue]

/-! What the reader finds in a step. -/

namespace ToolObservation

theorem get_document_mapJson (o : ToolObservation) (k : String) :
    (o.mapJson (Json.readBack readFloat)).document.get k =
      (o.document.get k).map (Json.readBack readFloat) := by
  rw [get_document, get_document, mapJson, SortedMap.get_mapValues, Option.map_or]
  congr 1
  split_ifs <;> simp [readBack_strs]

/-- An observation that is read is read with its documents changed. -/
theorem fromValue_mapJson {o o' : ToolObservation} (h : fromValue o.toValue = .ok o') :
    fromValue (o.mapJson (Json.readBack readFloat)).toValue =
      .ok (o'.mapJson (Json.readBack readFloat)) := by
  obtain ⟨hok, herrors, hwarnings, hextra⟩ := fromValue_toValue_eq_ok.mp h
  simp only [fromValue_toValue_eq_ok, get_document_mapJson, hok, herrors, hwarnings, Option.map_some,
    readBack_strs, Json.readBack_bool]
  refine ⟨rfl, rfl, rfl, SortedMap.ext_get fun k => ?_⟩
  rw [mapJson, SortedMap.get_mapValues, hextra, SortedMap.get_filterKeys, SortedMap.get_filterKeys,
    get_document_mapJson]
  split_ifs <;> rfl

end ToolObservation

/-- A step that can be read can be read after a rereading. -/
theorem ThreadStep.Parses.mapJson {s : ThreadStep} (h : s.Parses) :
    (s.mapJson (Json.readBack readFloat)).Parses := by
  obtain ⟨s', hs'⟩ := h
  rw [fromValue_toValue] at hs'
  refine (?_ : ∃ s'', _ = Except.ok s'')
  simp only [fromValue_toValue]
  cases s with
  | toolEnd toolId name cleanName args status payload ctx observation ts agent =>
    obtain ⟨o, ho, -⟩ := De.map_eq_ok.mp hs'
    exact ⟨_, De.map_eq_ok.mpr ⟨_, ToolObservation.fromValue_mapJson ho, rfl⟩⟩
  | _ => exact ⟨_, rfl⟩

theorem ThreadLog.Readable.mapJson {log : ThreadLog} (h : log.Readable) :
    (log.mapJson (Json.readBack readFloat)).Readable where
  schema := h.schema
  steps s hs := by
    obtain ⟨s, hmem, rfl⟩ := List.mem_map.mp hs
    exact (h.steps s hmem).mapJson
  depth := by
    rw [← ThreadLog.readBack_toValue]
    exact (Json.depth_readBack_le _).trans h.depth

end ReactRuntime.Session
