import ReactRuntime.Session.AmbiguousPut
import ReactRuntime.Session.Observed

/-!
# Tool results in the log

The keys of a tool result are flattened next to `ok`, `errors` and `warnings` of
the observation. A result that uses none of these names, and is not nested too
deep for the reader, is read back as it was written.
-/
namespace ReactRuntime.Session
open Library Serde ReactRuntime.Core Storage

theorem lookup_reverse_of_nodup {fs : Fields} (hnodup : (fs.map Prod.fst).Nodup) {k : String}
    {v : Json} : fs.reverse.lookup k = some v ↔ (k, v) ∈ fs := by
  constructor
  · intro h
    obtain ⟨l₁, l₂, hl, -⟩ := List.lookup_eq_some_iff.mp h
    rw [← List.mem_reverse, hl]
    simp
  · intro h
    obtain ⟨l₁, l₂, rfl⟩ := List.append_of_mem h
    rw [List.map_append, List.map_cons, List.nodup_append] at hnodup
    have hfresh := (List.nodup_cons.mp hnodup.2.1).1
    refine List.lookup_eq_some_iff.mpr ⟨l₂.reverse, l₁.reverse, by simp, ?_⟩
    intro f hf
    rw [List.mem_reverse] at hf
    have hmem : f.1 ∈ l₂.map Prod.fst := List.mem_map_of_mem hf
    have hne : k ≠ f.1 := fun he => hfresh (he ▸ hmem)
    simpa using hne

theorem depth_object_le_of_nodup {fs : Fields} (hnodup : (fs.map Prod.fst).Nodup) {n : Nat} :
    (Json.object fs).depth ≤ n + 1 ↔ ∀ f ∈ fs, f.2.depth ≤ n := by
  rw [depth_object_le]
  simp only [lookup_reverse_of_nodup hnodup]
  exact ⟨fun h f hf => h f.1 f.2 hf, fun h k v hv => h (k, v) hv⟩

namespace ToolObservation

/-- No key of the tool has the name of a field of the kernel. -/
def Unshadowed (o : ToolObservation) : Prop := ∀ k v, o.extra.get k = some v → k ∉ ownKeys

theorem Unshadowed.get_own {o : ToolObservation} (h : o.Unshadowed) {k : String}
    (hk : k ∈ ownKeys) : o.extra.get k = none := by
  rw [Option.eq_none_iff_forall_ne_some]
  exact fun v hv => h k v hv hk

/-- An observation reads back as it was written exactly if no key of the tool shadows a field. -/
theorem fromValue_toValue_iff {o : ToolObservation} :
    fromValue o.toValue = .ok o ↔ o.Unshadowed := by
  rw [fromValue_toValue_eq_ok]
  constructor
  · rintro ⟨-, -, -, hextra⟩ k v hv hk
    rw [hextra, SortedMap.get_filterKeys] at hv
    simp [hk] at hv
  · intro h
    have hok := h.get_own (k := "ok") (by decide)
    have herrors := h.get_own (k := "errors") (by decide)
    have hwarnings := h.get_own (k := "warnings") (by decide)
    refine ⟨by simp [get_document, hok], by simp [get_document, herrors],
      by simp [get_document, hwarnings], SortedMap.ext_get fun k => ?_⟩
    rw [SortedMap.get_filterKeys]
    by_cases hk : k ∈ ownKeys
    · simp [h.get_own hk, hk]
    · have hne : k ≠ "ok" ∧ k ≠ "errors" ∧ k ≠ "warnings" := by simpa [ownKeys] using hk
      simp [hk, get_document, hne]

theorem depth_strs (xs : List String) : (strs xs).depth = 1 := by
  have h : Json.depthList (xs.map Json.str) ≤ 0 := by
    rw [Json.depthList_le]
    simp [Json.depth]
  rw [strs, Json.depth]
  omega

theorem depth_toValue_le {o : ToolObservation} {n : Nat} :
    o.toValue.depth ≤ n + 2 ↔ ∀ k v, o.extra.get k = some v → v.depth ≤ n + 1 := by
  have hdoc : ∀ k, ([("ok", Json.bool o.ok), ("errors", strs o.errors),
      ("warnings", strs o.warnings)] ++ o.extra.entries).reverse.lookup k = o.document.get k :=
    fun k => (SortedMap.get_ofList _ k).symm
  rw [toValue, depth_object_le]
  simp only [hdoc, get_document]
  constructor
  · intro hall k v hv
    exact hall k v (by rw [hv]; rfl)
  · intro hall k v hv
    cases hk : o.extra.get k with
    | some w =>
      rw [hk, Option.some_or, Option.some.injEq] at hv
      exact hv ▸ hall k w hk
    | none =>
      rw [hk, Option.none_or] at hv
      split_ifs at hv <;> cases hv <;> simp [depth_strs, Json.depth]

end ToolObservation

theorem depth_option_le {α : Type} {f : α → Json} {o : Option α} {n : Nat} :
    (De.option f o).depth ≤ n ↔ ∀ a, o = some a → (f a).depth ≤ n := by
  cases o <;> simp [De.option, Json.depth]

namespace ToolStepMeta
variable {info : ToolStepMeta} {stamp : ToolStamp} {n : Nat}

/-- The arguments and the context of a call fit below a step. -/
def Fits (info : ToolStepMeta) (n : Nat) : Prop :=
  info.args.depth ≤ n ∧ (De.option ExecutionContext.toValue info.ctx).depth ≤ n

theorem depth_startStep_le : (info.startStep stamp).toValue.depth ≤ n + 1 ↔ info.Fits n := by
  rw [startStep, ThreadStep.toValue, depth_object_le_of_nodup (by simp [ThreadStep.toFields])]
  simp [ThreadStep.toFields, Json.depth, De.option, Fits]

theorem depth_endStep_le {status : ToolStepStatus} {obs : ToolObservation} :
    (info.endStep stamp status obs).toValue.depth ≤ n + 1 ↔
      info.Fits n ∧ (De.option id obs.payload).depth ≤ n ∧ obs.toValue.depth ≤ n := by
  rw [endStep, ThreadStep.toValue, depth_object_le_of_nodup (by simp [ThreadStep.toFields])]
  simp [ThreadStep.toFields, Json.depth, De.option, Fits]
  tauto

theorem parses_startStep : (info.startStep stamp).Parses :=
  ⟨_, ThreadStep.fromValue_toValue _⟩

/-- The end step reads back with its own observation exactly if nothing is shadowed. -/
theorem reread_endStep {status : ToolStepStatus} {obs : ToolObservation} (h : obs.Unshadowed) :
    (info.endStep stamp status obs).reread = .ok (.toolEnd stamp.toolId info.name info.cleanName
      info.args status (De.dropNull obs.payload) info.ctx obs stamp.endTs info.agent) := by
  rw [endStep, ThreadStep.reread, ToolObservation.fromValue_toValue_iff.mpr h]
  rfl

end ToolStepMeta

namespace ThreadLog

theorem depth_result_le {step : ThreadStep} {r : ThreadResult} (h : step.result = some r) :
    r.toValue.depth ≤ step.toValue.depth := by
  cases step with
  | complete kind payload display observation ts agent =>
    cases h
    have hp : payload.depth ≤ (ThreadStep.complete kind payload display observation ts
        agent).toValue.depth - 1 := by
      rw [ThreadStep.toValue, Json.object, Json.depth, Nat.add_sub_cancel]
      exact Json.depthFields_le.mp le_rfl ("payload", payload)
        (SortedMap.mem_entries_of_get (by simp [SortedMap.get_ofList, ThreadStep.toFields,
          SortedMap.lookup_cons_ite]))
    have hpos : 0 < (ThreadStep.complete kind payload display observation ts
        agent).toValue.depth := by
      rw [ThreadStep.toValue, Json.object, Json.depth]
      omega
    obtain ⟨n, hn⟩ := Nat.exists_eq_add_one.mpr hpos
    rw [hn, Nat.add_sub_cancel] at hp
    rw [hn, ThreadResult.toValue, depth_object_le_of_nodup (by simp)]
    have hd : (De.option Json.str display).depth ≤ n :=
      depth_option_le.mpr fun a _ => Nat.zero_le n
    simp [Json.depth, hp, hd]
  | _ => cases h

/-- A step that reads back keeps a log readable. -/
theorem Readable.push {log : ThreadLog} {step : ThreadStep} (h : log.Readable)
    (hstep : step.Parses) (hdepth : step.toValue.depth + 2 ≤ RECURSION_LIMIT) :
    (log.push step).Readable := by
  have hlog := depth_toValue_le.mp h.depth
  have hlimit : step.toValue.depth ≤ 125 := by
    rw [RECURSION_LIMIT] at hdepth
    omega
  refine ⟨h.schema, fun s hs => ?_, depth_toValue_le.mpr ⟨fun s hs => ?_, ?_⟩⟩
  · rcases List.mem_append.mp hs with hs | hs
    · exact h.steps s hs
    · exact List.mem_singleton.mp hs ▸ hstep
  · rcases List.mem_append.mp hs with hs | hs
    · exact hlog.1 s hs
    · exact List.mem_singleton.mp hs ▸ hlimit
  · simp only [ThreadLog.push]
    cases hr : step.result with
    | none => exact hlog.2
    | some r => exact (depth_result_le hr).trans (hlimit.trans (Nat.le_succ 125))

/-- The last step that a reader sees is what it reads for the last step. -/
theorem getLast?_of_fromValue {log log' : ThreadLog} (h : fromValue log.toValue = .ok log')
    {step : ThreadStep} (hlast : log.steps.getLast? = some step) :
    ∃ step', log'.steps.getLast? = some step' ∧ step.reread = .ok step' := by
  rw [fromValue_toValue, De.map_eq_ok] at h
  obtain ⟨steps, hsteps, rfl⟩ := h
  obtain ⟨front, hfront⟩ := List.getLast?_eq_some_iff.mp hlast
  rw [hfront, List.map_append, List.mapM_append, De.bind_eq_ok] at hsteps
  obtain ⟨front', -, hsteps⟩ := hsteps
  rw [De.bind_eq_ok] at hsteps
  obtain ⟨last', hlast', hsteps⟩ := hsteps
  rw [List.map_singleton, List.mapM_cons, De.bind_eq_ok] at hlast'
  obtain ⟨step', hstep', hrest⟩ := hlast'
  cases hrest
  cases hsteps
  exact ⟨step', by simp, ThreadStep.fromValue_toValue step ▸ hstep'⟩

end ThreadLog

end ReactRuntime.Session
