import ReactRuntime.Session.Edit

/-!
# Logs that a fresh store can read

A stored log is read in three steps: the text becomes a value, which fails for a
document nested too deep, the value becomes a log, which fails if one step does
not parse, and the schema version is checked. One unreadable step makes the whole
log unreadable.
-/
namespace ReactRuntime.Session
open Library Serde ReactRuntime.Core Storage

theorem depth_object_le {fs : Fields} {n : Nat} : (Json.object fs).depth ≤ n + 1 ↔
    ∀ k v, fs.reverse.lookup k = some v → v.depth ≤ n := by
  rw [Json.object, Json.depth, Nat.add_le_add_iff_right, Json.depthFields_le]
  constructor
  · intro h k v hv
    rw [← lookup_object] at hv
    exact h (k, v) (SortedMap.mem_entries_of_get hv)
  · intro h f hf
    apply h f.1 f.2
    rw [← lookup_object]
    exact SortedMap.get_of_mem_entries hf

theorem mapM_isOk {α β : Type} {f : α → Except String β} {xs : List α} :
    (∃ ys, xs.mapM f = .ok ys) ↔ ∀ x ∈ xs, ∃ y, f x = .ok y := by
  induction xs with
  | nil => simp [pure, Except.pure]
  | cons x xs ih =>
    rw [List.forall_mem_cons, ← ih]
    simp only [List.mapM_cons, De.bind_eq_ok]
    constructor
    · rintro ⟨ys, y, hy, rest, hrest, -⟩
      exact ⟨⟨y, hy⟩, rest, hrest⟩
    · rintro ⟨⟨y, hy⟩, rest, hrest⟩
      exact ⟨y :: rest, y, hy, rest, hrest, rfl⟩

/-- A step that reads back. -/
def ThreadStep.Parses (step : ThreadStep) : Prop :=
  ∃ s, ThreadStep.fromValue step.toValue = .ok s

namespace ThreadLog

/-- A log that a fresh store can read. -/
structure Readable (log : ThreadLog) : Prop where
  schema : log.schemaVersion = THREAD_SCHEMA_VERSION
  steps : ∀ step ∈ log.steps, step.Parses
  depth : log.toValue.depth ≤ RECURSION_LIMIT

theorem fromValue_isOk {log : ThreadLog} :
    (∃ log', fromValue log.toValue = .ok log') ↔ ∀ step ∈ log.steps, step.Parses := by
  have hmap : (∃ log', fromValue log.toValue = .ok log') ↔
      ∃ steps, (log.steps.map ThreadStep.toValue).mapM ThreadStep.fromValue = .ok steps := by
    simp only [fromValue_toValue, De.map_eq_ok]
    constructor
    · rintro ⟨_, steps, hs, -⟩
      exact ⟨steps, hs⟩
    · rintro ⟨steps, hs⟩
      exact ⟨_, steps, hs, rfl⟩
  rw [hmap, mapM_isOk]
  simp [ThreadStep.Parses]

theorem depth_toValue_le {log : ThreadLog} {n : Nat} : log.toValue.depth ≤ n + 2 ↔
    (∀ step ∈ log.steps, step.toValue.depth ≤ n) ∧
    (De.option ThreadResult.toValue log.result).depth ≤ n + 1 := by
  rw [toValue, depth_object_le]
  simp only [List.reverse_cons, List.reverse_nil, List.nil_append, List.cons_append,
    SortedMap.lookup_cons_ite]
  constructor
  · intro h
    have hs := h "steps" _ (by simp; rfl)
    have hr := h "result" _ (by simp; rfl)
    rw [Json.depth, Nat.add_le_add_iff_right, Json.depthList_le] at hs
    exact ⟨fun step hstep => hs _ (List.mem_map_of_mem hstep), hr⟩
  · rintro ⟨hs, hr⟩ k v hv
    split_ifs at hv
    all_goals simp only [Option.some.injEq, List.lookup_nil, reduceCtorEq] at hv
    all_goals subst hv
    · simp [Json.depth]
    · cases log.title <;> simp [De.option, Json.depth]
    · exact hr
    · rw [Json.depth, Nat.add_le_add_iff_right, Json.depthList_le]
      simpa using hs
    · simp [Json.depth]

theorem readable_default : ThreadLog.default.Readable where
  schema := rfl
  steps _ h := nomatch h
  depth := by decide

/-- A step that reads back once reads back twice. -/
theorem Readable.push_again {log : ThreadLog} {step : ThreadStep}
    (h : (log.push step).Readable) : ((log.push step).push step).Readable where
  schema := h.schema
  steps s hs := by
    simp only [push, List.append_assoc, List.mem_append, List.mem_singleton] at hs
    apply h.steps
    simp only [push, List.mem_append, List.mem_singleton]
    tauto
  depth := by
    have hd := depth_toValue_le.mp h.depth
    refine depth_toValue_le.mpr ⟨fun s hs => hd.1 s ?_, ?_⟩
    · simp only [push, List.append_assoc, List.mem_append, List.mem_singleton] at hs ⊢
      tauto
    · have hr : ((log.push step).push step).result = (log.push step).result := by
        simp only [push]
        cases step.result <;> rfl
      rw [hr]
      exact hd.2

theorem Alike.readable {log log' : ThreadLog} (h : Alike log log') (hr : log.Readable) :
    log'.Readable where
  schema := h.schemaVersion ▸ hr.schema
  steps := by
    rw [← fromValue_isOk, ← alike_iff.mpr h, fromValue_isOk]
    exact hr.steps
  depth := by
    rw [← alike_iff.mpr h]
    exact hr.depth

end ThreadLog
end ReactRuntime.Session
