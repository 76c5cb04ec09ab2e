import ReactRuntime.Session.Reports

/-!
# Logs that only grow

The documents that an object holds while steps are pushed onto whatever log was
there at the start, if any. Each has one step more than the one before, so none
of them returns.
-/
namespace ReactRuntime.Session
open Library Serde

/-- The log after the steps were pushed, if there is one. -/
def pushed (base : Option ThreadLog) (steps : List ThreadStep) : Option ThreadLog :=
  steps.foldl (fun c step => some ((c.getD ThreadLog.default).push step)) base

/-- The document at the start and the documents written by the pushes. -/
def pushedDocuments (base : Option ThreadLog) : List ThreadStep → List Json
  | [] => base.toList.map ThreadLog.toValue
  | step :: steps => base.toList.map ThreadLog.toValue ++
      pushedDocuments (some ((base.getD ThreadLog.default).push step)) steps

variable {base : Option ThreadLog} {steps : List ThreadStep} {step : ThreadStep} {v : Json}

theorem pushed_concat : pushed base (steps ++ [step]) =
    some (((pushed base steps).getD ThreadLog.default).push step) := by
  simp [pushed]

theorem pushed_steps : ((pushed base steps).getD ThreadLog.default).steps =
    (base.getD ThreadLog.default).steps ++ steps := by
  induction steps using List.reverseRecOn with
  | nil => simp [pushed]
  | append_singleton steps step ih =>
    rw [pushed_concat, Option.getD_some, ThreadLog.push, ih, List.append_assoc]

theorem pushed_eq_none : pushed base steps = none ↔ base = none ∧ steps = [] := by
  induction steps using List.reverseRecOn with
  | nil => simp [pushed]
  | append_singleton steps step ih => simp [pushed_concat]

theorem pushedDocuments_concat : pushedDocuments base (steps ++ [step]) =
    pushedDocuments base steps ++
      [(((pushed base steps).getD ThreadLog.default).push step).toValue] := by
  induction steps generalizing base with
  | nil => simp [pushedDocuments, pushed]
  | cons first steps ih =>
    rw [List.cons_append, pushedDocuments, ih, pushedDocuments, List.append_assoc]
    rfl

theorem pushedDocuments_getLast? : (pushedDocuments base steps).getLast? =
    (pushed base steps).map ThreadLog.toValue := by
  induction steps using List.reverseRecOn with
  | nil => cases base <;> simp [pushedDocuments, pushed]
  | append_singleton steps step ih => simp [pushedDocuments_concat, pushed_concat]

theorem pushedDocuments_isPrefix {steps' : List ThreadStep} (h : steps <+: steps') :
    pushedDocuments base steps <+: pushedDocuments base steps' := by
  obtain ⟨more, rfl⟩ := h
  induction more using List.reverseRecOn with
  | nil => simp
  | append_singleton more step ih =>
    rw [← List.append_assoc, pushedDocuments_concat]
    exact ih.trans (List.prefix_append _ _)

theorem pushedDocuments_length :
    (pushedDocuments base steps).length = base.toList.length + steps.length := by
  induction steps using List.reverseRecOn with
  | nil => simp [pushedDocuments]
  | append_singleton steps step ih =>
    rw [pushedDocuments_concat, List.length_append, ih, List.length_append, List.length_singleton,
      List.length_singleton, Nat.add_assoc]

/-- A document of the history is that of the log after some of the pushes. -/
theorem pushedDocuments_getElem? {j : Nat} (h : (pushedDocuments base steps)[j]? = some v) :
    ∃ front log, front <+: steps ∧ pushed base front = some log ∧ log.toValue = v ∧
      base.toList.length + front.length = j + 1 := by
  induction steps using List.reverseRecOn with
  | nil =>
    cases base with
    | none => simp [pushedDocuments] at h
    | some log =>
      obtain ⟨rfl, hlog⟩ : j = 0 ∧ log.toValue = v := by
        simpa [pushedDocuments, List.getElem?_singleton] using h
      exact ⟨[], log, List.prefix_refl _, rfl, hlog, rfl⟩
  | append_singleton steps step ih =>
    rw [pushedDocuments_concat] at h
    by_cases hj : j < (pushedDocuments base steps).length
    · rw [List.getElem?_append_left hj] at h
      obtain ⟨front, log, hfront, hlog⟩ := ih h
      exact ⟨front, log, hfront.trans (List.prefix_append _ _), hlog⟩
    · have hlt := (List.getElem?_eq_some_iff.mp h).1
      rw [List.length_append, List.length_singleton] at hlt
      have hje : j = (pushedDocuments base steps).length := by omega
      subst hje
      rw [List.getElem?_concat_length, Option.some.injEq] at h
      refine ⟨steps ++ [step], _, List.prefix_refl _, pushed_concat, h, ?_⟩
      rw [pushedDocuments_length, List.length_append, List.length_singleton, Nat.add_assoc]

theorem noReturn_pushedDocuments : NoReturn (pushedDocuments base steps) := by
  induction steps using List.reverseRecOn with
  | nil =>
    cases base with
    | none => exact NoReturn.nil
    | some log => exact NoReturn.nil.snoc (.inr (by simp))
  | append_singleton steps step ih =>
    rw [pushedDocuments_concat]
    refine ih.snoc (.inr fun hmem => ?_)
    -- Every earlier document has fewer steps than the new one.
    obtain ⟨j, hj⟩ := List.mem_iff_getElem?.mp hmem
    obtain ⟨front, log, hfront, hlog, hvalue, -⟩ := pushedDocuments_getElem? hj
    have hold : log.steps = (base.getD ThreadLog.default).steps ++ front := by
      rw [← pushed_steps, hlog, Option.getD_some]
    have hlength := congrArg List.length (ThreadLog.alike_iff.mp hvalue).steps
    rw [List.length_map, List.length_map, hold, ThreadLog.push, pushed_steps, List.length_append,
      List.length_append, List.length_append, List.length_singleton] at hlength
    have hle := hfront.length_le
    omega

end ReactRuntime.Session
