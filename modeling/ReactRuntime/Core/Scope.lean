import ReactRuntime.Core.Error
import ReactRuntime.Core.Text

/-!
# Request scopes

A scope is a tenant, a workspace and a project. Each of them, and each id of a thread, an artifact
or a feedback, must be safe as a segment of a key.
-/
namespace ReactRuntime.Core

def ensureSafeScopeSegment (field value : String) : Except CoreError Unit :=
  if (trim value).isEmpty then .error (.generic ("invalid " ++ field ++ ": empty segment"))
  else if containsText value ".." then
    .error (.generic ("invalid " ++ field ++ ": path traversal '..' is not allowed"))
  else if containsText value "/" || containsText value "\\" then
    .error (.generic ("invalid " ++ field ++
      ": path separators are not allowed in scope segments"))
  else .ok ()

structure SafeSegment (value : String) : Prop where
  not_blank : trim value ≠ ""
  no_dots : ¬ ['.', '.'] <:+: value.toList
  no_slash : '/' ∉ value.toList
  no_backslash : '\\' ∉ value.toList

/-- The field only names the segment in the error. -/
theorem ensureSafeScopeSegment_eq_ok {field value : String} :
    ensureSafeScopeSegment field value = .ok () ↔ SafeSegment value := by
  have hdots : containsText value ".." = true ↔ ['.', '.'] <:+: value.toList := containsText_iff
  have hslash : containsText value "/" = true ↔ '/' ∈ value.toList :=
    containsText_iff.trans (List.singleton_infix_iff _ _)
  have hback : containsText value "\\" = true ↔ '\\' ∈ value.toList :=
    containsText_iff.trans (List.singleton_infix_iff _ _)
  unfold ensureSafeScopeSegment
  split_ifs with hempty hcontains hseparator
  · exact ⟨fun h => (nomatch h), fun h => absurd (String.isEmpty_iff.mp hempty) h.not_blank⟩
  · exact ⟨fun h => (nomatch h), fun h => absurd (hdots.mp hcontains) h.no_dots⟩
  · refine ⟨fun h => (nomatch h), fun h => ?_⟩
    rcases Bool.or_eq_true_iff.mp hseparator with hin | hin
    · exact absurd (hslash.mp hin) h.no_slash
    · exact absurd (hback.mp hin) h.no_backslash
  · refine ⟨fun _ => ⟨fun h => hempty (String.isEmpty_iff.mpr h), fun h => hcontains (hdots.mpr h),
      fun h => hseparator ?_, fun h => hseparator ?_⟩, fun _ => rfl⟩
    · rw [hslash.mpr h, Bool.true_or]
    · rw [hback.mpr h, Bool.or_true]

/-- A segment that was accepted under a field name. -/
structure ScopeSegment (field : String) where
  value : String
  accepted : ensureSafeScopeSegment field value = .ok ()
deriving DecidableEq

namespace ScopeSegment
variable {field : String}

def parse (raw : String) : Except CoreError (ScopeSegment field) :=
  match h : ensureSafeScopeSegment field raw with
  | .ok () => .ok ⟨raw, h⟩
  | .error e => .error e

theorem parse_value (s : ScopeSegment field) : parse s.value = .ok s := by
  unfold parse
  split
  case h_1 => rfl
  case h_2 e h => exact nomatch s.accepted.symm.trans h

theorem safe (s : ScopeSegment field) : SafeSegment s.value :=
  ensureSafeScopeSegment_eq_ok.mp s.accepted

end ScopeSegment

abbrev TenantId : Type := ScopeSegment "tenant"

abbrev WorkspaceId : Type := ScopeSegment "workspace"

abbrev ProjectId : Type := ScopeSegment "project_id"

structure RequestScope where
  tenant : TenantId
  workspace : WorkspaceId
  projectId : ProjectId
deriving DecidableEq

def RequestScope.parse (tenant workspace projectId : String) : Except CoreError RequestScope := do
  return ⟨← ScopeSegment.parse tenant, ← ScopeSegment.parse workspace,
    ← ScopeSegment.parse projectId⟩

/-- The scopes are exactly what `parse` returns. -/
theorem RequestScope.parse_value (s : RequestScope) :
    parse s.tenant.value s.workspace.value s.projectId.value = .ok s := by
  rw [parse, ScopeSegment.parse_value, ScopeSegment.parse_value, ScopeSegment.parse_value]
  rfl

end ReactRuntime.Core
