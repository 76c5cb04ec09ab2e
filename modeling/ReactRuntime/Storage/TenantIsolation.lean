import ReactRuntime.Core.Keyspace
import ReactRuntime.Storage.LocalPaths

/-!
# Scopes on one disk

The local adapter resolves a key to the segments of the scope and of the object, except that it
trims the key, whose first segment is the tenant. Two tenants that differ only in leading
whitespace have one directory.
-/
namespace ReactRuntime.Storage
open ReactRuntime.Core

/-- `str::trim_start`. -/
def trimStart (s : String) : String := .ofList (s.toList.dropWhile isWhitespace)

/-- The directory of a scope. -/
def scopeRoot (scope : RequestScope) : List String :=
  [trimStart scope.tenant.value, scope.workspace.value, scope.projectId.value]

theorem toList_trimStart (s : String) : (trimStart s).toList = s.toList.dropWhile isWhitespace := by
  rw [trimStart, String.toList_ofList]

theorem safeName_of_safeSegment {seg : String} (h : SafeSegment seg) (hdot : seg ≠ ".") :
    SafeName seg where
  ne_empty hempty := by
    subst hempty
    exact h.not_blank (by decide)
  ne_dot := hdot
  no_dots := h.no_dots
  no_backslash := h.no_backslash

/-- What is left of a tenant starts with a character that no key drops. -/
theorem trimStart_tenant {tenant : String} (h : SafeSegment tenant) :
    ∃ c cs, (trimStart tenant).toList = c :: cs ∧ c ≠ '/' := by
  rw [toList_trimStart]
  cases hdrop : tenant.toList.dropWhile isWhitespace with
  | nil =>
    refine absurd ?_ h.not_blank
    rw [← String.toList_inj, toList_trim, hdrop]
    rfl
  | cons c cs =>
    refine ⟨c, cs, rfl, ?_⟩
    rintro rfl
    exact h.no_slash ((List.dropWhile_sublist _).subset (hdrop ▸ List.mem_cons_self))

theorem trimStart_isSuffix (s : String) : (trimStart s).toList <:+ s.toList := by
  rw [toList_trimStart]
  exact List.dropWhile_suffix _

/-- The last name of every object ends in a letter. -/
theorem exists_lastName (o : ObjectKey) :
    ∃ before name suffix, o.segments = before ++ [name ++ suffix] ∧
      (suffix = ".json" ∨ suffix = ".log") := by
  cases o with
  | thread t => exact ⟨["threads"], t, ".json", rfl, .inl rfl⟩
  | threadState t => exact ⟨["state", t], "state", ".json", rfl, .inl rfl⟩
  | controlState t => exact ⟨["state", t], "control", ".json", rfl, .inl rfl⟩
  | threadArtifact t a => exact ⟨["threads"], t ++ "." ++ a, ".json", rfl, .inl rfl⟩
  | threadLog t => exact ⟨["logs"], t, ".log", rfl, .inr rfl⟩
  | threadFeedback t f => exact ⟨["feedback", t], f, ".json", rfl, .inl rfl⟩
  | threadFeedbackDiagnostics t f =>
    refine ⟨["feedback", t], f ++ ".diagnostics", ".json", ?_, .inl rfl⟩
    rw [String.append_assoc]
    rfl

/-- No key ends in whitespace. -/
theorem rdropWhile_key {root : List String} (hne : root ≠ []) (o : ObjectKey) :
    (joinChar '/' (root ++ o.segments)).toList.rdropWhile isWhitespace =
      (joinChar '/' (root ++ o.segments)).toList := by
  obtain ⟨before, name, suffix, hsegments, hsuffix⟩ := exists_lastName o
  have hend : suffix.toList ≠ [] ∧ suffix.toList.rdropWhile isWhitespace = suffix.toList := by
    rcases hsuffix with rfl | rfl <;> decide +kernel
  rw [hsegments, ← List.append_assoc, joinChar_concat (by simp [hne]), String.toList_append,
    String.toList_append, ← List.append_assoc]
  exact rdropWhile_append_right hend.1 hend.2

/-- The text that the adapter resolves for a key. -/
theorem keyText_scopedKey (scope : RequestScope) (o : ObjectKey) :
    keyText (scopedKey scope o.segments) = joinChar '/' (scopeRoot scope ++ o.segments) := by
  obtain ⟨c, cs, hroot, hc⟩ := trimStart_tenant scope.tenant.safe
  have hcons (t : String) :
      (joinChar '/' ([t, scope.workspace.value, scope.projectId.value] ++ o.segments)).toList =
        t.toList ++ '/' :: (joinChar '/'
          ([scope.workspace.value, scope.projectId.value] ++ o.segments)).toList :=
    toList_joinChar_cons (by simp) t
  have hkey : (scopedKey scope o.segments).toList.dropWhile isWhitespace =
      (joinChar '/' (scopeRoot scope ++ o.segments)).toList := by
    rw [scopedKey_eq, RequestScope.segments, scopeRoot, hcons, hcons, List.dropWhile_append,
      ← toList_trimStart, hroot, List.isEmpty_cons, if_neg Bool.false_ne_true]
  have hfirst : (joinChar '/' (scopeRoot scope ++ o.segments)).toList.dropWhile (· == '/') =
      (joinChar '/' (scopeRoot scope ++ o.segments)).toList := by
    rw [scopeRoot, hcons, hroot, List.cons_append, List.dropWhile_cons_of_neg (by simpa using hc)]
  rw [← String.toList_inj, toList_keyText, hkey, rdropWhile_key (by simp [scopeRoot]), hfirst]

theorem scopeRoot_noSlash (scope : RequestScope) :
    ∀ seg ∈ scopeRoot scope, '/' ∉ seg.toList := by
  have htenant : '/' ∉ (trimStart scope.tenant.value).toList := fun hmem =>
    scope.tenant.safe.no_slash ((trimStart_isSuffix _).subset hmem)
  simp [scopeRoot, htenant, scope.workspace.safe.no_slash, scope.projectId.safe.no_slash]

/-- The path of a key: the directory of the scope and the segments of the object. -/
theorem resolveKey_build {scope : RequestScope} {o : ObjectKey} {key : String}
    {path : List String} (h : o.build scope = .ok key) :
    resolveKey key = .ok path ↔ path = scopeRoot scope ++ o.segments ∧
      ∀ seg ∈ scopeRoot scope ++ o.segments, SafeName seg := by
  obtain ⟨hsafe, rfl⟩ := ObjectKey.build_eq_ok.mp h
  rw [resolveKey_eq_ok, keyText_scopedKey, splitChar_joinChar (by simp [scopeRoot])]
  intro seg hseg
  rcases List.mem_append.mp hseg with hseg | hseg
  · exact (scopeRoot_noSlash scope) seg hseg
  · exact ObjectKey.no_slash_segments (fun id hid => (hsafe id hid).no_slash) seg hseg

theorem safe_scopeRoot {scope : RequestScope} (htenant : trimStart scope.tenant.value ≠ ".")
    (hworkspace : scope.workspace.value ≠ ".") (hproject : scope.projectId.value ≠ ".") :
    ∀ seg ∈ scopeRoot scope, SafeName seg := by
  obtain ⟨c, cs, hroot, -⟩ := trimStart_tenant scope.tenant.safe
  have hsuffix := trimStart_isSuffix scope.tenant.value
  have htrimmed : SafeName (trimStart scope.tenant.value) := by
    refine ⟨fun hempty => ?_, htenant,
      fun hdots => scope.tenant.safe.no_dots (hdots.trans hsuffix.isInfix),
      fun hback => scope.tenant.safe.no_backslash (hsuffix.subset hback)⟩
    rw [hempty] at hroot
    exact nomatch hroot
  simp [scopeRoot, htrimmed, safeName_of_safeSegment scope.workspace.safe hworkspace,
    safeName_of_safeSegment scope.projectId.safe hproject]

theorem safe_threadSegments : ∀ seg ∈ (ObjectKey.thread "t").segments, SafeName seg := by
  have hpush : ["threads", "t.json"].mapM pushSegment = .ok ["threads", "t.json"] := by
    decide +kernel
  exact (mapM_pushSegment_eq_ok.mp hpush).2

/-- No key of one scope has the file of a key of the other scope. -/
def Isolated (s₁ s₂ : RequestScope) : Prop :=
  ∀ (o₁ o₂ : ObjectKey) (key₁ key₂ : String) (path : List String),
    o₁.build s₁ = .ok key₁ → o₂.build s₂ = .ok key₂ →
    resolveKey key₁ = .ok path → resolveKey key₂ ≠ .ok path

/-- Two scopes are isolated exactly if their tenants differ in more than leading whitespace, or
their workspaces or projects differ, or one of these names is a dot, which no path may be. -/
theorem isolated_iff (s₁ s₂ : RequestScope) :
    Isolated s₁ s₂ ↔
      ¬ (trimStart s₁.tenant.value = trimStart s₂.tenant.value ∧
        s₁.workspace.value = s₂.workspace.value ∧ s₁.projectId.value = s₂.projectId.value ∧
        trimStart s₁.tenant.value ≠ "." ∧ s₁.workspace.value ≠ "." ∧
        s₁.projectId.value ≠ ".") := by
  constructor
  · rintro hisolated ⟨htenant, hworkspace, hproject, hdotTenant, hdotWorkspace, hdotProject⟩
    have hroots : scopeRoot s₂ = scopeRoot s₁ := by
      rw [scopeRoot, scopeRoot, htenant, hworkspace, hproject]
    have hid : SafeSegment "t" := ensureSafeScopeSegment_eq_ok.mp
      (show ensureSafeScopeSegment "thread_id" "t" = .ok () by decide +kernel)
    have hbuild (s : RequestScope) : (ObjectKey.thread "t").build s =
        .ok (scopedKey s (ObjectKey.thread "t").segments) :=
      ObjectKey.build_eq_ok.mpr ⟨by simpa [ObjectKey.ids] using hid, rfl⟩
    have hsafe : ∀ seg ∈ scopeRoot s₁ ++ (ObjectKey.thread "t").segments, SafeName seg :=
      List.forall_mem_append.mpr
        ⟨safe_scopeRoot hdotTenant hdotWorkspace hdotProject, safe_threadSegments⟩
    exact hisolated _ _ _ _ _ (hbuild s₁) (hbuild s₂)
      ((resolveKey_build (hbuild s₁)).mpr ⟨rfl, hsafe⟩)
      ((resolveKey_build (hbuild s₂)).mpr ⟨by rw [hroots], by rwa [hroots]⟩)
  · intro hroots o₁ o₂ key₁ key₂ path h₁ h₂ hpath₁ hpath₂
    obtain ⟨rfl, hsafe⟩ := (resolveKey_build h₁).mp hpath₁
    obtain ⟨hpath, -⟩ := (resolveKey_build h₂).mp hpath₂
    have hroot := (List.append_inj hpath (by rfl)).1
    simp only [scopeRoot, List.cons.injEq, and_true] at hroot
    obtain ⟨htenant, hworkspace, hproject⟩ := hroot
    have hdot {seg : String} (hseg : seg ∈ scopeRoot s₁) : seg ≠ "." :=
      (hsafe seg (List.mem_append_left _ hseg)).ne_dot
    exact hroots ⟨htenant, hworkspace, hproject, hdot (by simp [scopeRoot]),
      hdot (by simp [scopeRoot]), hdot (by simp [scopeRoot])⟩

/-! Two tenants. -/

def acme : RequestScope :=
  { ObjectKey.smallScope with tenant := ⟨"acme", by decide +kernel⟩ }

def spaceAcme : RequestScope :=
  { ObjectKey.smallScope with tenant := ⟨" acme", by decide +kernel⟩ }

/-- The thread of a tenant is the thread of the same tenant with a space before it. -/
theorem notIsolated_space :
    RequestScope.parse "acme" "w" "p" = .ok acme ∧
      RequestScope.parse " acme" "w" "p" = .ok spaceAcme ∧ acme ≠ spaceAcme ∧
      ¬ Isolated acme spaceAcme := by
  refine ⟨acme.parse_value, spaceAcme.parse_value, by decide +kernel, fun hisolated => ?_⟩
  exact hisolated (.thread "t") (.thread "t") "acme/w/p/threads/t.json" " acme/w/p/threads/t.json"
    ["acme", "w", "p", "threads", "t.json"] (by decide +kernel) (by decide +kernel)
    (by decide +kernel) (by decide +kernel)

end ReactRuntime.Storage
