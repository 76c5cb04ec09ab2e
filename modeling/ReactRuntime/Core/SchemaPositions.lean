import ReactRuntime.Core.SchemaRegistry

/-!
# What a strict schema still describes

The keywords of JSON Schema say which values of a document are schemas, which are maps of them and
which are data. The pass does not ask. A schema to which it comes stays at its place with the names
of its properties, and data is left alone where none of it looks like a schema.
-/
namespace ReactRuntime.Core.OpenaiStructuredOutputs
open Library Serde

inductive PathStep where
  | key (k : String)
  | index (i : Nat)
deriving DecidableEq, Repr

def child : Json → PathStep → Option Json
  | .obj m, .key k => m.lookup k
  | .arr xs, .index i => xs[i]?
  | _, _ => none

/-- The value at the end of a path. -/
def valueAt (v : Json) (path : List PathStep) : Option Json := path.foldlM child v

@[simp] theorem valueAt_nil (v : Json) : valueAt v [] = some v := rfl

@[simp] theorem valueAt_cons (v : Json) (step : PathStep) (path : List PathStep) :
    valueAt v (step :: path) = (child v step).bind (valueAt · path) := rfl

theorem valueAt_append (v : Json) (path rest : List PathStep) :
    valueAt v (path ++ rest) = (valueAt v path).bind (valueAt · rest) := by
  simp only [valueAt, List.foldlM_append]
  rfl

/-- The pass goes through an object without `$ref` to all that it does not write over. -/
def Passable (v : Json) (step : PathStep) : Prop :=
  ∀ m, v = .obj m →
    m.lookup "$ref" = none ∧ (step = .key "required" → propertyMap m = none)

theorem child_strictifySchema {v s : Json} {step : PathStep} (hpass : Passable v step)
    (hchild : child v step = some s) :
    child (strictifySchema v) step = some (strictifySchema s) := by
  cases v with
  | obj m =>
    cases step with
    | key k =>
      obtain ⟨href, hreq⟩ := hpass m rfl
      rw [strictifySchema_node href]
      apply lookup_ensure_of_some
      · rw [lookup_strictifyValues, show m.lookup k = some s from hchild]
        rfl
      · intro hk
        have hnone := hreq (congrArg PathStep.key hk)
        rw [← Option.not_isSome_iff_eq_none, propertyMap_strictifyValues, hnone]
        decide
    | index i => cases hchild
  | arr xs =>
    cases step with
    | key k => cases hchild
    | index i =>
      rw [strictifySchema_arr]
      simp only [child, List.getElem?_map] at hchild ⊢
      rw [hchild]
      rfl
  | _ => cases step <;> cases hchild

/-- The pass comes to the end of the path. -/
def Open (root : Json) (path : List PathStep) : Prop :=
  ∀ front step rest, path = front ++ step :: rest →
    ∀ v, valueAt root front = some v → Passable v step

theorem open_nil (root : Json) : Open root [] := fun _ _ _ h => by simp at h

theorem open_append_singleton {root v : Json} {path : List PathStep} {step : PathStep}
    (hv : valueAt root path = some v) :
    Open root (path ++ [step]) ↔ Open root path ∧ Passable v step := by
  constructor
  · intro h
    refine ⟨fun front st rest he => h front st (rest ++ [step]) ?_, h path step [] rfl v hv⟩
    rw [he, List.append_assoc, List.cons_append]
  · rintro ⟨hpath, hstep⟩ front st rest he w hw
    cases rest using List.reverseRecOn with
    | nil =>
      obtain ⟨rfl, hlast⟩ := List.append_inj' he rfl
      cases hlast
      rw [hv] at hw
      cases hw
      exact hstep
    | append_singleton rest last =>
      rw [← List.cons_append, ← List.append_assoc] at he
      exact hpath front st rest (List.append_inj' he rfl).1 w hw

/-- What the pass comes to is found again at its place, with the pass done there. -/
theorem valueAt_strictifySchema {root s : Json} {path : List PathStep} (hopen : Open root path)
    (hs : valueAt root path = some s) :
    valueAt (strictifySchema root) path = some (strictifySchema s) := by
  induction path using List.reverseRecOn generalizing s with
  | nil =>
    cases hs
    rfl
  | append_singleton path step ih =>
    rw [valueAt_append, Option.bind_eq_some_iff] at hs
    obtain ⟨v, hv, hs⟩ := hs
    obtain ⟨hpath, hpass⟩ := (open_append_singleton hv).mp hopen
    have hstep : child v step = some s := by simpa using hs
    rw [valueAt_append, ih hpath hv]
    simp [child_strictifySchema hpass hstep]

/-- Keywords with one schema. -/
def schemaKeywords : List String :=
  ["additionalItems", "additionalProperties", "contains", "contentSchema", "else", "if", "items",
    "not", "propertyNames", "then", "unevaluatedItems", "unevaluatedProperties"]

/-- Keywords with a list of schemas. -/
def schemaListKeywords : List String := ["allOf", "anyOf", "items", "oneOf", "prefixItems"]

/-- Keywords with a schema for each name. -/
def schemaMapKeywords : List String :=
  ["$defs", "definitions", "dependencies", "dependentSchemas", "patternProperties", "properties"]

/-- Keywords with data. -/
def literalKeywords : List String := ["const", "default", "enum", "examples"]

/-- At the end of the path there is a schema. -/
inductive SchemaAt (root : Json) : List PathStep → Json → Prop where
  | root : SchemaAt root [] root
  | single {path m k s} : SchemaAt root path (.obj m) → k ∈ schemaKeywords →
      m.lookup k = some s → SchemaAt root (path ++ [.key k]) s
  | listed {path m k xs i s} : SchemaAt root path (.obj m) → k ∈ schemaListKeywords →
      m.lookup k = some (.arr xs) → xs[i]? = some s → SchemaAt root (path ++ [.key k, .index i]) s
  | named {path m k ps name s} : SchemaAt root path (.obj m) → k ∈ schemaMapKeywords →
      m.lookup k = some (.obj ps) → ps.lookup name = some s →
      SchemaAt root (path ++ [.key k, .key name]) s

theorem SchemaAt.valueAt {root s : Json} {path : List PathStep} (h : SchemaAt root path s) :
    valueAt root path = some s := by
  induction h with
  | root => rfl
  | single _ _ hk ih =>
    rw [valueAt_append, ih]
    simp [child, hk]
  | listed _ _ hk hi ih =>
    rw [valueAt_append, ih]
    simp [child, hk, hi]
  | named _ _ hk hname ih =>
    rw [valueAt_append, ih]
    simp [child, hk, hname]

/-- The properties of the schema at the path have their names and their places. -/
def PropertiesKept (root : Json) (path : List PathStep) (props : Fields) : Prop :=
  ∃ kept, valueAt (strictifySchema root) (path ++ [.key "properties"]) = some (.obj kept) ∧
    kept.map Prod.fst = props.map Prod.fst ∧
    ∀ name s, props.lookup name = some s → kept.lookup name = some (strictifySchema s)

def LiteralKept (root : Json) (path : List PathStep) (k : String) (lit : Json) : Prop :=
  valueAt (strictifySchema root) (path ++ [.key k]) = some lit

/-- Every schema of the document keeps what it says of names and of data. -/
def Described (root : Json) : Prop :=
  ∀ path m, SchemaAt root path (.obj m) →
    (∀ props, m.lookup "properties" = some (.obj props) → PropertiesKept root path props) ∧
      ∀ k ∈ literalKeywords, ∀ lit, m.lookup k = some lit → LiteralKept root path k lit

/-- A map of names that does not look like a schema with properties or with a reference. -/
def Plain (m : Fields) : Prop := m.lookup "$ref" = none ∧ propertyMap m = none

theorem strictifySchema_plain {m : Fields} (h : Plain m) :
    strictifySchema (.obj m) = .obj (strictifyValues m) := by
  rw [strictifySchema_node h.1, ensure_of_none]
  rw [← Option.not_isSome_iff_eq_none, propertyMap_strictifyValues, h.2]
  decide

/-- Data in which no object looks like a schema stays as it is. -/
theorem strictifySchema_inert {v : Json} (h : ∀ m ∈ objects v, Plain m) : strictifySchema v = v := by
  induction v using Json.induct_mem with
  | null => rfl
  | bool b => rfl
  | num n => rfl
  | str s => rfl
  | arr xs ih =>
    rw [strictifySchema_arr, List.map_congr_left (g := id), List.map_id]
    intro x hx
    exact ih x hx fun m hm => h m (mem_objectsItems.mpr ⟨x, hx, hm⟩)
  | obj m ih =>
    rw [strictifySchema_plain (h m List.mem_cons_self), strictifyValues_of_fixed]
    intro f hf
    apply ih f hf
    intro n hn
    exact h n (List.mem_cons_of_mem m (mem_objectsValues.mpr ⟨f, hf, hn⟩))

section
variable {root : Json} {path : List PathStep} {m : Fields}

/-- A keyword of a schema that the pass comes to. -/
theorem valueAt_keyword {k : String} {x : Json} (hs : valueAt root path = some (.obj m))
    (hopen : Open root path) (href : m.lookup "$ref" = none) (hk : k ≠ "required")
    (hx : m.lookup k = some x) :
    valueAt (strictifySchema root) (path ++ [.key k]) = some (strictifySchema x) := by
  apply valueAt_strictifySchema
  · refine (open_append_singleton hs).mpr ⟨hopen, ?_⟩
    intro n hn
    cases hn
    exact ⟨href, fun he => absurd (PathStep.key.inj he) hk⟩
  · rw [valueAt_append, hs]
    simp [child, hx]

theorem propertiesKept_of_plain {props : Fields} (hs : valueAt root path = some (.obj m))
    (hopen : Open root path) (href : m.lookup "$ref" = none)
    (hprops : m.lookup "properties" = some (.obj props)) (hplain : Plain props) :
    PropertiesKept root path props := by
  have hvalue := valueAt_keyword hs hopen href (by decide) hprops
  rw [strictifySchema_plain hplain] at hvalue
  refine ⟨strictifyValues props, hvalue, ?_, ?_⟩
  · rw [strictifyValues_eq_map, List.map_map]
    rfl
  · intro name s hname
    rw [lookup_strictifyValues, hname]
    rfl

theorem literalKept_of_inert {k : String} {lit : Json} (hs : valueAt root path = some (.obj m))
    (hopen : Open root path) (href : m.lookup "$ref" = none) (hk : k ∈ literalKeywords)
    (hlit : m.lookup k = some lit) (hinert : ∀ n ∈ objects lit, Plain n) :
    LiteralKept root path k lit := by
  have hne : k ≠ "required" := by
    rintro rfl
    exact absurd hk (by decide)
  have hvalue := valueAt_keyword hs hopen href hne hlit
  rwa [strictifySchema_inert hinert] at hvalue

end

/-- A schema that the pass comes to is at its place. Without a reference it keeps the names of its
properties and its data, and a reference keeps nothing else. -/
theorem strictifySchema_describes {root s : Json} {path : List PathStep} (hs : SchemaAt root path s)
    (hopen : Open root path) :
    valueAt (strictifySchema root) path = some (strictifySchema s) ∧
      ∀ m, s = .obj m →
        (m.lookup "$ref" = none →
          (∀ props, m.lookup "properties" = some (.obj props) → Plain props →
            PropertiesKept root path props) ∧
          ∀ k ∈ literalKeywords, ∀ lit, m.lookup k = some lit → (∀ n ∈ objects lit, Plain n) →
            LiteralKept root path k lit) ∧
        ∀ r, m.lookup "$ref" = some r → strictifySchema s = .obj [("$ref", r)] := by
  refine ⟨valueAt_strictifySchema hopen hs.valueAt, ?_⟩
  rintro m rfl
  refine ⟨fun href => ⟨?_, ?_⟩, fun r href => strictifySchema_ref href⟩
  · intro props hprops hplain
    exact propertiesKept_of_plain hs.valueAt hopen href hprops hplain
  · intro k hk lit hlit hinert
    exact literalKept_of_inert hs.valueAt hopen href hk hlit hinert

/-- The schema of a property `a`, with a property `b` and a default. -/
theorem strictifySchema_describes_property :
    let s : Fields := [("default", .obj []), ("properties", .obj [("b", .obj [])])]
    let root : Json := .obj [("properties", .obj [("a", .obj s)])]
    PropertiesKept root [.key "properties", .key "a"] [("b", .obj [])] ∧
      LiteralKept root [.key "properties", .key "a"] "default" (.obj []) := by
  intro s root
  have hmap : List.lookup "properties" [("properties", Json.obj [("a", .obj s)])] =
      some (.obj [("a", .obj s)]) := rfl
  have hs : SchemaAt root ([] ++ [.key "properties", .key "a"]) (.obj s) :=
    .named .root (by decide) hmap rfl
  have hopen : Open root ([] ++ [.key "properties", .key "a"]) := by
    rw [List.append_cons, open_append_singleton (v := .obj [("a", .obj s)]) rfl,
      open_append_singleton (v := root) rfl]
    refine ⟨⟨open_nil root, ?_⟩, ?_⟩
    · intro m hm
      rw [← Json.obj.inj hm]
      exact ⟨rfl, fun h => by simp at h⟩
    · intro m hm
      rw [← Json.obj.inj hm]
      exact ⟨rfl, fun h => by simp at h⟩
  obtain ⟨hprops, hliterals⟩ := ((strictifySchema_describes hs hopen).2 s rfl).1 rfl
  refine ⟨hprops _ rfl ⟨rfl, rfl⟩, hliterals _ (by decide) _ rfl ?_⟩
  intro n hn
  cases List.mem_singleton.mp hn
  exact ⟨rfl, rfl⟩

/-- A default beside a reference is dropped. -/
theorem default_beside_ref_dropped :
    ¬Described (.obj [("$ref", .str "#/$defs/Tier"), ("default", .str "Unknown")]) := by
  intro h
  have hdefault := (h [] _ .root).2 "default" (by decide) (.str "Unknown") rfl
  rw [LiteralKept, strictifySchema_ref rfl] at hdefault
  simp [child, SortedMap.lookup_cons_ite] at hdefault

end ReactRuntime.Core.OpenaiStructuredOutputs
