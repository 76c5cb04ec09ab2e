import ReactRuntime.Library.Sorting
import ReactRuntime.Serde.Json

/-!
# Schemas for structured outputs

An object schema with `properties` has to forbid other properties and to require all of its own, and
a `$ref` may have nothing beside it. One pass over the document sees to both. It takes every object
for a schema, the map of the property names and the data of a default as well.
-/
namespace ReactRuntime.Core.OpenaiStructuredOutputs
open Library Serde

def asObject : Json → Option Fields
  | .obj m => some m
  | _ => none

def asArray : Json → Option (List Json)
  | .arr a => some a
  | _ => none

/-- `entry(k).or_insert(v)`. -/
def entryOrInsert (k : String) (v : Json) (m : Fields) : Fields :=
  if (m.lookup k).isSome then m else SortedMap.insertEntry k v m

/-- Write through the reference to the entry of a key. -/
def setEntry (k : String) (v : Json) (m : Fields) : Fields :=
  m.map fun f => if f.1 = k then (f.1, v) else f

theorem entryOrInsert_of_isSome {k : String} {v : Json} {m : Fields}
    (h : (m.lookup k).isSome = true) : entryOrInsert k v m = m := if_pos h

theorem lookup_entryOrInsert (k j : String) (v : Json) (m : Fields) :
    (entryOrInsert k v m).lookup j =
      if j = k then some ((m.lookup k).getD v) else m.lookup j := by
  unfold entryOrInsert
  cases hk : m.lookup k with
  | none =>
    rw [if_neg (by simp), SortedMap.lookup_insertEntry]
    rfl
  | some w =>
    rw [if_pos (by simp)]
    split_ifs with hj
    · rw [hj, hk]
      rfl
    · rfl

theorem mem_entryOrInsert {k : String} {v : Json} {m : Fields} {f : String × Json} :
    f ∈ entryOrInsert k v m ↔ f ∈ m ∨ m.lookup k = none ∧ f = (k, v) := by
  unfold entryOrInsert
  cases hk : m.lookup k with
  | none =>
    rw [if_neg (by simp), (SortedMap.insertEntry_perm hk v).mem_iff, List.mem_cons, or_comm]
    simp
  | some w => simp

theorem lookup_setEntry (k j : String) (v : Json) (m : Fields) :
    (setEntry k v m).lookup j = if j = k then (m.lookup k).map fun _ => v else m.lookup j := by
  induction m with
  | nil => simp [setEntry]
  | cons f m ih =>
    have hcons : setEntry k v (f :: m) = (f.1, if f.1 = k then v else f.2) :: setEntry k v m := by
      rw [setEntry, List.map_cons]
      split_ifs <;> rfl
    rw [hcons, SortedMap.lookup_cons_ite, ih, SortedMap.lookup_cons_ite, SortedMap.lookup_cons_ite]
    by_cases hj : j = k
    · subst hj
      by_cases hf : j = f.1
      · simp [← hf]
      · simp [hf]
    · by_cases hf : j = f.1
      · subst hf
        simp [hj]
      · simp [hj, hf]

theorem setEntry_of_forall {k : String} {v : Json} {m : Fields} (h : ∀ f ∈ m, f.1 = k → f.2 = v) :
    setEntry k v m = m := by
  rw [setEntry, List.map_congr_left (g := id), List.map_id]
  intro f hf
  split_ifs with hk
  · exact Prod.ext rfl (h f hf hk).symm
  · rfl

theorem mem_setEntry {k : String} {v : Json} {m : Fields} {f : String × Json} :
    f ∈ setEntry k v m ↔ f ∈ m ∧ f.1 ≠ k ∨ (m.lookup k).isSome = true ∧ f = (k, v) := by
  rw [setEntry, List.mem_map, SortedMap.lookup_isSome]
  constructor
  · rintro ⟨g, hg, rfl⟩
    split_ifs with hk
    · exact Or.inr ⟨⟨g, hg, hk⟩, by rw [hk]⟩
    · exact Or.inl ⟨hg, hk⟩
  · rintro (⟨hf, hk⟩ | ⟨⟨g, hg, hk⟩, rfl⟩)
    · exact ⟨f, hf, if_neg hk⟩
    · exact ⟨g, hg, by rw [if_pos hk, hk]⟩

/-- The object under `properties`. -/
def propertyMap (m : Fields) : Option Fields := (m.lookup "properties").bind asObject

/-- The strings that stand in `required`. -/
def requiredNames (m : Fields) : List String :=
  (((m.lookup "required").bind asArray).map (List.filterMap Json.asStr)).getD []

def pushMissing (reqSet : List String) (k : String) : List String :=
  if k ∈ reqSet then reqSet else reqSet ++ [k]

/-- The names already required and the names of the properties, sorted, each one once. -/
def requireAll (reqSet propKeys : List String) : List String :=
  sortDedup (propKeys.foldl pushMissing reqSet)

def ensureAllPropertiesRequired (m : Fields) : Fields :=
  match propertyMap m with
  | none => m
  | some props =>
    let m := entryOrInsert "additionalProperties" (.bool false) m
    let m := entryOrInsert "required" (.arr []) m
    setEntry "required" (.arr ((requireAll (requiredNames m) (props.map Prod.fst)).map .str)) m

theorem mem_foldl_pushMissing {x : String} (reqSet propKeys : List String) :
    x ∈ propKeys.foldl pushMissing reqSet ↔ x ∈ reqSet ∨ x ∈ propKeys := by
  induction propKeys generalizing reqSet with
  | nil => simp
  | cons k propKeys ih =>
    have hpush : x ∈ pushMissing reqSet k ↔ x ∈ reqSet ∨ x = k := by
      unfold pushMissing
      split_ifs with hk
      · constructor
        · exact Or.inl
        · rintro (hx | rfl)
          · exact hx
          · exact hk
      · simp
    rw [List.foldl_cons, ih, hpush, List.mem_cons, or_assoc]

@[simp] theorem mem_requireAll {x : String} {reqSet propKeys : List String} :
    x ∈ requireAll reqSet propKeys ↔ x ∈ reqSet ∨ x ∈ propKeys := by
  rw [requireAll, mem_sortDedup, mem_foldl_pushMissing]

theorem requireAll_requireAll (reqSet propKeys : List String) :
    requireAll (requireAll reqSet propKeys) propKeys = requireAll reqSet propKeys := by
  apply sortDedup_eq (pairwise_sortDedup _)
  intro x
  rw [mem_foldl_pushMissing, ← requireAll, mem_requireAll]
  tauto

section
variable {m props : Fields}

theorem ensure_of_none (h : propertyMap m = none) : ensureAllPropertiesRequired m = m := by
  rw [ensureAllPropertiesRequired, h]

theorem lookup_ensure {k : String} (hadd : k ≠ "additionalProperties") (hreq : k ≠ "required") :
    (ensureAllPropertiesRequired m).lookup k = m.lookup k := by
  unfold ensureAllPropertiesRequired
  split
  · rfl
  · rw [lookup_setEntry, if_neg hreq, lookup_entryOrInsert, if_neg hreq, lookup_entryOrInsert,
      if_neg hadd]

/-- An entry that is there stays, but for a `required` beside properties. -/
theorem lookup_ensure_of_some {k : String} {x : Json} (hx : m.lookup k = some x)
    (hk : k = "required" → propertyMap m = none) :
    (ensureAllPropertiesRequired m).lookup k = some x := by
  unfold ensureAllPropertiesRequired
  split
  · exact hx
  · next h =>
    have hreq : k ≠ "required" := fun he => by simp [hk he] at h
    rw [lookup_setEntry, if_neg hreq, lookup_entryOrInsert, if_neg hreq, lookup_entryOrInsert]
    split_ifs with hadd
    · rw [← hadd, hx]
      rfl
    · exact hx

theorem propertyMap_ensure : propertyMap (ensureAllPropertiesRequired m) = propertyMap m := by
  rw [propertyMap, propertyMap, lookup_ensure (by decide) (by decide)]

theorem additionalProperties_ensure (h : propertyMap m = some props) :
    ((ensureAllPropertiesRequired m).lookup "additionalProperties").isSome = true := by
  rw [ensureAllPropertiesRequired, h]
  simp [lookup_setEntry, lookup_entryOrInsert]

theorem required_ensure (h : propertyMap m = some props) :
    (ensureAllPropertiesRequired m).lookup "required" =
      some (.arr ((requireAll (requiredNames m) (props.map Prod.fst)).map .str)) := by
  have hnames : requiredNames (entryOrInsert "required" (.arr [])
      (entryOrInsert "additionalProperties" (.bool false) m)) = requiredNames m := by
    unfold requiredNames
    rw [lookup_entryOrInsert, if_pos rfl, lookup_entryOrInsert, if_neg (by decide)]
    cases m.lookup "required" <;> rfl
  rw [ensureAllPropertiesRequired, h]
  simp only [hnames, lookup_setEntry, lookup_entryOrInsert, if_true, Option.map_some]

theorem mem_ensure (h : propertyMap m = some props) {f : String × Json} :
    f ∈ ensureAllPropertiesRequired m ↔
      f ∈ m ∧ f.1 ≠ "required" ∨
        m.lookup "additionalProperties" = none ∧ f = ("additionalProperties", .bool false) ∨
        f = ("required", .arr ((requireAll (requiredNames m) (props.map Prod.fst)).map .str)) := by
  have hrequired := required_ensure h
  rw [ensureAllPropertiesRequired, h] at hrequired ⊢
  simp only [lookup_setEntry, lookup_entryOrInsert, if_true, Option.map_some,
    Option.some.injEq] at hrequired
  simp only [hrequired, mem_setEntry, mem_entryOrInsert, lookup_entryOrInsert, if_true,
    Option.isSome_some, true_and]
  constructor
  · rintro (⟨(hf | ⟨hadd, rfl⟩) | ⟨-, rfl⟩, hk⟩ | rfl)
    · exact Or.inl ⟨hf, hk⟩
    · exact Or.inr (Or.inl ⟨hadd, rfl⟩)
    · exact absurd rfl hk
    · exact Or.inr (Or.inr rfl)
  · rintro (⟨hf, hk⟩ | ⟨hadd, rfl⟩ | rfl)
    · exact Or.inl ⟨Or.inl (Or.inl hf), hk⟩
    · exact Or.inl ⟨Or.inl (Or.inr ⟨hadd, rfl⟩), by decide⟩
    · exact Or.inr rfl

theorem ensure_ensure (m : Fields) :
    ensureAllPropertiesRequired (ensureAllPropertiesRequired m) = ensureAllPropertiesRequired m := by
  cases h : propertyMap m with
  | none => rw [ensure_of_none h, ensure_of_none h]
  | some props =>
    have hrequired := required_ensure h
    have hnames : requiredNames (ensureAllPropertiesRequired m) =
        requireAll (requiredNames m) (props.map Prod.fst) := by
      rw [requiredNames, hrequired]
      simp [asArray, List.filterMap_map, Function.comp_def, Json.asStr]
    conv_lhs => rw [ensureAllPropertiesRequired, propertyMap_ensure, h]
    simp only
    rw [entryOrInsert_of_isSome (additionalProperties_ensure h),
      entryOrInsert_of_isSome (by rw [hrequired]; rfl), hnames, requireAll_requireAll]
    apply setEntry_of_forall
    intro f hf hk
    rcases (mem_ensure h).mp hf with ⟨-, hne⟩ | ⟨-, rfl⟩ | rfl
    · exact absurd hk hne
    · exact absurd hk (by decide)
    · rfl

/-- What holds of the two values written holds of all if it does of those that stay. -/
theorem forall_ensure {P : Json → Prop} (hfalse : P (.bool false))
    (hstrings : ∀ ks : List String, P (.arr (ks.map .str))) :
    (∀ f ∈ ensureAllPropertiesRequired m, P f.2) ↔
      ∀ f ∈ m, ¬((propertyMap m).isSome ∧ f.1 = "required") → P f.2 := by
  cases h : propertyMap m with
  | none =>
    rw [ensure_of_none h]
    simp
  | some props =>
    constructor
    · intro hall f hf hk
      exact hall f ((mem_ensure h).mpr (Or.inl ⟨hf, fun he => hk ⟨rfl, he⟩⟩))
    · intro hall f hf
      rcases (mem_ensure h).mp hf with ⟨hf, hk⟩ | ⟨-, rfl⟩ | rfl
      · exact hall f hf fun he => hk he.2
      · exact hfalse
      · exact hstrings _

end

mutual
def strictifySchema : Json → Json
  | .arr a => .arr (strictifyItems a)
  | .obj m =>
    match m.lookup "$ref" with
    | some refValue => .obj [("$ref", refValue)]
    | none => .obj (ensureAllPropertiesRequired (strictifyValues m))
  | .null => .null
  | .bool b => .bool b
  | .num n => .num n
  | .str s => .str s

def strictifyItems : List Json → List Json
  | [] => []
  | x :: xs => strictifySchema x :: strictifyItems xs

def strictifyValues : Fields → Fields
  | [] => []
  | (k, x) :: m => (k, strictifySchema x) :: strictifyValues m
end

theorem strictifyItems_eq_map (xs : List Json) : strictifyItems xs = xs.map strictifySchema := by
  induction xs with
  | nil => rfl
  | cons x xs ih => rw [strictifyItems, ih, List.map_cons]

theorem strictifyValues_eq_map (m : Fields) :
    strictifyValues m = m.map fun f => (f.1, strictifySchema f.2) := by
  induction m with
  | nil => rfl
  | cons f m ih => rw [strictifyValues, ih, List.map_cons]

@[simp] theorem strictifySchema_arr (xs : List Json) :
    strictifySchema (.arr xs) = .arr (xs.map strictifySchema) := by
  rw [strictifySchema, strictifyItems_eq_map]

theorem strictifySchema_strings (ks : List String) :
    strictifySchema (.arr (ks.map .str)) = .arr (ks.map .str) := by
  rw [strictifySchema_arr, List.map_map]
  rfl

theorem strictifySchema_ref {m : Fields} {r : Json} (h : m.lookup "$ref" = some r) :
    strictifySchema (.obj m) = .obj [("$ref", r)] := by
  rw [strictifySchema, h]

theorem strictifySchema_node {m : Fields} (h : m.lookup "$ref" = none) :
    strictifySchema (.obj m) = .obj (ensureAllPropertiesRequired (strictifyValues m)) := by
  rw [strictifySchema, h]

theorem lookup_strictifyValues (m : Fields) (k : String) :
    (strictifyValues m).lookup k = (m.lookup k).map strictifySchema := by
  rw [strictifyValues_eq_map, SortedMap.lookup_map_snd]

theorem mem_strictifyValues {m : Fields} {f : String × Json} :
    f ∈ strictifyValues m ↔ ∃ g ∈ m, (g.1, strictifySchema g.2) = f := by
  rw [strictifyValues_eq_map, List.mem_map]

theorem strictifyValues_of_fixed {m : Fields} (h : ∀ f ∈ m, strictifySchema f.2 = f.2) :
    strictifyValues m = m := by
  rw [strictifyValues_eq_map, List.map_congr_left (g := id), List.map_id]
  intro f hf
  exact Prod.ext rfl (h f hf)

theorem asObject_strictifySchema (v : Json) :
    (asObject (strictifySchema v)).isSome = (asObject v).isSome := by
  cases v with
  | obj m =>
    rw [strictifySchema]
    cases m.lookup "$ref" <;> rfl
  | _ => rfl

theorem propertyMap_strictifyValues (m : Fields) :
    (propertyMap (strictifyValues m)).isSome = (propertyMap m).isSome := by
  rw [propertyMap, propertyMap, lookup_strictifyValues]
  cases m.lookup "properties" with
  | none => rfl
  | some v => exact asObject_strictifySchema v

/-- A second pass finds nothing to do, whatever the value is. -/
theorem strictifySchema_strictifySchema (v : Json) :
    strictifySchema (strictifySchema v) = strictifySchema v := by
  induction v using Json.induct_mem with
  | null => rfl
  | bool b => rfl
  | num n => rfl
  | str s => rfl
  | arr xs ih =>
    simp only [strictifySchema_arr, List.map_map, Json.arr.injEq]
    exact List.map_congr_left ih
  | obj m ih =>
    cases href : m.lookup "$ref" with
    | some r =>
      rw [strictifySchema_ref href]
      exact strictifySchema_ref rfl
    | none =>
      have hvalues : ∀ f ∈ strictifyValues m, strictifySchema f.2 = f.2 := by
        intro f hf
        obtain ⟨g, hg, rfl⟩ := mem_strictifyValues.mp hf
        exact ih g hg
      have hfixed : ∀ f ∈ ensureAllPropertiesRequired (strictifyValues m),
          strictifySchema f.2 = f.2 := by
        exact (forall_ensure (P := fun x => strictifySchema x = x) rfl strictifySchema_strings).mpr
          fun f hf _ => hvalues f hf
      rw [strictifySchema_node href, strictifySchema_node, strictifyValues_of_fixed hfixed,
        ensure_ensure]
      rw [lookup_ensure (by decide) (by decide), lookup_strictifyValues, href]
      rfl

mutual
/-- The objects in a value at every depth. -/
def objects : Json → List Fields
  | .arr xs => objectsItems xs
  | .obj m => m :: objectsValues m
  | .null | .bool _ | .num _ | .str _ => []

def objectsItems : List Json → List Fields
  | [] => []
  | x :: xs => objects x ++ objectsItems xs

def objectsValues : Fields → List Fields
  | [] => []
  | (_, x) :: m => objects x ++ objectsValues m
end

structure NodeShaped (m : Fields) : Prop where
  refAlone : (m.lookup "$ref").isSome = true → ∀ f ∈ m, f.1 = "$ref"
  closed : ∀ props, m.lookup "properties" = some (.obj props) →
    (m.lookup "additionalProperties").isSome = true
  complete : ∀ props, m.lookup "properties" = some (.obj props) →
    ∃ req : List String, m.lookup "required" = some (.arr (req.map .str)) ∧
      req.Pairwise (· < ·) ∧ ∀ f ∈ props, f.1 ∈ req

def Shaped (v : Json) : Prop := ∀ m ∈ objects v, NodeShaped m

theorem mem_objectsItems {n : Fields} {xs : List Json} :
    n ∈ objectsItems xs ↔ ∃ x ∈ xs, n ∈ objects x := by
  induction xs with
  | nil => simp [objectsItems]
  | cons x xs ih => simp [objectsItems, ih]

theorem mem_objectsValues {n m : Fields} :
    n ∈ objectsValues m ↔ ∃ f ∈ m, n ∈ objects f.2 := by
  induction m with
  | nil => simp [objectsValues]
  | cons f m ih => simp [objectsValues, ih]

theorem shaped_arr {xs : List Json} : Shaped (.arr xs) ↔ ∀ x ∈ xs, Shaped x := by
  simp only [Shaped, objects, mem_objectsItems]
  exact ⟨fun h x hx m hm => h m ⟨x, hx, hm⟩, fun h m ⟨x, hx, hm⟩ => h x hx m hm⟩

theorem shaped_obj {m : Fields} : Shaped (.obj m) ↔ NodeShaped m ∧ ∀ f ∈ m, Shaped f.2 := by
  simp only [Shaped, objects, List.forall_mem_cons, mem_objectsValues]
  exact and_congr_right fun _ =>
    ⟨fun h f hf n hn => h n ⟨f, hf, hn⟩, fun h n ⟨f, hf, hn⟩ => h f hf n hn⟩

theorem shaped_strings (ks : List String) : Shaped (.arr (ks.map .str)) := by
  rw [shaped_arr]
  intro x hx
  obtain ⟨s, -, rfl⟩ := List.mem_map.mp hx
  exact fun m hm => absurd hm List.not_mem_nil

theorem nodeShaped_ref (r : Json) : NodeShaped [("$ref", r)] where
  refAlone := fun _ f hf => by rw [List.mem_singleton.mp hf]
  closed := fun _ h => by simp [SortedMap.lookup_cons_ite] at h
  complete := fun _ h => by simp [SortedMap.lookup_cons_ite] at h

theorem propertyMap_eq_some {m props : Fields} :
    propertyMap m = some props ↔ m.lookup "properties" = some (.obj props) := by
  unfold propertyMap
  cases m.lookup "properties" with
  | none => simp
  | some v => cases v <;> simp [asObject]

theorem nodeShaped_ensure {m : Fields} (href : m.lookup "$ref" = none) :
    NodeShaped (ensureAllPropertiesRequired m) where
  refAlone := fun h => by simp [lookup_ensure, href] at h
  closed := fun props h => by
    rw [← propertyMap_eq_some, propertyMap_ensure] at h
    exact additionalProperties_ensure h
  complete := fun props h => by
    rw [← propertyMap_eq_some, propertyMap_ensure] at h
    exact ⟨_, required_ensure h, pairwise_sortDedup _, fun f hf =>
      mem_requireAll.mpr (Or.inr (List.mem_map_of_mem hf))⟩

mutual
/-- The values of the `$ref`s that the pass comes to. It does not go into them. -/
def refValues : Json → List Json
  | .arr xs => refValuesItems xs
  | .obj m =>
    match m.lookup "$ref" with
    | some r => [r]
    | none => refValuesIn (propertyMap m).isSome m
  | .null | .bool _ | .num _ | .str _ => []

def refValuesItems : List Json → List Json
  | [] => []
  | x :: xs => refValues x ++ refValuesItems xs

/-- What stands under `required` is written over where there are properties. -/
def refValuesIn (props : Bool) : Fields → List Json
  | [] => []
  | (k, x) :: m => (if props ∧ k = "required" then [] else refValues x) ++ refValuesIn props m
end

theorem mem_refValuesItems {r : Json} {xs : List Json} :
    r ∈ refValuesItems xs ↔ ∃ x ∈ xs, r ∈ refValues x := by
  induction xs with
  | nil => simp [refValuesItems]
  | cons x xs ih => simp [refValuesItems, ih]

theorem mem_refValuesIn {r : Json} {props : Bool} {m : Fields} :
    r ∈ refValuesIn props m ↔ ∃ f ∈ m, ¬(props ∧ f.1 = "required") ∧ r ∈ refValues f.2 := by
  induction m with
  | nil => simp [refValuesIn]
  | cons f m ih =>
    rw [refValuesIn, List.mem_append, ih, List.exists_mem_cons_iff]
    split_ifs with h
    · rw [iff_false_intro (not_not_intro h), false_and, false_or, List.mem_nil_iff, false_or]
    · rw [iff_true_intro h, true_and]

/-- What the pass puts out has the shape exactly if the values that it does not go into have it. -/
theorem shaped_strictifySchema (v : Json) :
    Shaped (strictifySchema v) ↔ ∀ r ∈ refValues v, Shaped r := by
  induction v using Json.induct_mem with
  | null => simp [strictifySchema, Shaped, objects, refValues]
  | bool b => simp [strictifySchema, Shaped, objects, refValues]
  | num n => simp [strictifySchema, Shaped, objects, refValues]
  | str s => simp [strictifySchema, Shaped, objects, refValues]
  | arr xs ih =>
    simp only [strictifySchema_arr, shaped_arr, List.forall_mem_map, refValues, mem_refValuesItems]
    constructor
    · rintro h r ⟨x, hx, hr⟩
      exact (ih x hx).mp (h x hx) r hr
    · intro h x hx
      exact (ih x hx).mpr fun r hr => h r ⟨x, hx, hr⟩
  | obj m ih =>
    cases href : m.lookup "$ref" with
    | some r =>
      rw [strictifySchema_ref href, shaped_obj, refValues, href]
      simp [nodeShaped_ref]
    | none =>
      have hnode : (strictifyValues m).lookup "$ref" = none := by
        rw [lookup_strictifyValues, href]
        rfl
      rw [strictifySchema_node href, shaped_obj, and_iff_right (nodeShaped_ensure hnode),
        forall_ensure (by simp [Shaped, objects]) shaped_strings, propertyMap_strictifyValues,
        refValues, href]
      simp only [mem_refValuesIn, mem_strictifyValues]
      constructor
      · rintro h r ⟨f, hf, hk, hr⟩
        exact (ih f hf).mp (h _ ⟨f, hf, rfl⟩ hk) r hr
      · rintro h f ⟨g, hg, rfl⟩ hk
        exact (ih g hg).mpr fun r hr => h r ⟨g, hg, hk, hr⟩

/-- The references of schemas are strings. -/
theorem shaped_of_string_refs {v : Json} (h : ∀ r ∈ refValues v, ∃ s, r = .str s) :
    Shaped (strictifySchema v) := by
  rw [shaped_strictifySchema]
  intro r hr m hm
  obtain ⟨s, rfl⟩ := h r hr
  exact absurd hm List.not_mem_nil

/-- One pass is enough everywhere, and it brings a document into the shape exactly if each value of a
`$ref` that it comes to has the shape already. -/
theorem strictifySchema_shapes_iff (v : Json) :
    (Shaped (strictifySchema v) ∧ strictifySchema (strictifySchema v) = strictifySchema v) ↔
      ∀ r ∈ refValues v, Shaped r := by
  rw [and_iff_left (strictifySchema_strictifySchema v)]
  exact shaped_strictifySchema v

/-- A property with the name `$ref` is taken for a reference, and its schema stays open. -/
theorem property_named_ref_stays_open :
    let doc : Json := .obj [("properties", .obj [("$ref", .obj [("properties", .obj []),
      ("type", .str "object")])]), ("type", .str "object")]
    ¬(Shaped (strictifySchema doc) ∧ strictifySchema (strictifySchema doc) = strictifySchema doc) := by
  intro doc h
  have hmem : .obj [("properties", .obj []), ("type", .str "object")] ∈ refValues doc := by
    simp [doc, refValues, refValuesIn, SortedMap.lookup_cons_ite]
  have hshaped := shaped_obj.mp ((shaped_strictifySchema doc).mp h.1 _ hmem)
  have hclosed := hshaped.1.closed [] rfl
  simp [SortedMap.lookup_cons_ite] at hclosed

/-- `insert`, where the value is an object. -/
def insertIn (k : String) (x : Json) : Json → Json
  | .obj m => .obj (SortedMap.insertEntry k x m)
  | v => v

/-- The schema without the wrapper that `schemars` puts around it. -/
def unwrapRoot (rootV : Json) : Json :=
  match rootV.get "schema" with
  | some schemaV =>
    let inner := ["definitions", "$defs"].foldl (fun inner defsKey =>
      match rootV.get defsKey with
      | some defs => if (asObject defs).any (!·.isEmpty) then insertIn defsKey defs inner else inner
      | none => inner) schemaV
    match rootV.get "$schema" with
    | some schemaUri => insertIn "$schema" schemaUri inner
    | none => inner
  | none => rootV

def withType : Json → Json
  | .obj m => .obj (entryOrInsert "type" (.str "object") m)
  | v => v

def rootSchemaJsonToJsonSchemaValue (rootV : Json) : Json :=
  strictifySchema (withType (unwrapRoot rootV))

/-- The document that goes to the service has a type, and it is as another pass would leave it. -/
theorem rootSchema_typed {rootV : Json} {m : Fields} (hroot : unwrapRoot rootV = .obj m)
    (href : m.lookup "$ref" = none) :
    ((rootSchemaJsonToJsonSchemaValue rootV).get "type").isSome = true ∧
      strictifySchema (rootSchemaJsonToJsonSchemaValue rootV) =
        rootSchemaJsonToJsonSchemaValue rootV := by
  constructor
  · have hnode : (entryOrInsert "type" (.str "object") m).lookup "$ref" = none := by
      rw [lookup_entryOrInsert, if_neg (by decide), href]
    rw [rootSchemaJsonToJsonSchemaValue, hroot, withType, strictifySchema_node hnode, Json.get,
      lookup_ensure (by decide) (by decide), lookup_strictifyValues, lookup_entryOrInsert, if_pos rfl]
    rfl
  · exact strictifySchema_strictifySchema _

end ReactRuntime.Core.OpenaiStructuredOutputs
