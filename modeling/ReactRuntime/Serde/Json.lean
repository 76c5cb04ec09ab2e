import ReactRuntime.Library.SortedMap
import Mathlib.Data.String.Basic

/-!
# JSON values as serde_json holds them

`Value::Object` is an ordered map, so a document built field by field keeps its
keys sorted and a later duplicate key replaces an earlier one. A float is kept as
its bit pattern: the runtime prints floats, reads them back and compares them, and
only the comparison looks at the bits.
-/
namespace ReactRuntime.Serde
open Library

inductive Number where
  | posInt (n : UInt64)
  | negInt (n : Int64)
  | float (bits : UInt64)
deriving DecidableEq, Repr

inductive Json where
  | null
  | bool (b : Bool)
  | num (n : Number)
  | str (s : String)
  | arr (xs : List Json)
  | obj (fs : List (String × Json))
deriving Repr

abbrev Fields := List (String × Json)

/-- What `==` compares, for which the two zeros are one float. -/
def Number.compared : Number → Number
  | .float bits => .float (if bits = 0x8000000000000000 then 0 else bits)
  | n => n

namespace Json

mutual
def decEq : (a b : Json) → Decidable (a = b)
  | .null, .null => isTrue rfl
  | .bool a, .bool b =>
    if h : a = b then isTrue (by rw [h]) else isFalse (by simpa using h)
  | .num a, .num b =>
    if h : a = b then isTrue (by rw [h]) else isFalse (by simpa using h)
  | .str a, .str b =>
    if h : a = b then isTrue (by rw [h]) else isFalse (by simpa using h)
  | .arr a, .arr b =>
    match decEqList a b with
    | isTrue h => isTrue (by rw [h])
    | isFalse h => isFalse (by simpa using h)
  | .obj a, .obj b =>
    match decEqFields a b with
    | isTrue h => isTrue (by rw [h])
    | isFalse h => isFalse (by simpa using h)
  | .null, .bool _ | .null, .num _ | .null, .str _ | .null, .arr _ | .null, .obj _
  | .bool _, .null | .bool _, .num _ | .bool _, .str _ | .bool _, .arr _ | .bool _, .obj _
  | .num _, .null | .num _, .bool _ | .num _, .str _ | .num _, .arr _ | .num _, .obj _
  | .str _, .null | .str _, .bool _ | .str _, .num _ | .str _, .arr _ | .str _, .obj _
  | .arr _, .null | .arr _, .bool _ | .arr _, .num _ | .arr _, .str _ | .arr _, .obj _
  | .obj _, .null | .obj _, .bool _ | .obj _, .num _ | .obj _, .str _ | .obj _, .arr _ =>
    isFalse (by simp)

def decEqList : (a b : List Json) → Decidable (a = b)
  | [], [] => isTrue rfl
  | [], _ :: _ | _ :: _, [] => isFalse (by simp)
  | x :: xs, y :: ys =>
    match decEq x y, decEqList xs ys with
    | isTrue h, isTrue hs => isTrue (by rw [h, hs])
    | isFalse h, _ => isFalse (by simp [h])
    | _, isFalse hs => isFalse (by simp [hs])

def decEqFields : (a b : List (String × Json)) → Decidable (a = b)
  | [], [] => isTrue rfl
  | [], _ :: _ | _ :: _, [] => isFalse (by simp)
  | (j, x) :: xs, (k, y) :: ys =>
    if hk : j = k then
      match decEq x y, decEqFields xs ys with
      | isTrue h, isTrue hs => isTrue (by rw [hk, h, hs])
      | isFalse h, _ => isFalse (by simp [h])
      | _, isFalse hs => isFalse (by simp [hs])
    else isFalse (by simp [hk])
end

instance : DecidableEq Json := decEq

mutual
/-- Nested containers on the longest path; a scalar has none. -/
def depth : Json → Nat
  | .arr xs => depthList xs + 1
  | .obj fs => depthFields fs + 1
  | .null | .bool _ | .num _ | .str _ => 0

def depthList : List Json → Nat
  | [] => 0
  | x :: xs => max x.depth (depthList xs)

def depthFields : Fields → Nat
  | [] => 0
  | (_, v) :: fs => max v.depth (depthFields fs)
end

theorem depthList_le {xs : List Json} {n : Nat} : depthList xs ≤ n ↔ ∀ x ∈ xs, x.depth ≤ n := by
  induction xs with
  | nil => simp [depthList]
  | cons x xs ih => simp [depthList, ih]

theorem depthFields_le {fs : Fields} {n : Nat} : depthFields fs ≤ n ↔ ∀ f ∈ fs, f.2.depth ≤ n := by
  induction fs with
  | nil => simp [depthFields]
  | cons f fs ih => simp [depthFields, ih]

/-- A container has what its members have. -/
@[elab_as_elim]
theorem induct_mem {P : Json → Prop} (null : P .null) (bool : ∀ b, P (.bool b))
    (num : ∀ n, P (.num n)) (str : ∀ s, P (.str s)) (arr : ∀ xs, (∀ x ∈ xs, P x) → P (.arr xs))
    (obj : ∀ fs, (∀ f ∈ fs, P f.2) → P (.obj fs)) (v : Json) : P v := by
  induction hn : v.depth using Nat.strongRecOn generalizing v with
  | ind n ih =>
    subst hn
    cases v with
    | null => exact null
    | bool b => exact bool b
    | num n => exact num n
    | str s => exact str s
    | arr xs =>
      refine arr xs fun x hx => ih x.depth ?_ x rfl
      exact Nat.lt_succ_of_le (depthList_le.mp (Nat.le_refl _) x hx)
    | obj fs =>
      refine obj fs fun f hf => ih f.2.depth ?_ f.2 rfl
      exact Nat.lt_succ_of_le (depthFields_le.mp (Nat.le_refl _) f hf)

mutual
/-- Two documents are equal for serde_json exactly if these are the same. -/
def compared : Json → Json
  | .num n => .num n.compared
  | .arr xs => .arr (comparedList xs)
  | .obj fs => .obj (comparedFields fs)
  | .null => .null
  | .bool b => .bool b
  | .str s => .str s

def comparedList : List Json → List Json
  | [] => []
  | x :: xs => compared x :: comparedList xs

def comparedFields : Fields → Fields
  | [] => []
  | (k, v) :: fs => (k, compared v) :: comparedFields fs
end

example : compared (.arr [.num (.float 0x8000000000000000)]) = compared (.arr [.num (.float 0)]) := rfl

/-- `Value::get` with a key. -/
def get : Json → String → Option Json
  | .obj fs, key => fs.lookup key
  | _, _ => none

def asStr : Json → Option String
  | .str s => some s
  | _ => none

/-- The document that a serializer builds by inserting the fields in order. -/
def object (fs : Fields) : Json := .obj (SortedMap.ofList fs).entries

end Json

namespace De
variable {α : Type}

/-- An `Option` field: an absent value is written as `null`. -/
def option (enc : α → Json) : Option α → Json
  | none => .null
  | some a => enc a

def str : Json → Except String String
  | .str s => .ok s
  | _ => .error "invalid type, expected a string"

def bool : Json → Except String Bool
  | .bool b => .ok b
  | _ => .error "invalid type, expected a boolean"

def u64 : Json → Except String UInt64
  | .num (.posInt n) => .ok n
  | _ => .error "invalid type, expected u64"

def u32 : Json → Except String UInt32
  | .num (.posInt n) =>
    if n.toNat < 2 ^ 32 then .ok n.toUInt32 else .error "invalid value, expected u32"
  | _ => .error "invalid type, expected u32"

def list (dec : Json → Except String α) : Json → Except String (List α)
  | .arr xs => xs.mapM dec
  | _ => .error "invalid type, expected a sequence"

def map (dec : Json → Except String α) : Json → Except String (SortedMap String α)
  | .obj fs => (fs.mapM fun f => (dec f.2).map fun a => (f.1, a)).map SortedMap.ofList
  | _ => .error "invalid type, expected a map"

/-- A field that must be present. -/
def field (k : String) (dec : Json → Except String α) (fs : Fields) : Except String α :=
  match fs.lookup k with
  | some v => dec v
  | none => .error ("missing field " ++ k)

/-- A field of type `Option`: absent and `null` both read as `None`. -/
def optField (k : String) (dec : Json → Except String α) (fs : Fields) :
    Except String (Option α) :=
  match fs.lookup k with
  | none | some .null => .ok none
  | some v => (dec v).map some

/-- A field marked `#[serde(default)]`. -/
def defaultField (k : String) (d : α) (dec : Json → Except String α) (fs : Fields) :
    Except String α :=
  match fs.lookup k with
  | some v => dec v
  | none => .ok d

/-- The check of `#[serde(deny_unknown_fields)]`. -/
def denyUnknown (known : List String) (fs : Fields) : Except String Unit :=
  match fs.find? fun f => !known.contains f.1 with
  | some f => .error ("unknown field " ++ f.1)
  | none => .ok ()

/-- The fields of a struct or a tagged variant. -/
def fields : Json → Except String Fields
  | .obj fs => .ok fs
  | _ => .error "invalid type, expected a map"

end De

theorem lookup_object (fs : Fields) (k : String) :
    (SortedMap.ofList fs).entries.lookup k = fs.reverse.lookup k := SortedMap.get_ofList fs k

@[simp] theorem Json.get_object (fs : Fields) (k : String) :
    (Json.object fs).get k = fs.reverse.lookup k :=
  lookup_object fs k

theorem key_mem_of_mem_object {fs : Fields} {f : String × Json}
    (h : f ∈ (SortedMap.ofList fs).entries) : f ∈ fs := by
  have hg := SortedMap.get_of_mem_entries (k := f.1) (v := f.2) h
  rw [SortedMap.get_ofList] at hg
  obtain ⟨l₁, l₂, hl, -⟩ := List.lookup_eq_some_iff.mp hg
  rw [← List.mem_reverse, hl]
  simp

namespace De
variable {α β : Type}

@[simp] theorem ok_bind (a : α) (f : α → Except String β) : (Except.ok a >>= f) = f a := rfl

@[simp] theorem error_bind (e : String) (f : α → Except String β) :
    (Except.error e >>= f) = .error e := rfl

@[simp] theorem map_ok (f : α → β) (a : α) : (Except.ok a : Except String α).map f = .ok (f a) := rfl

@[simp] theorem str_str (s : String) : str (.str s) = .ok s := rfl

@[simp] theorem bool_bool (b : Bool) : bool (.bool b) = .ok b := rfl

@[simp] theorem u64_posInt (n : UInt64) : u64 (.num (.posInt n)) = .ok n := rfl

@[simp] theorem fields_object (fs : Fields) :
    fields (.object fs) = .ok (SortedMap.ofList fs).entries := rfl

@[simp] theorem field_object (k : String) (dec : Json → Except String α) (fs : Fields) :
    field k dec (SortedMap.ofList fs).entries = field k dec fs.reverse := by
  simp only [field, lookup_object]

@[simp] theorem optField_object (k : String) (dec : Json → Except String α) (fs : Fields) :
    optField k dec (SortedMap.ofList fs).entries = optField k dec fs.reverse := by
  simp only [optField, lookup_object]

@[simp] theorem defaultField_object (k : String) (d : α) (dec : Json → Except String α) (fs : Fields) :
    defaultField k d dec (SortedMap.ofList fs).entries = defaultField k d dec fs.reverse := by
  simp only [defaultField, lookup_object]

@[simp] theorem field_cons (k j : String) (v : Json) (dec : Json → Except String α) (fs : Fields) :
    field k dec ((j, v) :: fs) = if k = j then dec v else field k dec fs := by
  simp only [field, SortedMap.lookup_cons_ite]
  split_ifs <;> rfl

@[simp] theorem defaultField_cons (k j : String) (v : Json) (d : α) (dec : Json → Except String α)
    (fs : Fields) :
    defaultField k d dec ((j, v) :: fs) = if k = j then dec v else defaultField k d dec fs := by
  simp only [defaultField, SortedMap.lookup_cons_ite]
  split_ifs <;> rfl

/-- Read the value of an `Option` field that is present. -/
def nullable (dec : Json → Except String α) : Json → Except String (Option α)
  | .null => .ok none
  | v => (dec v).map some

@[simp] theorem optField_cons (k j : String) (v : Json) (dec : Json → Except String α) (fs : Fields) :
    optField k dec ((j, v) :: fs) = if k = j then nullable dec v else optField k dec fs := by
  simp only [optField, SortedMap.lookup_cons_ite]
  split_ifs
  · cases v <;> rfl
  · rfl

@[simp] theorem denyUnknown_object {known : List String} {fs : Fields}
    (h : (fs.map Prod.fst).all known.contains = true) :
    denyUnknown known (SortedMap.ofList fs).entries = .ok () := by
  have hfind : ((SortedMap.ofList fs).entries.find? fun f => !known.contains f.1) = none := by
    rw [List.find?_eq_none]
    intro f hf
    have hmem := List.mem_map_of_mem (f := Prod.fst) (key_mem_of_mem_object hf)
    simpa using List.all_eq_true.mp h f.1 hmem
  rw [denyUnknown, hfind]

theorem nullable_null (dec : Json → Except String α) : nullable dec .null = .ok none := rfl

theorem nullable_of_ne_null {dec : Json → Except String α} {v : Json} (h : v ≠ .null) :
    nullable dec v = (dec v).map some := by
  cases v <;> first | rfl | exact absurd rfl h

theorem optField_nil (k : String) (dec : Json → Except String α) : optField k dec [] = .ok none := rfl

/-- An optional value that is never written as `null` reads back as it was. -/
theorem nullable_option {f : α → Json} {g : Json → Except String α}
    (hnull : ∀ a, f a ≠ .null) (hg : ∀ a, g (f a) = .ok a) (o : Option α) :
    nullable g (option f o) = .ok o := by
  cases o with
  | none => rfl
  | some a =>
    have hn := hnull a
    have ha := hg a
    simp only [option]
    cases he : f a <;> simp_all [nullable]

theorem option_injective {f : α → Json} (hnull : ∀ a, f a ≠ .null) (hf : Function.Injective f) :
    Function.Injective (option f) := by
  intro o o' h
  cases o <;> cases o'
  · rfl
  · exact absurd h.symm (hnull _)
  · exact absurd h (hnull _)
  · exact congrArg some (hf h)

@[simp] theorem nullable_str (o : Option String) : nullable str (option .str o) = .ok o :=
  nullable_option (f := Json.str) (g := str) (by simp) (fun _ => rfl) o

/-- An optional raw value loses the difference between an absent value and `null`. -/
def dropNull : Option Json → Option Json
  | some .null => none
  | o => o

@[simp] theorem nullable_json (o : Option Json) : nullable .ok (option id o) = .ok (dropNull o) := by
  cases o with
  | none => rfl
  | some v => cases v <;> rfl

@[simp] theorem option_dropNull (o : Option Json) : option id (dropNull o) = option id o := by
  cases o with
  | none => rfl
  | some v => cases v <;> rfl

theorem str_eq_ok {j : Json} {s : String} : str j = .ok s ↔ j = .str s := by
  cases j <;> simp [str]

theorem bool_eq_ok {j : Json} {b : Bool} : bool j = .ok b ↔ j = .bool b := by
  cases j <;> simp [bool]

theorem bind_eq_ok {x : Except String α} {f : α → Except String β} {b : β} :
    (x >>= f) = .ok b ↔ ∃ a, x = .ok a ∧ f a = .ok b := by
  cases x <;> simp

theorem map_eq_ok {x : Except String α} {f : α → β} {b : β} :
    x.map f = .ok b ↔ ∃ a, x = .ok a ∧ f a = b := by
  cases x <;> simp [Except.map]

theorem field_eq_ok {k : String} {dec : Json → Except String α} {fs : Fields} {a : α} :
    field k dec fs = .ok a ↔ ∃ v, fs.lookup k = some v ∧ dec v = .ok a := by
  unfold field
  cases fs.lookup k <;> simp

/-- A field that is present needs no default. -/
theorem defaultField_of_lookup {k : String} {d : α} {dec : Json → Except String α} {fs : Fields}
    {v : Json} (h : fs.lookup k = some v) : defaultField k d dec fs = dec v := by
  rw [defaultField, h]

/-- Reading a list back and writing it again gives the document that was read. -/
theorem map_of_mapM {f : α → Json} {g : Json → Except String α}
    {js : List Json} {xs : List α} (h : ∀ j ∈ js, ∀ a, g j = .ok a → f a = j)
    (hx : js.mapM g = .ok xs) : xs.map f = js := by
  induction js generalizing xs with
  | nil =>
    cases hx
    rfl
  | cons j js ih =>
    rw [List.mapM_cons, bind_eq_ok] at hx
    obtain ⟨a, ha, hx⟩ := hx
    rw [bind_eq_ok] at hx
    obtain ⟨as, has, hx⟩ := hx
    cases hx
    rw [List.map_cons, h j List.mem_cons_self a ha,
      ih (fun i hi => h i (List.mem_cons_of_mem j hi)) has]

theorem mapM_map {f : α → Json} {g : Json → Except String α} (h : ∀ a, g (f a) = .ok a)
    (xs : List α) : (xs.map f).mapM g = Except.ok xs := by
  induction xs with
  | nil => rfl
  | cons x xs ih => simp [List.mapM_cons, ih, h]

@[simp] theorem list_arr (xs : List Json) : list .ok (.arr xs) = .ok xs := by
  have h := mapM_map (f := id) (g := Except.ok) (fun _ => rfl) xs
  rwa [List.map_id] at h

/-- A map is written in key order and read back entry by entry. -/
theorem map_entries {f : α → Json} {g : Json → Except String α} (h : ∀ a, g (f a) = .ok a)
    (m : SortedMap String α) : map g (.obj (m.entries.map fun e => (e.1, f e.2))) = .ok m := by
  have hm : ∀ es : List (String × α), ((es.map fun e => (e.1, f e.2)).mapM fun j =>
      (g j.2).map fun a => (j.1, a)) = Except.ok es := by
    intro es
    induction es with
    | nil => rfl
    | cons e es ih =>
      rw [List.map_cons, List.mapM_cons, ih, h]
      rfl
  rw [map, hm]
  exact congrArg Except.ok (SortedMap.ofList_entries m)

@[simp] theorem map_str (m : SortedMap String String) :
    map str (.obj (m.entries.map fun e => (e.1, .str e.2))) = .ok m :=
  map_entries (f := Json.str) (fun _ => rfl) m

end De
end ReactRuntime.Serde
