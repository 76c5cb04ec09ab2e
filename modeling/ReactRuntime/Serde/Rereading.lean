import ReactRuntime.Serde.Json

/-!
# What a printed document is read back as

The text of a document gives back its values, but for two things: an object is built anew from its
members, and the digits of a float need not be read as the float that they were printed from.
-/
namespace ReactRuntime.Serde
open Library

/-- An integer is read as a negative one only if it is. -/
def Number.readBack (readFloat : UInt64 → UInt64) : Number → Number
  | .posInt n => .posInt n
  | .negInt n => if n < 0 then .negInt n else .posInt n.toUInt64
  | .float bits => .float (readFloat bits)

namespace Json
section
variable (readFloat : UInt64 → UInt64)

mutual
def readBack : Json → Json
  | .num n => .num (n.readBack readFloat)
  | .arr xs => .arr (readBackList xs)
  | .obj fs => .object (readBackFields fs)
  | .null => .null
  | .bool b => .bool b
  | .str s => .str s

def readBackList : List Json → List Json
  | [] => []
  | x :: xs => readBack x :: readBackList xs

def readBackFields : Fields → Fields
  | [] => []
  | (k, v) :: fs => (k, readBack v) :: readBackFields fs
end

end

variable {readFloat : UInt64 → UInt64}

@[simp] theorem readBack_null : readBack readFloat .null = .null := rfl

@[simp] theorem readBack_bool (b : Bool) : (Json.bool b).readBack readFloat = .bool b := rfl

@[simp] theorem readBack_str (s : String) : (Json.str s).readBack readFloat = .str s := rfl

@[simp] theorem readBack_posInt (n : UInt64) :
    (Json.num (.posInt n)).readBack readFloat = .num (.posInt n) := rfl

theorem readBackList_eq_map (xs : List Json) :
    readBackList readFloat xs = xs.map (readBack readFloat) := by
  induction xs with
  | nil => rfl
  | cons x xs ih => rw [readBackList, ih, List.map_cons]

@[simp] theorem readBack_arr (xs : List Json) :
    (Json.arr xs).readBack readFloat = .arr (xs.map (readBack readFloat)) := by
  rw [readBack, readBackList_eq_map]

theorem readBackFields_eq_map (fs : Fields) :
    readBackFields readFloat fs = fs.map fun f => (f.1, f.2.readBack readFloat) := by
  induction fs with
  | nil => rfl
  | cons f fs ih => rw [readBackFields, ih, List.map_cons]

theorem readBack_obj (fs : Fields) :
    (Json.obj fs).readBack readFloat = .object (fs.map fun f => (f.1, f.2.readBack readFloat)) := by
  rw [readBack, readBackFields_eq_map]

/-- A map is read back with its values read back. -/
@[simp] theorem readBack_entries (m : SortedMap String Json) :
    (Json.obj m.entries).readBack readFloat = .obj (m.mapValues (readBack readFloat)).entries := by
  rw [readBack_obj, object]
  exact congrArg (fun m => Json.obj m.entries) (SortedMap.ofList_entries (m.mapValues _))

/-- The document of some fields is read back as that of the fields read back. -/
@[simp] theorem readBack_object (fs : Fields) :
    (object fs).readBack readFloat = object (fs.map fun f => (f.1, f.2.readBack readFloat)) := by
  rw [object, readBack_entries]
  refine congrArg (fun m => Json.obj (SortedMap.entries m)) (SortedMap.ext_get fun k => ?_)
  rw [SortedMap.get_mapValues, SortedMap.get_ofList, SortedMap.get_ofList, ← List.map_reverse,
    SortedMap.lookup_map_snd]

@[simp] theorem readBack_option {α : Type} (enc : α → Json) (o : Option α) :
    (De.option enc o).readBack readFloat = De.option (fun a => (enc a).readBack readFloat) o := by
  cases o <;> rfl

/-- Members are lost, if they have one key, and nothing gets deeper. -/
theorem depth_readBack_le (v : Json) : (v.readBack readFloat).depth ≤ v.depth := by
  induction v using induct_mem with
  | null => exact le_rfl
  | bool b => exact le_rfl
  | num n => exact le_rfl
  | str s => exact le_rfl
  | arr xs ih =>
    rw [readBack_arr, depth, depth, Nat.add_le_add_iff_right, depthList_le, List.forall_mem_map]
    exact fun x hx => (ih x hx).trans (depthList_le.mp le_rfl x hx)
  | obj fs ih =>
    rw [readBack_obj, object, depth, depth, Nat.add_le_add_iff_right, depthFields_le]
    intro f hf
    obtain ⟨g, hg, rfl⟩ := List.mem_map.mp (key_mem_of_mem_object hf)
    exact (ih g hg).trans (depthFields_le.mp le_rfl g hg)

variable (readFloat) in
/-- A document that reads back: its objects are maps, and no digit of its floats is lost. -/
inductive Steady : Json → Prop where
  | null : Steady .null
  | bool (b : Bool) : Steady (.bool b)
  | num {n : Number} (h : n.readBack readFloat = n) : Steady (.num n)
  | str (s : String) : Steady (.str s)
  | arr {xs : List Json} (h : ∀ x ∈ xs, Steady x) : Steady (.arr xs)
  | obj {fs : Fields} (hsorted : fs.Pairwise fun a b => a.1 < b.1) (h : ∀ f ∈ fs, Steady f.2) :
      Steady (.obj fs)

theorem object_of_sorted {fs : Fields} (hsorted : fs.Pairwise fun a b => a.1 < b.1) :
    object fs = .obj fs :=
  congrArg Json.obj (congrArg SortedMap.entries (SortedMap.ofList_entries ⟨fs, hsorted⟩))

theorem readBack_obj_of_sorted {fs : Fields} (hsorted : fs.Pairwise fun a b => a.1 < b.1) :
    (Json.obj fs).readBack readFloat = .obj (fs.map fun f => (f.1, f.2.readBack readFloat)) := by
  have hmapped : (fs.map fun f => (f.1, f.2.readBack readFloat)).Pairwise fun a b => a.1 < b.1 :=
    List.pairwise_map.mpr hsorted
  rw [readBack_obj, object_of_sorted hmapped]

theorem map_eq_self_iff {α : Type} {f : α → α} {xs : List α} :
    xs.map f = xs ↔ ∀ x ∈ xs, f x = x := by
  have hmap := List.map_inj_left (l := xs) (f := f) (g := id)
  rwa [List.map_id] at hmap

theorem readBack_eq_self_iff {v : Json} : v.readBack readFloat = v ↔ v.Steady readFloat := by
  induction v using induct_mem with
  | null => exact iff_of_true rfl .null
  | bool b => exact iff_of_true rfl (.bool b)
  | num n =>
    constructor
    · exact fun h => .num (Json.num.inj h)
    · rintro ⟨⟩
      exact congrArg Json.num ‹_›
  | str s => exact iff_of_true rfl (.str s)
  | arr xs ih =>
    rw [readBack_arr, Json.arr.injEq, map_eq_self_iff]
    constructor
    · exact fun h => .arr fun x hx => (ih x hx).mp (h x hx)
    · rintro ⟨⟩ x hx
      exact (ih x hx).mpr (‹∀ x ∈ xs, _› x hx)
  | obj fs ih =>
    constructor
    · intro h
      have hsorted : fs.Pairwise fun a b => a.1 < b.1 := by
        rw [readBack_obj, object, Json.obj.injEq] at h
        exact h ▸ SortedMap.sorted _
      rw [readBack_obj_of_sorted hsorted, Json.obj.injEq, map_eq_self_iff] at h
      exact .obj hsorted fun f hf => (ih f hf).mp (congrArg Prod.snd (h f hf))
    · rintro ⟨⟩
      rename_i hsorted h
      rw [readBack_obj_of_sorted hsorted, Json.obj.injEq, map_eq_self_iff]
      exact fun f hf => Prod.ext rfl ((ih f hf).mpr (h f hf))

end Json
end ReactRuntime.Serde
