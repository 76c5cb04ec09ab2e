import Mathlib.Algebra.BigOperators.Group.List.Basic
import Mathlib.Data.List.Basic
import Mathlib.Data.List.Dedup
import Mathlib.Data.List.Pairwise
import Mathlib.Order.Lattice

/-!
# Finite maps as strictly sorted association lists

The ordered map of the standard library: one entry for each key, entries in key
order, and an insertion that replaces the value of a key already present. Two
maps are equal as soon as all their lookups agree.
-/
namespace ReactRuntime.Library

structure SortedMap (κ α : Type) [LinearOrder κ] where
  entries : List (κ × α)
  sorted : entries.Pairwise fun a b => a.1 < b.1

namespace SortedMap
variable {κ α β : Type} [LinearOrder κ]

instance [DecidableEq α] : DecidableEq (SortedMap κ α) := fun a b =>
  decidable_of_iff (a.entries = b.entries)
    ⟨fun h => by cases a; cases b; simpa using h, fun h => h ▸ rfl⟩

def insertEntry (k : κ) (v : α) : List (κ × α) → List (κ × α)
  | [] => [(k, v)]
  | e :: es => if k < e.1 then (k, v) :: e :: es
      else if k = e.1 then (k, v) :: es else e :: insertEntry k v es

theorem fst_mem_insertEntry {k j : κ} {v : α} {es : List (κ × α)} :
    j ∈ (insertEntry k v es).map Prod.fst ↔ j = k ∨ j ∈ es.map Prod.fst := by
  induction es with
  | nil => simp [insertEntry]
  | cons e es ih =>
    rw [insertEntry]
    split_ifs with hlt heq
    · simp
    · subst heq
      simp
    · simp only [List.map_cons, List.mem_cons, ih]
      tauto

theorem insertEntry_sorted (k : κ) (v : α) {es : List (κ × α)}
    (h : es.Pairwise fun a b => a.1 < b.1) :
    (insertEntry k v es).Pairwise fun a b => a.1 < b.1 := by
  induction es with
  | nil => simp [insertEntry]
  | cons e es ih =>
    obtain ⟨he, hes⟩ := List.pairwise_cons.mp h
    rw [insertEntry]
    split_ifs with hlt heq
    · refine List.pairwise_cons.mpr ⟨fun b hb => ?_, h⟩
      rcases List.mem_cons.mp hb with rfl | hb
      · exact hlt
      · exact lt_trans hlt (he b hb)
    · exact List.pairwise_cons.mpr ⟨fun b hb => heq ▸ he b hb, hes⟩
    · refine List.pairwise_cons.mpr ⟨fun b hb => ?_, ih hes⟩
      rcases fst_mem_insertEntry.mp (List.mem_map_of_mem hb) with hk | hk
      · exact hk ▸ lt_of_le_of_ne (not_lt.mp hlt) (Ne.symm heq)
      · obtain ⟨c, hc, hcb⟩ := List.mem_map.mp hk
        exact hcb ▸ he c hc

theorem lookup_cons_ite (j : κ) (e : κ × α) (es : List (κ × α)) :
    (e :: es).lookup j = if j = e.1 then some e.2 else es.lookup j := by
  obtain ⟨k, v⟩ := e
  by_cases h : j = k
  · simp [h]
  · have hb : (j == k) = false := by simpa using h
    simp [List.lookup_cons, hb, h]

theorem lookup_insertEntry (k j : κ) (v : α) (es : List (κ × α)) :
    (insertEntry k v es).lookup j = if j = k then some v else es.lookup j := by
  induction es with
  | nil => rw [insertEntry, lookup_cons_ite]
  | cons e es ih =>
    rw [insertEntry]
    by_cases hlt : k < e.1
    · rw [if_pos hlt, lookup_cons_ite]
    · by_cases heq : k = e.1
      · rw [if_neg hlt, if_pos heq, lookup_cons_ite, lookup_cons_ite, ← heq]
        split_ifs <;> rfl
      · rw [if_neg hlt, if_neg heq, lookup_cons_ite, lookup_cons_ite, ih]
        by_cases hj : j = k
        · subst hj
          simp [heq]
        · simp [hj]

/-- A new key only adds its entry. -/
theorem insertEntry_perm {k : κ} {es : List (κ × α)} (h : es.lookup k = none) (v : α) :
    (insertEntry k v es).Perm ((k, v) :: es) := by
  induction es with
  | nil => exact List.Perm.refl _
  | cons e es ih =>
    rw [lookup_cons_ite] at h
    have hk : k ≠ e.1 := fun hk => by simp [hk] at h
    rw [if_neg hk] at h
    rw [insertEntry, if_neg hk]
    split_ifs
    · exact List.Perm.refl _
    · exact ((ih h).cons e).trans (List.Perm.swap (k, v) e es)

theorem lookup_map_snd (f : α → β) (es : List (κ × α)) (k : κ) :
    (es.map fun e => (e.1, f e.2)).lookup k = (es.lookup k).map f := by
  induction es with
  | nil => rfl
  | cons e es ih =>
    rw [List.map_cons, lookup_cons_ite, lookup_cons_ite, ih]
    split_ifs <;> rfl

theorem lookup_isSome {k : κ} {es : List (κ × α)} :
    (es.lookup k).isSome = true ↔ ∃ e ∈ es, e.1 = k := by
  induction es with
  | nil => simp
  | cons e es ih =>
    rw [lookup_cons_ite]
    by_cases hk : k = e.1
    · simp [hk]
    · simp [hk, Ne.symm hk, ih]

def get (m : SortedMap κ α) (k : κ) : Option α := m.entries.lookup k

def empty : SortedMap κ α := ⟨[], List.Pairwise.nil⟩

def insert (m : SortedMap κ α) (k : κ) (v : α) : SortedMap κ α :=
  ⟨insertEntry k v m.entries, insertEntry_sorted k v m.sorted⟩

/-- Insert from left to right: a later entry for a key replaces an earlier one. -/
def ofList (es : List (κ × α)) : SortedMap κ α := es.foldl (fun m e => m.insert e.1 e.2) empty

/-- Keep the entries whose key passes the test. -/
def filterKeys (p : κ → Bool) (m : SortedMap κ α) : SortedMap κ α :=
  ⟨m.entries.filter fun e => p e.1, m.sorted.filter _⟩

def erase (m : SortedMap κ α) (k : κ) : SortedMap κ α := m.filterKeys fun j => j != k

def keys (m : SortedMap κ α) : List κ := m.entries.map Prod.fst

@[simp] theorem get_empty (k : κ) : (empty : SortedMap κ α).get k = none := rfl

@[simp] theorem get_insert (m : SortedMap κ α) (k j : κ) (v : α) :
    (m.insert k v).get j = if j = k then some v else m.get j :=
  lookup_insertEntry k j v m.entries

theorem get_foldl_insert (es : List (κ × α)) (m : SortedMap κ α) (k : κ) :
    (es.foldl (fun m e => m.insert e.1 e.2) m).get k = (es.reverse.lookup k).or (m.get k) := by
  induction es generalizing m with
  | nil => simp
  | cons e es ih =>
    rw [List.foldl_cons, ih, get_insert, List.reverse_cons, List.lookup_append, Option.or_assoc]
    congr 1
    rw [lookup_cons_ite]
    by_cases h : k = e.1 <;> simp [h]

/-- The last entry given for a key is the one the map holds. -/
theorem get_ofList (es : List (κ × α)) (k : κ) : (ofList es).get k = es.reverse.lookup k := by
  simp [ofList, get_foldl_insert]

theorem lookup_filter_fst (p : κ → Bool) (es : List (κ × α)) (k : κ) :
    (es.filter fun e => p e.1).lookup k = if p k then es.lookup k else none := by
  induction es with
  | nil => simp
  | cons e es ih =>
    rw [List.filter_cons]
    by_cases hk : k = e.1
    · subst hk
      by_cases hp : p e.1 <;> simp [hp, ih, lookup_cons_ite]
    · by_cases hp : p e.1 <;> simp [hp, lookup_cons_ite, hk, ih]

@[simp] theorem get_filterKeys (p : κ → Bool) (m : SortedMap κ α) (k : κ) :
    (m.filterKeys p).get k = if p k then m.get k else none :=
  lookup_filter_fst p m.entries k

@[simp] theorem get_erase (m : SortedMap κ α) (k j : κ) :
    (m.erase k).get j = if j = k then none else m.get j := by
  rw [erase, get_filterKeys]
  by_cases h : j = k <;> simp [h]

theorem lookup_eq_none_of_forall_lt {k : κ} {l : List (κ × α)} (h : ∀ e ∈ l, k < e.1) :
    l.lookup k = none := by
  rw [List.lookup_eq_none_iff]
  exact fun e he => by simpa using (h e he).ne

theorem entries_eq_of_lookup {es fs : List (κ × α)} (hes : es.Pairwise fun a b => a.1 < b.1)
    (hfs : fs.Pairwise fun a b => a.1 < b.1) (h : ∀ k, es.lookup k = fs.lookup k) : es = fs := by
  induction es generalizing fs with
  | nil =>
    cases fs with
    | nil => rfl
    | cons f fs =>
      have hf := h f.1
      simp [lookup_cons_ite] at hf
  | cons e es ih =>
    cases fs with
    | nil =>
      have he := h e.1
      simp [lookup_cons_ite] at he
    | cons f fs =>
      obtain ⟨he, hes'⟩ := List.pairwise_cons.mp hes
      obtain ⟨hf, hfs'⟩ := List.pairwise_cons.mp hfs
      -- The least keys agree, since the smaller one would be missing on the other side.
      have hkey : e.1 = f.1 := by
        rcases lt_trichotomy e.1 f.1 with hlt | heq | hgt
        · have hn := lookup_eq_none_of_forall_lt (k := e.1) (l := f :: fs) (fun b hb => by
            rcases List.mem_cons.mp hb with rfl | hb
            · exact hlt
            · exact lt_trans hlt (hf b hb))
          rw [← h e.1] at hn
          simp [lookup_cons_ite] at hn
        · exact heq
        · have hn := lookup_eq_none_of_forall_lt (k := f.1) (l := e :: es) (fun b hb => by
            rcases List.mem_cons.mp hb with rfl | hb
            · exact hgt
            · exact lt_trans hgt (he b hb))
          rw [h f.1] at hn
          simp [lookup_cons_ite] at hn
      have hval : e.2 = f.2 := by
        have hv := h e.1
        simpa [lookup_cons_ite, hkey] using hv
      have hhead : e = f := Prod.ext hkey hval
      subst hhead
      refine congrArg (e :: ·) (ih hes' hfs' fun k => ?_)
      by_cases hk : k = e.1
      · subst hk
        rw [lookup_eq_none_of_forall_lt he, lookup_eq_none_of_forall_lt hf]
      · simpa [lookup_cons_ite, hk] using h k

/-- Extensionality: a map is determined by its lookups. -/
theorem ext_get {m n : SortedMap κ α} (h : ∀ k, m.get k = n.get k) : m = n := by
  cases m with
  | mk es hes =>
    cases n with
    | mk fs hfs =>
      have he : es = fs := entries_eq_of_lookup hes hfs h
      subst he
      rfl

theorem get_eq_lookup_reverse (m : SortedMap κ α) (k : κ) :
    m.entries.reverse.lookup k = m.get k := by
  have hm : ∀ k, (ofList m.entries).get k = m.entries.reverse.lookup k := get_ofList m.entries
  rw [← hm]
  -- Inserting the entries of a sorted map again meets each key once.
  have hgen : ∀ (es : List (κ × α)) (n : SortedMap κ α), es.Pairwise (fun a b => a.1 < b.1) →
      (∀ e ∈ es, n.get e.1 = none) →
      (es.foldl (fun m e => m.insert e.1 e.2) n).get k = (es.lookup k).or (n.get k) := by
    intro es
    induction es with
    | nil => simp
    | cons e es ih =>
      intro n hs hn
      obtain ⟨he, hes⟩ := List.pairwise_cons.mp hs
      rw [List.foldl_cons, ih (n.insert e.1 e.2) hes (fun f hf => by
        rw [get_insert, if_neg (he f hf).ne']
        exact hn f (List.mem_cons_of_mem _ hf))]
      rw [get_insert, lookup_cons_ite]
      by_cases hk : k = e.1
      · subst hk
        simp [lookup_eq_none_of_forall_lt he]
      · simp [hk]
  have h := hgen m.entries empty m.sorted (by simp)
  rwa [get_empty, Option.or_none] at h

/-- Inserting the entries of a map again gives the map. -/
theorem ofList_entries (m : SortedMap κ α) : ofList m.entries = m :=
  ext_get fun k => by rw [get_ofList, get_eq_lookup_reverse]

theorem mem_entries_of_get {m : SortedMap κ α} {k : κ} {v : α} (h : m.get k = some v) :
    (k, v) ∈ m.entries := by
  have := List.lookup_eq_some_iff.mp h
  obtain ⟨l₁, l₂, hl, -⟩ := this
  rw [hl]
  simp

theorem get_of_mem_entries {m : SortedMap κ α} {k : κ} {v : α} (h : (k, v) ∈ m.entries) :
    m.get k = some v := by
  obtain ⟨l₁, l₂, hl⟩ := List.append_of_mem h
  have hs := m.sorted
  rw [hl] at hs
  have hlt : ∀ e ∈ l₁, e.1 < k := fun e he => (List.pairwise_append.mp hs).2.2 e he (k, v) (by simp)
  rw [get, hl, List.lookup_append, (List.lookup_eq_none_iff).mpr
    (fun e he => by simpa using (hlt e he).ne')]
  simp

/-- The entries that are kept. -/
def retain (p : κ → α → Bool) (m : SortedMap κ α) : SortedMap κ α :=
  ⟨m.entries.filter fun e => p e.1 e.2, m.sorted.filter _⟩

theorem get_eq_some {m : SortedMap κ α} {k : κ} {v : α} : m.get k = some v ↔ (k, v) ∈ m.entries :=
  ⟨mem_entries_of_get, get_of_mem_entries⟩

theorem get_retain_eq_some {p : κ → α → Bool} {m : SortedMap κ α} {k : κ} {v : α} :
    (m.retain p).get k = some v ↔ m.get k = some v ∧ p k v = true := by
  rw [get_eq_some, get_eq_some, retain, List.mem_filter]

/-- Every value is changed in its place. -/
def mapValues (f : α → β) (m : SortedMap κ α) : SortedMap κ β :=
  ⟨m.entries.map fun e => (e.1, f e.2), by
    rw [List.pairwise_map]
    exact m.sorted⟩

@[simp] theorem get_mapValues (f : α → β) (m : SortedMap κ α) (k : κ) :
    (m.mapValues f).get k = (m.get k).map f := lookup_map_snd f m.entries k

theorem mem_keys {m : SortedMap κ α} {k : κ} : k ∈ m.keys ↔ (m.get k).isSome = true := by
  rw [keys, List.mem_map, Option.isSome_iff_exists]
  constructor
  · rintro ⟨⟨_, v⟩, hmem, rfl⟩
    exact ⟨v, get_of_mem_entries hmem⟩
  · rintro ⟨v, hget⟩
    exact ⟨(k, v), mem_entries_of_get hget, rfl⟩

theorem nodup_keys (m : SortedMap κ α) : m.keys.Nodup :=
  (List.pairwise_map.mpr m.sorted).imp fun h => h.ne

theorem get_foldl_erase (ks : List κ) (m : SortedMap κ α) (k : κ) :
    (ks.foldl erase m).get k = if k ∈ ks then none else m.get k := by
  induction ks generalizing m with
  | nil => simp
  | cons j ks ih =>
    rw [List.foldl_cons, ih, get_erase]
    by_cases hj : k = j <;> by_cases hk : k ∈ ks <;> simp [hj, hk]

/-- A sum over the entries, taken over any list of keys that has those of the map. -/
theorem sum_entries {M : Type} [AddCommMonoid M] (m : SortedMap κ α) (f : Option α → M)
    (hnone : f none = 0) {ks : List κ} (hks : ks.Nodup) (hkeys : m.keys ⊆ ks) :
    (m.entries.map fun e => f (some e.2)).sum = (ks.map fun k => f (m.get k)).sum := by
  have hentries : (m.entries.map fun e => f (some e.2)) = m.keys.map fun k => f (m.get k) := by
    rw [keys, List.map_map]
    refine List.map_congr_left fun e he => ?_
    rw [Function.comp_apply, get_of_mem_entries he]
  have hin : (ks.filter fun k => decide (k ∈ m.keys)).Perm m.keys := by
    rw [List.perm_ext_iff_of_nodup (hks.filter _) m.nodup_keys]
    intro k
    simpa using fun hk => hkeys hk
  have hout : ((ks.filter fun k => !decide (k ∈ m.keys)).map fun k => f (m.get k)).sum = 0 := by
    refine List.sum_eq_zero fun x hx => ?_
    obtain ⟨k, hk, rfl⟩ := List.mem_map.mp hx
    have hget : m.get k = none := by simpa [mem_keys] using (List.mem_filter.mp hk).2
    rw [hget, hnone]
  have hsplit := List.filter_append_perm (fun k => decide (k ∈ m.keys)) ks
  rw [hentries, ← (hsplit.map _).sum_eq, List.map_append, List.sum_append, hout, add_zero,
    (hin.map _).sum_eq]

/-- Two maps have one sum if the values of keys that belong together give the same. -/
theorem sum_entries_eq {M ι : Type} [AddCommMonoid M] [LinearOrder ι] {key : ι → κ}
    (hkey : Function.Injective key) {m : SortedMap κ α} {m' : SortedMap ι β} {used : List ι}
    (hused : m.keys = used.map key) {f : Option α → M} {g : Option β → M} (hf : f none = 0)
    (hg : g none = 0) (h : ∀ i, f (m.get (key i)) = g (m'.get i)) :
    (m.entries.map fun e => f (some e.2)).sum = (m'.entries.map fun e => g (some e.2)).sum := by
  -- both are summed over the keys of either
  set either := (used ++ m'.keys).dedup with heither
  have hnodup : either.Nodup := List.nodup_dedup _
  have hleft : m.keys ⊆ either.map key := by
    rw [hused]
    exact List.map_subset key fun i hi => by simp [heither, hi]
  have hright : m'.keys ⊆ either := fun i hi => by simp [heither, hi]
  rw [m.sum_entries f hf (hnodup.map hkey) hleft, m'.sum_entries g hg hnodup hright, List.map_map]
  exact congrArg List.sum (List.map_congr_left fun i _ => h i)

end SortedMap
end ReactRuntime.Library
