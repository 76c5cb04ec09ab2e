import ReactRuntime.Library.Directory
import ReactRuntime.Storage.Adapter
import ReactRuntime.Storage.LocalPaths
import Mathlib.Data.Finset.Max
import Mathlib.Data.List.Sort

/-!
# Listing a prefix on the file system

The local adapter walks one directory and keeps the names that start with the prefix: the directory
that the prefix names, if there is one, and else the directory that its last component would stand
in. The in-memory backend compares strings only. The two agree as long as no prefix names a
directory next to keys that go on inside a name.
-/
namespace ReactRuntime.Storage
open Library Serde ReactRuntime.Core

/-- A directory and the directories above it, the nearest first. -/
structure Place where
  here : Directory String
  above : List (Directory String)

namespace Place

def enter (p : Place) (name : String) : Option Place :=
  (p.here.enter name).map fun d => ⟨d, p.here :: p.above⟩

/-- The directory above; the root is above itself. -/
def up (p : Place) : Place :=
  match p.above with
  | [] => p
  | d :: ds => ⟨d, ds⟩

/-- Follow the components of a path through directories. -/
def walk : Place → List String → Option Place
  | p, [] => some p
  | p, name :: path =>
    if name = ".." then p.up.walk path else (p.enter name).bind fun q => q.walk path

end Place

/-- A file system with the base directory of an adapter. -/
structure LocalDisk where
  root : Directory String
  location : List String
  base : Place
  distinct : root.Distinct
  walk_location : (⟨root, []⟩ : Place).walk location = some base

/-- The components of a relative path. -/
def components (path : String) : List String :=
  (splitChar '/' path).filter fun seg => seg ≠ "" ∧ seg ≠ "."

/-- `list_files_recursive`: the keys of the files in a directory, which has the path `dir` below
the base directory, are added to `out`. -/
def listFilesRecursive (dir : List String) : Directory String → List String → List String
  | .nil, out => out
  | .file name rest, out => listFilesRecursive dir rest (out ++ (relKey (dir ++ [name])).toList)
  | .sub name entries rest, out =>
    listFilesRecursive dir rest (listFilesRecursive (dir ++ [name]) entries out)

namespace LocalDisk
variable (disk : LocalDisk)

def isDir (path : List String) : Bool := (disk.base.walk path).isSome

/-- The path of the directory that is walked for a prefix. -/
def walkRoot (pref : String) : List String :=
  if disk.isDir (components pref) then components pref else (components pref).dropLast

def listPrefix (pre : String) : List String :=
  let pref := keyText pre
  let keys := match disk.base.walk (disk.walkRoot pref) with
    | some place => listFilesRecursive (disk.walkRoot pref) place.here []
    | none => []
  (keys.filter pref.isPrefixOf).mergeSort

/-- The base directory has exactly the files of these objects, whose keys are all accepted. -/
structure Holds {B : Type} (objects : Objects B) : Prop where
  accepted : ∀ key ∈ objects.keys, ∃ path, resolveKey key = .ok path
  files : ∀ path, path ∈ disk.base.here.files ↔ ∃ key ∈ objects.keys, resolveKey key = .ok path

end LocalDisk

theorem listFilesRecursive_eq (dir : List String) (d : Directory String) (out : List String) :
    listFilesRecursive dir d out =
      out ++ d.files.flatMap fun path => (relKey (dir ++ path)).toList := by
  induction d generalizing dir out with
  | nil => simp [listFilesRecursive, Directory.files]
  | file name rest ih => simp [listFilesRecursive, Directory.files, ih]
  | sub name entries rest ihe ih =>
    simp [listFilesRecursive, Directory.files, ih, ihe, List.flatMap_map]

namespace Place

/-- Without a step up the walk only descends. -/
theorem walk_eq_descend {path : List String} (h : ".." ∉ path) (p : Place) :
    (p.walk path).map Place.here = p.here.descend path := by
  induction path generalizing p with
  | nil => rfl
  | cons name path ih =>
    have hname : name ≠ ".." := fun heq => h (heq ▸ List.mem_cons_self)
    rw [walk, if_neg hname, Directory.descend, enter]
    cases p.here.enter name with
    | none => rfl
    | some d => exact ih (fun hmem => h (List.mem_cons_of_mem _ hmem)) ⟨d, p.here :: p.above⟩

theorem distinct_up {p : Place} (h : p.here.Distinct ∧ ∀ d ∈ p.above, d.Distinct) :
    p.up.here.Distinct ∧ ∀ d ∈ p.up.above, d.Distinct := by
  unfold up
  split
  case h_1 => exact h
  case h_2 d ds heq =>
    rw [heq] at h
    exact List.forall_mem_cons.mp h.2

theorem distinct_walk {path : List String} {p q : Place}
    (hp : p.here.Distinct ∧ ∀ d ∈ p.above, d.Distinct) (h : p.walk path = some q) :
    q.here.Distinct ∧ ∀ d ∈ q.above, d.Distinct := by
  induction path generalizing p with
  | nil =>
    cases h
    exact hp
  | cons name path ih =>
    rw [walk] at h
    split_ifs at h with hname
    · exact ih (distinct_up hp) h
    · obtain ⟨m, hm, hrest⟩ := Option.bind_eq_some_iff.mp h
      obtain ⟨d, hd, rfl⟩ := Option.map_eq_some_iff.mp hm
      exact ih ⟨hp.1.enter hd, List.forall_mem_cons.mpr hp⟩ hrest

end Place

theorem LocalDisk.distinct_base (disk : LocalDisk) : disk.base.here.Distinct :=
  (Place.distinct_walk (p := ⟨disk.root, []⟩) ⟨disk.distinct, by simp⟩ disk.walk_location).1

/-- A prefix of the text of a path has some names of the path as components, and perhaps a start
of the next name. -/
theorem components_of_isPrefix {path : List String} {pre : String} (hne : path ≠ [])
    (hsafe : ∀ seg ∈ path, SafeName seg) (hsep : ∀ seg ∈ path, '/' ∉ seg.toList)
    (h : pre.toList <+: (joinChar '/' path).toList) :
    ".." ∉ components pre ∧ ∃ whole name rest, path = whole ++ name :: rest ∧
      (components pre = whole ∨ ∃ last, components pre = whole ++ [last]) := by
  obtain ⟨whole, last, name, rest, hsplit, rfl, hlast⟩ := splitChar_of_isPrefix hne hsep h
  have hwhole : whole.filter (fun seg => seg ≠ "" ∧ seg ≠ ".") = whole := by
    rw [List.filter_eq_self]
    intro seg hseg
    have := hsafe seg (by simp [hseg])
    simp [this.ne_empty, this.ne_dot]
  have hdots : ∀ seg ∈ whole ++ [last], seg ≠ ".." := by
    rintro seg hseg rfl
    rcases List.mem_append.mp hseg with hseg | hseg
    · exact (hsafe ".." (by simp [hseg])).no_dots (by decide)
    · cases List.mem_singleton.mp hseg
      exact (hsafe name (by simp)).no_dots hlast.isInfix
  unfold components
  rw [hsplit]
  refine ⟨fun hmem => hdots ".." (List.mem_of_mem_filter hmem) rfl, whole, name, rest, rfl, ?_⟩
  rw [List.filter_append, hwhole]
  by_cases hname : last ≠ "" ∧ last ≠ "."
  · exact Or.inr ⟨last, by simp [hname]⟩
  · exact Or.inl (by simpa using hname)

namespace LocalDisk
variable {disk : LocalDisk} {B : Type} {objects : Objects B}

theorem mem_listPrefix {pre x : String} (hpre : keyText pre = pre) :
    x ∈ disk.listPrefix pre ↔ (∃ place, disk.base.walk (disk.walkRoot pre) = some place ∧
      ∃ f ∈ place.here.files, relKey (disk.walkRoot pre ++ f) = some x) ∧
      pre.toList <+: x.toList := by
  unfold listPrefix
  rw [hpre, List.mem_mergeSort, List.mem_filter, String.isPrefixOf, String.startsWith_string_iff]
  refine and_congr_left fun _ => ?_
  cases disk.base.walk (disk.walkRoot pre) with
  | none => simp
  | some place => simp [listFilesRecursive_eq]

theorem isDir_iff {path : List String} (h : ".." ∉ path) :
    disk.isDir path ↔ ∃ d, disk.base.here.descend path = some d := by
  rw [isDir, ← Place.walk_eq_descend h]
  cases disk.base.walk path <;> simp

theorem walkRoot_dots {pre : String} (hdots : ".." ∉ components pre) :
    ".." ∉ disk.walkRoot pre := by
  unfold walkRoot
  split_ifs
  · exact hdots
  · exact fun hmem => hdots (List.mem_of_mem_dropLast hmem)

/-- The listed names are the key texts that start with the prefix and lie below the directory that
it names, if it names one. -/
theorem mem_listPrefix_iff (h : disk.Holds objects) {pre x : String} (hpre : keyText pre = pre)
    (hdots : ".." ∉ components pre) :
    x ∈ disk.listPrefix pre ↔ ∃ key ∈ objects.keys, keyText key = x ∧ pre.toList <+: x.toList ∧
      (disk.isDir (components pre) → components pre <+: splitChar '/' x) := by
  have hroot : ".." ∉ disk.walkRoot pre := walkRoot_dots hdots
  rw [mem_listPrefix hpre]
  constructor
  · rintro ⟨⟨place, hwalk, f, hf, hrel⟩, hstart⟩
    have hdescend : disk.base.here.descend (disk.walkRoot pre) = some place.here := by
      rw [← Place.walk_eq_descend hroot, hwalk]
      rfl
    obtain ⟨key, hkey, hresolve⟩ :=
      (h.files _).mp ((Directory.mem_files_descend disk.distinct_base hdescend f).mpr hf)
    have htext : keyText key = x :=
      (joinChar_of_resolveKey hresolve).symm.trans (relKey_eq_some.mp hrel).1
    refine ⟨key, hkey, htext, hstart, fun hdir => ?_⟩
    rw [← htext, ← (resolveKey_eq_ok.mp hresolve).1, walkRoot, if_pos hdir]
    exact List.prefix_append ..
  · rintro ⟨key, hkey, rfl, hstart, hinside⟩
    obtain ⟨path, hresolve⟩ := h.accepted key hkey
    have hpath := (resolveKey_eq_ok.mp hresolve).1
    have hfile : path ∈ disk.base.here.files := (h.files path).mpr ⟨key, hkey, hresolve⟩
    have hbelow : ∃ f, f ≠ [] ∧ path = disk.walkRoot pre ++ f := by
      by_cases hdir : disk.isDir (components pre)
      · obtain ⟨f, hf⟩ := hinside hdir
        rw [← hpath] at hf
        refine ⟨f, ?_, by rw [walkRoot, if_pos hdir, hf]⟩
        rintro rfl
        obtain ⟨d, hd⟩ := (isDir_iff hdots).mp hdir
        exact Directory.ne_nil_of_mem_files
          ((Directory.mem_files_descend disk.distinct_base hd []).mp (hf ▸ hfile)) rfl
      · rw [← joinChar_of_resolveKey hresolve] at hstart
        obtain ⟨-, whole, name, rest, hsplit, hcomponents⟩ := components_of_isPrefix
          (Directory.ne_nil_of_mem_files hfile) (safe_of_resolveKey hresolve)
          (fun seg hseg => not_mem_of_mem_splitChar (hpath ▸ hseg)) hstart
        refine ⟨name :: rest, by simp, ?_⟩
        rcases hcomponents with hwhole | ⟨last, hlast⟩
        · rw [hsplit] at hfile
          have hd := Directory.descend_of_mem_files disk.distinct_base (by simp) hfile
          rw [← hwhole] at hd
          exact absurd ((isDir_iff hdots).mpr hd) hdir
        · rw [walkRoot, if_neg hdir, hlast, List.dropLast_concat, hsplit]
    obtain ⟨f, hf, rfl⟩ := hbelow
    obtain ⟨d, hd⟩ := Directory.descend_of_mem_files disk.distinct_base hf hfile
    have hwalk := hd
    rw [← Place.walk_eq_descend hroot] at hwalk
    obtain ⟨place, hplace, rfl⟩ := Option.map_eq_some_iff.mp hwalk
    refine ⟨⟨place, hplace, f, ?_, ?_⟩, hstart⟩
    · exact (Directory.mem_files_descend disk.distinct_base hd f).mp hfile
    · exact relKey_eq_some.mpr ⟨joinChar_of_resolveKey hresolve, keyText_ne_empty hresolve⟩

/-- Different files have different keys. -/
theorem nodup_relKeys (h : disk.Holds objects) {path : List String} (hdots : ".." ∉ path)
    {place : Place} (hwalk : disk.base.walk path = some place) :
    (place.here.files.flatMap fun f => (relKey (path ++ f)).toList).Nodup := by
  have hdescend : disk.base.here.descend path = some place.here := by
    rw [← Place.walk_eq_descend hdots, hwalk]
    rfl
  have hsplit (f : List String) (hf : f ∈ place.here.files) :
      splitChar '/' (joinChar '/' (path ++ f)) = path ++ f := by
    obtain ⟨key, -, hresolve⟩ :=
      (h.files _).mp ((Directory.mem_files_descend disk.distinct_base hdescend f).mpr hf)
    rw [joinChar_of_resolveKey hresolve]
    exact (resolveKey_eq_ok.mp hresolve).1.symm
  refine List.nodup_flatMap.mpr ⟨fun f _ => ?_, ?_⟩
  · cases relKey (path ++ f) <;> simp
  · refine (Directory.nodup_files (disk.distinct_base.descend hdescend)).pairwise_of_forall_ne
      fun f hf g hg hne x hxf hxg => hne ?_
    have htext : joinChar '/' (path ++ f) = joinChar '/' (path ++ g) :=
      (relKey_eq_some.mp (Option.mem_toList.mp hxf)).1.trans
        (relKey_eq_some.mp (Option.mem_toList.mp hxg)).1.symm
    have hpath := (hsplit f hf).symm.trans ((congrArg _ htext).trans (hsplit g hg))
    exact List.append_cancel_left hpath

theorem nodup_listPrefix (h : disk.Holds objects) {pre : String}
    (hdots : ".." ∉ components pre) (hpre : keyText pre = pre) : (disk.listPrefix pre).Nodup := by
  unfold listPrefix
  rw [(List.mergeSort_perm _ _).nodup_iff, hpre]
  refine List.Nodup.filter _ ?_
  cases hwalk : disk.base.walk (disk.walkRoot pre) with
  | none => exact List.nodup_nil
  | some place =>
    dsimp only
    rw [listFilesRecursive_eq, List.nil_append]
    exact nodup_relKeys h (walkRoot_dots hdots) hwalk

theorem pairwise_listPrefix (pre : String) : (disk.listPrefix pre).Pairwise (· ≤ ·) :=
  List.pairwise_mergeSort' _ _

theorem pairwise_filter_keys (p : String → Bool) : (objects.keys.filter p).Pairwise (· < ·) :=
  (List.pairwise_map.mpr objects.sorted).filter _

/-- Both lists are sorted, so that they are equal if they have the same names. -/
theorem listPrefix_eq_filter_iff {pre : String} (hnodup : (disk.listPrefix pre).Nodup) :
    disk.listPrefix pre = objects.keys.filter pre.isPrefixOf ↔
      ∀ x, x ∈ disk.listPrefix pre ↔ x ∈ objects.keys ∧ pre.toList <+: x.toList := by
  have hmem (x : String) : x ∈ objects.keys.filter pre.isPrefixOf ↔
      x ∈ objects.keys ∧ pre.toList <+: x.toList := by
    rw [List.mem_filter, String.isPrefixOf, String.startsWith_string_iff]
  have hsorted : (objects.keys.filter pre.isPrefixOf).Pairwise (· < ·) := pairwise_filter_keys _
  refine ⟨fun heq x => heq ▸ hmem x, fun hall => ?_⟩
  have hperm : (disk.listPrefix pre).Perm (objects.keys.filter pre.isPrefixOf) :=
    (List.perm_ext_iff_of_nodup hnodup (hsorted.imp fun h => h.ne)).mpr fun x =>
      (hall x).trans (hmem x).symm
  exact hperm.eq_of_pairwise' (pairwise_listPrefix pre) (hsorted.imp fun h => h.le)

/-- No path of a key starts the path of another key. -/
def PathFree (objects : Objects B) : Prop :=
  ∀ key ∈ objects.keys, ∀ other ∈ objects.keys,
    splitChar '/' (keyText key) <+: splitChar '/' (keyText other) → key = other

/-- What a prefix must meet. `inside`: if it names a directory, the keys that start with it lie in
that directory. `spelled`: a listed file belongs to a key that is spelled like its path. `noAlias`:
no file has a path that starts with the prefix and goes up in it. -/
structure ListsAlike (disk : LocalDisk) (objects : Objects B) (pre : String) : Prop where
  inside : ∀ key ∈ objects.keys, pre.toList <+: key.toList → disk.isDir (components pre) →
    components pre <+: splitChar '/' (keyText key)
  spelled : ∀ key ∈ objects.keys, pre.toList <+: (keyText key).toList →
    (disk.isDir (components pre) → components pre <+: splitChar '/' (keyText key)) →
    keyText key = key
  noAlias : ".." ∈ components pre → ∀ place, disk.base.walk (disk.walkRoot pre) = some place →
    ∀ f ∈ place.here.files, ¬ pre.toList <+: (joinChar '/' (disk.walkRoot pre ++ f)).toList

/-- A prefix of a key has no step up. -/
theorem dots_notMem_components (h : disk.Holds objects) {pre key : String}
    (hkey : key ∈ objects.keys) (hstart : pre.toList <+: (keyText key).toList) :
    ".." ∉ components pre := by
  obtain ⟨path, hresolve⟩ := h.accepted key hkey
  rw [← joinChar_of_resolveKey hresolve] at hstart
  have hfile : path ∈ disk.base.here.files := (h.files path).mpr ⟨key, hkey, hresolve⟩
  exact (components_of_isPrefix (Directory.ne_nil_of_mem_files hfile) (safe_of_resolveKey hresolve)
    (fun seg hseg => not_mem_of_mem_splitChar ((resolveKey_eq_ok.mp hresolve).1 ▸ hseg)) hstart).1

/-- Keys that are the texts of one another are their own texts: the longest that is not would be
the text of a longer one. -/
theorem keyText_eq_of_closed {keys : List String}
    (h : ∀ key ∈ keys, ∃ other ∈ keys, keyText other = key) : ∀ key ∈ keys, keyText key = key := by
  by_contra hbad
  push Not at hbad
  obtain ⟨bad, hmem, hne⟩ := hbad
  obtain ⟨key, hkey, hmax⟩ := Finset.exists_max_image
    (keys.toFinset.filter fun key => keyText key ≠ key) (fun key => key.toList.length)
    ⟨bad, by simp [hmem, hne]⟩
  rw [Finset.mem_filter, List.mem_toFinset] at hkey
  obtain ⟨other, hother, htext⟩ := h key hkey.1
  have hdiffer : keyText other ≠ other := by
    intro heq
    exact hkey.2 (by rw [← htext, heq, heq])
  have hle := hmax other (by simp [hother, hdiffer])
  exact hdiffer (keyText_eq_of_length (htext.symm ▸ hle))

theorem mem_listPrefix_iff_key (h : disk.Holds objects) (hfree : PathFree objects) {pre : String}
    (hpre : keyText pre = pre) (hdots : ".." ∉ components pre) :
    (∀ x, x ∈ disk.listPrefix pre ↔ x ∈ objects.keys ∧ pre.toList <+: x.toList) ↔
      ListsAlike disk objects pre := by
  constructor
  · intro hall
    have hlisted {key : String} (hkey : key ∈ objects.keys)
        (hstart : pre.toList <+: (keyText key).toList)
        (hinside : disk.isDir (components pre) →
          components pre <+: splitChar '/' (keyText key)) : keyText key ∈ objects.keys :=
      ((hall _).mp ((mem_listPrefix_iff h hpre hdots).mpr ⟨key, hkey, rfl, hstart, hinside⟩)).1
    have hstored {key : String} (hkey : key ∈ objects.keys) (hstart : pre.toList <+: key.toList) :
        ∃ other ∈ objects.keys, keyText other = key ∧ (disk.isDir (components pre) →
          components pre <+: splitChar '/' key) := by
      obtain ⟨other, hother, htext, -, hinside⟩ :=
        (mem_listPrefix_iff h hpre hdots).mp ((hall key).mpr ⟨hkey, hstart⟩)
      exact ⟨other, hother, htext, hinside⟩
    by_cases hne : pre.toList = []
    · have hall' : ∀ key ∈ objects.keys, keyText key = key :=
        keyText_eq_of_closed fun key hkey => by
          obtain ⟨other, hother, htext, -⟩ := hstored hkey (by rw [hne]; exact List.nil_prefix)
          exact ⟨other, hother, htext⟩
      have hcomponents : components pre = [] := by
        rw [← String.ofList_toList (s := pre), hne]
        rfl
      exact ⟨fun _ _ _ _ => by rw [hcomponents]; exact List.nil_prefix,
        fun key hkey _ _ => hall' key hkey, fun hmem => absurd hmem hdots⟩
    · refine ⟨fun key hkey hstart hdir => ?_, fun key hkey hstart hinside => ?_,
        fun hmem => absurd hmem hdots⟩
      · obtain ⟨other, hother, rfl, hinside⟩ := hstored hkey hstart
        rw [keyText_keyText hpre hne hstart]
        exact hinside hdir
      · refine (hfree key hkey _ (hlisted hkey hstart hinside) ?_).symm
        rw [keyText_keyText hpre hne hstart]
  · intro hcond x
    rw [mem_listPrefix_iff h hpre hdots]
    constructor
    · rintro ⟨key, hkey, rfl, hstart, hinside⟩
      exact ⟨(hcond.spelled key hkey hstart hinside).symm ▸ hkey, hstart⟩
    · rintro ⟨hx, hstart⟩
      have hinside := hcond.inside x hx hstart
      have htext := hcond.spelled x hx (isPrefix_keyText hpre hstart) hinside
      exact ⟨x, hx, htext, hstart, htext ▸ hinside⟩

/-- A prefix lists the same in the local adapter and in memory exactly if it names no directory
beside keys that go on inside a name, lists no key under another spelling, and leads to no alias. -/
theorem listPrefix_eq_inMemory_iff {E : Type} [DecidableEq E] (F : Format B E)
    (h : disk.Holds objects) (hfree : PathFree objects) {pre : String} (htrim : trim pre = pre)
    (hslash : trimStartMatches '/' pre = pre) :
    .ok (disk.listPrefix pre) = (F.serve objects (.listPrefix pre)).2 ↔
      ListsAlike disk objects pre := by
  have hpre : keyText pre = pre := by rw [keyText, htrim, hslash]
  change Except.ok (disk.listPrefix pre) = .ok (objects.keys.filter pre.isPrefixOf) ↔ _
  rw [Except.ok.injEq]
  by_cases hdots : ".." ∈ components pre
  · have hnone : objects.keys.filter pre.isPrefixOf = [] := by
      refine List.filter_eq_nil_iff.mpr fun key hkey hstart => ?_
      rw [String.isPrefixOf, String.startsWith_string_iff] at hstart
      exact dots_notMem_components h hkey (isPrefix_keyText hpre hstart) hdots
    rw [hnone, List.eq_nil_iff_forall_not_mem]
    constructor
    · intro hempty
      refine ⟨fun key hkey hstart _ => absurd hdots
          (dots_notMem_components h hkey (isPrefix_keyText hpre hstart)),
        fun key hkey hstart _ => absurd hdots (dots_notMem_components h hkey hstart),
        fun _ place hwalk f hf hstart => ?_⟩
      refine hempty _ ((mem_listPrefix hpre).mpr ⟨⟨place, hwalk, f, hf,
        relKey_eq_some.mpr ⟨rfl, fun hnil => ?_⟩⟩, hstart⟩)
      rw [hnil] at hstart
      have hpre' : pre = "" := String.toList_inj.mp ((List.prefix_nil.mp hstart).trans rfl)
      exact absurd (hpre' ▸ hdots) (by decide)
    · intro hcond x hx
      obtain ⟨⟨place, hwalk, f, hf, hrel⟩, hstart⟩ := (mem_listPrefix hpre).mp hx
      rw [← (relKey_eq_some.mp hrel).1] at hstart
      exact hcond.noAlias hdots place hwalk f hf hstart
  · rw [listPrefix_eq_filter_iff (nodup_listPrefix h hdots hpre),
      mem_listPrefix_iff_key h hfree hpre hdots]

/-! A disk with the files `a/b/c` and `a/bc`. -/

def smallEntries : Directory String :=
  .sub "a" (.sub "b" (.file "c" .nil) (.file "bc" .nil)) .nil

def smallDisk : LocalDisk where
  root := .sub "data" smallEntries .nil
  location := ["data"]
  base := ⟨smallEntries, [.sub "data" smallEntries .nil]⟩
  distinct := by simp [Directory.Distinct, Directory.names, smallEntries]
  walk_location := rfl

def smallObjects : Objects Json := .ofList [("a/b/c", .null), ("a/bc", .null)]

theorem keys_smallObjects : smallObjects.keys = ["a/b/c", "a/bc"] := by decide +kernel

theorem smallDisk_holds : smallDisk.Holds smallObjects := by
  have hfirst : resolveKey "a/b/c" = .ok ["a", "b", "c"] := by decide +kernel
  have hsecond : resolveKey "a/bc" = .ok ["a", "bc"] := by decide +kernel
  have hfiles : smallDisk.base.here.files = [["a", "b", "c"], ["a", "bc"]] := rfl
  refine ⟨fun key hkey => ?_, fun path => ?_⟩
  · rw [keys_smallObjects] at hkey
    simp only [List.mem_cons, List.not_mem_nil, or_false] at hkey
    rcases hkey with rfl | rfl
    · exact ⟨_, hfirst⟩
    · exact ⟨_, hsecond⟩
  · rw [hfiles, keys_smallObjects]
    simp [hfirst, hsecond, eq_comm]

theorem smallObjects_pathFree : PathFree smallObjects := by
  rw [PathFree, keys_smallObjects]
  decide +kernel

/-- A prefix that ends in a slash lists the same. -/
theorem listPrefix_eq_inMemory_slash :
    .ok (smallDisk.listPrefix "a/") = (Format.plain.serve smallObjects (.listPrefix "a/")).2 := by
  refine (listPrefix_eq_inMemory_iff Format.plain smallDisk_holds smallObjects_pathFree
    (by decide +kernel) (by decide +kernel)).mpr ⟨?_, ?_, ?_⟩
  · rw [keys_smallObjects]
    decide +kernel
  · rw [keys_smallObjects]
    decide +kernel
  · intro hmem
    exact absurd hmem (by decide +kernel)

/-- A prefix that is also a directory misses the key that goes on inside the name. -/
theorem listPrefix_ne_inMemory_directory :
    smallDisk.Holds smallObjects ∧ PathFree smallObjects ∧ trim "a/b" = "a/b" ∧
      trimStartMatches '/' "a/b" = "a/b" ∧
      .ok (smallDisk.listPrefix "a/b") ≠
        (Format.plain.serve smallObjects (.listPrefix "a/b")).2 := by
  refine ⟨smallDisk_holds, smallObjects_pathFree, by decide +kernel, by decide +kernel, ?_⟩
  intro heq
  have hmem : "a/bc" ∈ smallDisk.listPrefix "a/b" := by
    rw [Except.ok.inj heq, keys_smallObjects]
    decide +kernel
  obtain ⟨key, -, -, -, hinside⟩ :=
    (mem_listPrefix_iff smallDisk_holds (by decide +kernel) (by decide +kernel)).mp hmem
  exact absurd (hinside (by decide +kernel)) (by decide +kernel)

end LocalDisk
end ReactRuntime.Storage
