import Mathlib.Data.List.Basic
import Mathlib.Data.List.Nodup

/-!
# Directories

A directory is the sequence of its entries, each a file or a directory again. A path
is the list of the names that lead to a file. As long as no name stands twice in one
directory, a path leads to at most one entry.
-/
namespace ReactRuntime.Library

inductive Directory (ν : Type) where
  | nil
  | file (name : ν) (rest : Directory ν)
  | sub (name : ν) (entries rest : Directory ν)

namespace Directory
variable {ν : Type}

def names : Directory ν → List ν
  | .nil => []
  | .file name rest => name :: rest.names
  | .sub name _ rest => name :: rest.names

/-- No name stands twice in one directory. -/
def Distinct : Directory ν → Prop
  | .nil => True
  | .file name rest => name ∉ rest.names ∧ rest.Distinct
  | .sub name entries rest => name ∉ rest.names ∧ entries.Distinct ∧ rest.Distinct

/-- Paths of the files below. -/
def files : Directory ν → List (List ν)
  | .nil => []
  | .file name rest => [name] :: rest.files
  | .sub name entries rest => entries.files.map (name :: ·) ++ rest.files

theorem ne_nil_of_mem_files {d : Directory ν} {f : List ν} (h : f ∈ d.files) : f ≠ [] := by
  induction d generalizing f with
  | nil => cases h
  | file name rest ih =>
    rcases List.mem_cons.mp h with rfl | hrest
    · simp
    · exact ih hrest
  | sub name entries rest ihe ih =>
    rcases List.mem_append.mp h with hentries | hrest
    · obtain ⟨g, -, rfl⟩ := List.mem_map.mp hentries
      simp
    · exact ih hrest

theorem head_mem_names {d : Directory ν} {name : ν} {f : List ν} (h : name :: f ∈ d.files) :
    name ∈ d.names := by
  induction d with
  | nil => cases h
  | file other rest ih =>
    rcases List.mem_cons.mp h with heq | hrest
    · cases heq
      simp [names]
    · exact List.mem_cons_of_mem _ (ih hrest)
  | sub other entries rest ihe ih =>
    rcases List.mem_append.mp h with hentries | hrest
    · obtain ⟨g, -, heq⟩ := List.mem_map.mp hentries
      cases heq
      simp [names]
    · exact List.mem_cons_of_mem _ (ih hrest)

theorem nodup_files {d : Directory ν} (h : d.Distinct) : d.files.Nodup := by
  induction d with
  | nil => exact List.nodup_nil
  | file name rest ih =>
    obtain ⟨hname, hrest⟩ := h
    exact List.nodup_cons.mpr ⟨fun hmem => hname (head_mem_names hmem), ih hrest⟩
  | sub name entries rest ihe ih =>
    obtain ⟨hname, hentries, hrest⟩ := h
    refine List.nodup_append.mpr ⟨?_, ih hrest, ?_⟩
    · exact (ihe hentries).map fun _ _ heq => (List.cons.inj heq).2
    · rintro f hf g hg rfl
      obtain ⟨f, -, rfl⟩ := List.mem_map.mp hf
      exact hname (head_mem_names hg)

variable [DecidableEq ν]

def enter : Directory ν → ν → Option (Directory ν)
  | .nil, _ => none
  | .file _ rest, target => rest.enter target
  | .sub name entries rest, target => if name = target then some entries else rest.enter target

/-- The directory that a path leads to. -/
def descend : Directory ν → List ν → Option (Directory ν)
  | d, [] => some d
  | d, name :: path => (d.enter name).bind fun e => e.descend path

theorem mem_names_of_enter {d e : Directory ν} {target : ν} (h : d.enter target = some e) :
    target ∈ d.names := by
  induction d with
  | nil => cases h
  | file name rest ih => exact List.mem_cons_of_mem _ (ih h)
  | sub name entries rest _ ih =>
    rw [enter] at h
    split_ifs at h with hname
    · subst hname
      simp [names]
    · exact List.mem_cons_of_mem _ (ih h)

theorem Distinct.enter {d e : Directory ν} {target : ν} (hd : d.Distinct)
    (h : d.enter target = some e) : e.Distinct := by
  induction d with
  | nil => cases h
  | file name rest ih => exact ih hd.2 h
  | sub name entries rest _ ih =>
    rw [Directory.enter] at h
    split_ifs at h
    · cases h
      exact hd.2.1
    · exact ih hd.2.2 h

/-- The files below an entry are the files of that directory. -/
theorem mem_files_enter {d e : Directory ν} {target : ν} (hd : d.Distinct)
    (h : d.enter target = some e) (f : List ν) : target :: f ∈ d.files ↔ f ∈ e.files := by
  induction d with
  | nil => cases h
  | file name rest ih =>
    have hne : target ≠ name := fun heq => hd.1 (heq ▸ mem_names_of_enter h)
    rw [files, List.mem_cons, ih hd.2 h]
    simp [hne]
  | sub name entries rest _ ih =>
    rw [Directory.enter] at h
    rw [files, List.mem_append]
    split_ifs at h with hname
    · subst hname
      cases h
      have hrest : name :: f ∉ rest.files := fun hmem => hd.1 (head_mem_names hmem)
      simp [hrest]
    · rw [ih hd.2.2 h]
      simp [hname]

theorem enter_of_mem_files {d : Directory ν} {name : ν} {f : List ν} (hf : f ≠ [])
    (h : name :: f ∈ d.files) : ∃ e, d.enter name = some e := by
  induction d with
  | nil => cases h
  | file other rest ih =>
    rcases List.mem_cons.mp h with heq | hrest
    · cases heq
      exact absurd rfl hf
    · exact ih hrest
  | sub other entries rest _ ih =>
    rw [enter]
    split_ifs with hother
    · exact ⟨entries, rfl⟩
    · rcases List.mem_append.mp h with hentries | hrest
      · obtain ⟨g, -, heq⟩ := List.mem_map.mp hentries
        cases heq
        exact absurd rfl hother
      · exact ih hrest

theorem Distinct.descend {d e : Directory ν} {path : List ν} (hd : d.Distinct)
    (h : d.descend path = some e) : e.Distinct := by
  induction path generalizing d with
  | nil =>
    cases h
    exact hd
  | cons name path ih =>
    obtain ⟨m, hm, hrest⟩ := Option.bind_eq_some_iff.mp h
    exact ih (hd.enter hm) hrest

/-- The files below a directory are those whose path leads through it. -/
theorem mem_files_descend {d e : Directory ν} {path : List ν} (hd : d.Distinct)
    (h : d.descend path = some e) (f : List ν) : path ++ f ∈ d.files ↔ f ∈ e.files := by
  induction path generalizing d with
  | nil =>
    cases h
    rfl
  | cons name path ih =>
    obtain ⟨m, hm, hrest⟩ := Option.bind_eq_some_iff.mp h
    rw [List.cons_append, mem_files_enter hd hm, ih (hd.enter hm) hrest]

/-- Whatever stands above a file is a directory. -/
theorem descend_of_mem_files {d : Directory ν} {path f : List ν} (hd : d.Distinct) (hf : f ≠ [])
    (h : path ++ f ∈ d.files) : ∃ e, d.descend path = some e := by
  induction path generalizing d with
  | nil => exact ⟨d, rfl⟩
  | cons name path ih =>
    obtain ⟨m, hm⟩ := enter_of_mem_files (by simp [hf]) h
    rw [List.cons_append, mem_files_enter hd hm] at h
    obtain ⟨e, he⟩ := ih (hd.enter hm) h
    exact ⟨e, Option.bind_eq_some_iff.mpr ⟨m, hm, he⟩⟩

end Directory
end ReactRuntime.Library
