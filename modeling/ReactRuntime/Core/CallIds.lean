import Mathlib.Algebra.GroupWithZero.Nat
import Mathlib.Data.Fintype.Basic
import ReactRuntime.Library.Machine

/-!
# Call ids

The last id of each thread is kept in a map that all calls share. A call reads it, puts the next id
back and looks whether the map has grown too large; then the map is cleared.
-/
namespace ReactRuntime.Core
open Library

variable {τ κ : Type}

def maxCallIdEntries : Nat := 10000

/-- The map of last ids. -/
structure CallIdCache (κ : Type) where
  entries : List (κ × Nat)

namespace CallIdCache

variable [DecidableEq κ]

def get (cache : CallIdCache κ) (threadId : κ) : Option Nat := cache.entries.lookup threadId

def insert (cache : CallIdCache κ) (threadId : κ) (id : Nat) : CallIdCache κ :=
  ⟨(threadId, id) :: cache.entries.filter (·.1 ≠ threadId)⟩

def len (cache : CallIdCache κ) : Nat := cache.entries.length

variable {cache : CallIdCache κ} {threadId other : κ} {id : Nat}

@[simp] theorem get_insert_self : (cache.insert threadId id).get threadId = some id := by
  simp [get, insert]

theorem get_insert_of_ne (h : other ≠ threadId) :
    (cache.insert threadId id).get other = cache.get other := by
  have hfilter : ∀ entries : List (κ × Nat),
      (entries.filter (·.1 ≠ threadId)).lookup other = entries.lookup other := by
    intro entries
    induction entries with
    | nil => rfl
    | cons entry entries ih =>
      by_cases hentry : entry.1 = threadId
      · have hother : (other == entry.1) = false := by simp [hentry, h]
        rw [List.filter_cons_of_neg (by simp [hentry]), ih, List.lookup_cons, hother]
      · rw [List.filter_cons_of_pos (by simp [hentry]), List.lookup_cons, List.lookup_cons, ih]
  have hne : (other == threadId) = false := by simp [h]
  rw [get, insert, List.lookup_cons, hne]
  exact hfilter cache.entries

@[simp] theorem get_empty : (⟨[]⟩ : CallIdCache κ).get threadId = none := rfl

end CallIdCache

/-- Where a call of `next_call_id` stands: before its read, before its insert, before it looks at the
size of the map, before it clears the map, or at its end. -/
inductive CallPc where
  | called
  | read (entry : Nat)
  | inserted (entry : Nat)
  | full (entry : Nat)
  | returned (entry : Nat)
deriving DecidableEq, Repr

/-- The id is in the map, or was. -/
def CallPc.settled : CallPc → Option Nat
  | .inserted entry | .full entry | .returned entry => some entry
  | .called | .read _ => none

structure Calls (τ κ : Type) where
  cache : CallIdCache κ
  pc : τ → CallPc

namespace Calls
variable [DecidableEq τ]

def start : Calls τ κ := ⟨⟨[]⟩, fun _ => .called⟩

def move (s : Calls τ κ) (t : τ) (cache : CallIdCache κ) (pc : CallPc) : Calls τ κ :=
  ⟨cache, Function.update s.pc t pc⟩

section Move
variable (s : Calls τ κ) {t u : τ} (cache : CallIdCache κ) (pc : CallPc)

@[simp] theorem cache_move : (s.move t cache pc).cache = cache := rfl

@[simp] theorem pc_move_self : (s.move t cache pc).pc t = pc := Function.update_self ..

theorem pc_move_of_ne (h : u ≠ t) : (s.move t cache pc).pc u = s.pc u := Function.update_of_ne h ..

end Move

variable [DecidableEq κ]

/-- The id that a read gives. -/
def nextEntry (cache : CallIdCache κ) (threadId : κ) : Nat :=
  ((cache.get threadId).getD 0 + 1) % 2 ^ 64

/-- The next step of call `t`. -/
def step (threadId : τ → κ) (s : Calls τ κ) (t : τ) : Option (Calls τ κ) :=
  match s.pc t with
  | .called => some (s.move t s.cache (.read (nextEntry s.cache (threadId t))))
  | .read entry => some (s.move t (s.cache.insert (threadId t) entry) (.inserted entry))
  | .inserted entry =>
    if s.cache.len > maxCallIdEntries then some (s.move t s.cache (.full entry))
    else some (s.move t s.cache (.returned entry))
  | .full entry => some (s.move t ⟨[]⟩ (.returned entry))
  | .returned _ => none

/-- What one step can do. -/
inductive Steps (threadId : τ → κ) (t : τ) (s : Calls τ κ) : Calls τ κ → Prop where
  | get (hpc : s.pc t = .called) :
      Steps threadId t s (s.move t s.cache (.read (nextEntry s.cache (threadId t))))
  | insert (entry : Nat) (hpc : s.pc t = .read entry) :
      Steps threadId t s (s.move t (s.cache.insert (threadId t) entry) (.inserted entry))
  | pass (entry : Nat) (cache : CallIdCache κ) (pc : CallPc) (hpc : (s.pc t).settled = some entry)
      (hnext : pc.settled = some entry) (hcache : cache = s.cache ∨ cache = ⟨[]⟩) :
      Steps threadId t s (s.move t cache pc)

theorem steps_of_step {threadId : τ → κ} {s s' : Calls τ κ} {t : τ}
    (h : step threadId s t = some s') : Steps threadId t s s' := by
  unfold step at h
  split at h
  case h_1 hpc =>
    cases h
    exact .get hpc
  case h_2 entry hpc =>
    cases h
    exact .insert entry hpc
  case h_3 entry hpc =>
    split_ifs at h <;> cases h <;> exact .pass entry _ _ (by rw [hpc]; rfl) rfl (.inl rfl)
  case h_4 entry hpc =>
    cases h
    exact .pass entry _ _ (by rw [hpc]; rfl) rfl (.inr rfl)
  case h_5 => cases h

theorem pc_of_step_ne {threadId : τ → κ} {s s' : Calls τ κ} {t u : τ}
    (h : step threadId s t = some s') (hne : u ≠ t) : s'.pc u = s.pc u := by
  cases steps_of_step h <;> exact pc_move_of_ne _ _ _ hne

theorem step_of_returned {threadId : τ → κ} {s : Calls τ κ} {t : τ} {entry : Nat}
    (h : s.pc t = .returned entry) : step threadId s t = none := by
  rw [step, h]

def machine (threadId : τ → κ) : Machine (Calls τ κ) τ where
  step := step threadId

/-- When a call reads, no other call for its thread is between its read and its insert, the last id
of the thread has not been cleared away, and the next one does not overflow. -/
def Undisturbed (threadId : τ → κ) (s : Calls τ κ) (t : τ) : Prop :=
  s.pc t = .called →
    (∀ u, threadId u = threadId t → s.pc u ≠ .called →
      (s.pc u).settled ≠ none ∧ s.cache.get (threadId t) ≠ none) ∧
    (s.cache.get (threadId t)).getD 0 + 1 < 2 ^ 64

instance [Fintype τ] {threadId : τ → κ} {s : Calls τ κ} {t : τ} :
    Decidable (Undisturbed threadId s t) :=
  inferInstanceAs (Decidable (s.pc t = .called →
    (∀ u, threadId u = threadId t → s.pc u ≠ .called →
      (s.pc u).settled ≠ none ∧ s.cache.get (threadId t) ≠ none) ∧
    (s.cache.get (threadId t)).getD 0 + 1 < 2 ^ 64))

/-- No two calls for one thread return the same id, and a call that starts when another one has
returned gets the larger id. -/
structure Identifies (threadId : τ → κ) (is : List τ) : Prop where
  unique : ∀ s, (machine threadId).run start is = some s → ∀ t u entry entry', t ≠ u →
    threadId t = threadId u → s.pc t = .returned entry → s.pc u = .returned entry' → entry ≠ entry'
  increasing : ∀ front back m s, is = front ++ back → (machine threadId).run start front = some m →
    (machine threadId).run m back = some s → ∀ t u entry entry', threadId t = threadId u →
    m.pc t = .returned entry → m.pc u = .called → s.pc u = .returned entry' → entry < entry'

section
variable {threadId : τ → κ} {s s' : Calls τ κ} {t u : τ}

/-- The last id of a thread is at least as large as each one that was put into the map, and a call
between its read and its insert has the largest id of its thread. -/
structure Inv (threadId : τ → κ) (s : Calls τ κ) : Prop where
  settled_le : ∀ t entry last, (s.pc t).settled = some entry →
    s.cache.get (threadId t) = some last → entry ≤ last
  read_alone : ∀ t u entry, t ≠ u → threadId u = threadId t → s.pc t = .read entry →
    s.pc u ≠ .called → ∃ entry', (s.pc u).settled = some entry' ∧ entry' < entry
  unique : ∀ t u entry, t ≠ u → threadId u = threadId t → (s.pc t).settled = some entry →
    (s.pc u).settled ≠ some entry

omit [DecidableEq τ] in
theorem inv_start (threadId : τ → κ) : Inv threadId (start : Calls τ κ) where
  settled_le _ _ _ h _ := nomatch h
  read_alone _ _ _ _ _ h _ := nomatch h
  unique _ _ _ _ _ h := nomatch h

omit [DecidableEq τ] in
/-- An undisturbed read gives a larger id than each one of the thread. -/
theorem Inv.lt_nextEntry (h : Inv threadId s) (hgood : Undisturbed threadId s t)
    (hpc : s.pc t = .called) (hu : threadId u = threadId t) (hcalled : s.pc u ≠ .called) :
    ∃ entry, (s.pc u).settled = some entry ∧ entry < nextEntry s.cache (threadId t) := by
  obtain ⟨hothers, hlast⟩ := hgood hpc
  obtain ⟨hsettled, hget⟩ := hothers u hu hcalled
  obtain ⟨entry, hentry⟩ := Option.ne_none_iff_exists'.mp hsettled
  obtain ⟨last, hlast'⟩ := Option.ne_none_iff_exists'.mp hget
  have hle : entry ≤ last := h.settled_le u entry last hentry (by rw [hu, hlast'])
  refine ⟨entry, hentry, ?_⟩
  rw [nextEntry, Nat.mod_eq_of_lt hlast, hlast']
  exact Nat.lt_succ_of_le hle

theorem Inv.get (h : Inv threadId s) (hgood : Undisturbed threadId s t) (hpc : s.pc t = .called) :
    Inv threadId (s.move t s.cache (.read (nextEntry s.cache (threadId t)))) := by
  have hmoved : ∀ v entry, ((s.move t s.cache (.read (nextEntry s.cache (threadId t)))).pc v).settled =
      some entry → v ≠ t ∧ (s.pc v).settled = some entry := by
    intro v entry hv
    by_cases hvt : v = t
    · subst hvt
      simp [CallPc.settled] at hv
    · rw [pc_move_of_ne _ _ _ hvt] at hv
      exact ⟨hvt, hv⟩
  constructor
  · intro v entry last hv hlast
    exact h.settled_le v entry last (hmoved v entry hv).2 hlast
  · intro v u entry hne hthread hread hcalled
    by_cases hvt : v = t
    · subst hvt
      rw [pc_move_self, CallPc.read.injEq] at hread
      rw [pc_move_of_ne _ _ _ hne.symm] at hcalled ⊢
      rw [← hread]
      exact h.lt_nextEntry hgood hpc hthread hcalled
    · rw [pc_move_of_ne _ _ _ hvt] at hread
      by_cases hut : u = t
      · -- the other call would be between its read and its insert
        subst hut
        obtain ⟨hsettled, -⟩ := (hgood hpc).1 v hthread.symm (by rw [hread]; simp)
        rw [hread] at hsettled
        exact absurd rfl hsettled
      · rw [pc_move_of_ne _ _ _ hut] at hcalled ⊢
        exact h.read_alone v u entry hne hthread hread hcalled
  · intro v u entry hne hthread hv hu
    exact h.unique v u entry hne hthread (hmoved v entry hv).2 (hmoved u entry hu).2

omit [DecidableEq τ] in
/-- A call between its read and its insert has a larger id than those that were inserted. -/
theorem Inv.lt_of_read (h : Inv threadId s) {entry entry' : Nat} (hpc : s.pc t = .read entry)
    (hne : u ≠ t) (hthread : threadId u = threadId t) (hu : (s.pc u).settled = some entry') :
    entry' < entry := by
  have hcalled : s.pc u ≠ .called := by
    intro hcalled
    simp [hcalled, CallPc.settled] at hu
  obtain ⟨last, hsettled, hlt⟩ := h.read_alone t u entry hne.symm hthread hpc hcalled
  rwa [Option.some.inj (hu.symm.trans hsettled)]

theorem Inv.insert (h : Inv threadId s) {entry : Nat} (hpc : s.pc t = .read entry) :
    Inv threadId (s.move t (s.cache.insert (threadId t) entry) (.inserted entry)) := by
  have hbegun : s.pc t ≠ .called := by
    rw [hpc]
    simp
  constructor
  · intro v entry' last hv hlast
    by_cases hthread : threadId v = threadId t
    · rw [cache_move, hthread, CallIdCache.get_insert_self, Option.some.injEq] at hlast
      subst hlast
      by_cases hvt : v = t
      · subst hvt
        rw [pc_move_self] at hv
        exact Nat.le_of_eq (Option.some.inj hv).symm
      · rw [pc_move_of_ne _ _ _ hvt] at hv
        exact Nat.le_of_lt (h.lt_of_read hpc hvt hthread hv)
    · have hvt : v ≠ t := by
        rintro rfl
        exact hthread rfl
      rw [pc_move_of_ne _ _ _ hvt] at hv
      rw [cache_move, CallIdCache.get_insert_of_ne hthread] at hlast
      exact h.settled_le v entry' last hv hlast
  · intro v u entry' hne hthread hread hcalled
    have hvt : v ≠ t := by
      rintro rfl
      simp at hread
    rw [pc_move_of_ne _ _ _ hvt] at hread
    by_cases hut : u = t
    · subst hut
      obtain ⟨_, hsettled, -⟩ := h.read_alone v u entry' hne hthread hread hbegun
      rw [hpc] at hsettled
      exact nomatch hsettled
    · rw [pc_move_of_ne _ _ _ hut] at hcalled ⊢
      exact h.read_alone v u entry' hne hthread hread hcalled
  · intro v u entry' hne hthread hv hu
    by_cases hvt : v = t
    · subst hvt
      rw [pc_move_self] at hv
      rw [pc_move_of_ne _ _ _ hne.symm] at hu
      exact absurd (Option.some.inj hv) (Nat.ne_of_gt (h.lt_of_read hpc hne.symm hthread hu))
    · rw [pc_move_of_ne _ _ _ hvt] at hv
      by_cases hut : u = t
      · subst hut
        rw [pc_move_self] at hu
        exact absurd (Option.some.inj hu) (Nat.ne_of_gt (h.lt_of_read hpc hvt hthread.symm hv))
      · rw [pc_move_of_ne _ _ _ hut] at hu
        exact h.unique v u entry' hne hthread hv hu

theorem Inv.pass (h : Inv threadId s) {entry : Nat} {cache : CallIdCache κ} {pc : CallPc}
    (hpc : (s.pc t).settled = some entry) (hnext : pc.settled = some entry)
    (hcache : cache = s.cache ∨ cache = ⟨[]⟩) : Inv threadId (s.move t cache pc) := by
  have hsettled : ∀ v, ((s.move t cache pc).pc v).settled = (s.pc v).settled := by
    intro v
    by_cases hvt : v = t
    · subst hvt
      rw [pc_move_self, hnext, hpc]
    · rw [pc_move_of_ne _ _ _ hvt]
  have hbegun : s.pc t ≠ .called := by
    intro hcalled
    simp [hcalled, CallPc.settled] at hpc
  constructor
  · intro v entry' last hv hlast
    rw [hsettled] at hv
    rcases hcache with rfl | rfl
    · exact h.settled_le v entry' last hv hlast
    · simp at hlast
  · intro v u entry' hne hthread hread hcalled
    have hvt : v ≠ t := by
      rintro rfl
      rw [pc_move_self] at hread
      simp [hread, CallPc.settled] at hnext
    rw [pc_move_of_ne _ _ _ hvt] at hread
    rw [hsettled]
    refine h.read_alone v u entry' hne hthread hread fun hu => ?_
    have hut : u ≠ t := by
      rintro rfl
      exact hbegun hu
    rw [pc_move_of_ne _ _ _ hut] at hcalled
    exact hcalled hu
  · intro v u entry' hne hthread hv hu
    rw [hsettled] at hv hu
    exact h.unique v u entry' hne hthread hv hu

theorem Inv.step (h : Inv threadId s) (hgood : Undisturbed threadId s t)
    (hstep : step threadId s t = some s') : Inv threadId s' := by
  cases steps_of_step hstep with
  | get hpc => exact h.get hgood hpc
  | insert entry hpc => exact h.insert hpc
  | pass entry cache pc hpc hnext hcache => exact h.pass hpc hnext hcache

/-- A call that starts when `t` has returned `entry` is before its read or has a larger id. -/
def After (t u : τ) (entry : Nat) (s : Calls τ κ) : Prop :=
  s.pc t = .returned entry ∧ ∀ entry', s.pc u = .read entry' ∨ (s.pc u).settled = some entry' →
    entry < entry'

theorem After.step {entry : Nat} {v : τ} (h : After t u entry s) (hinv : Inv threadId s)
    (hthread : threadId t = threadId u) (hgood : Undisturbed threadId s v)
    (hstep : step threadId s v = some s') : After t u entry s' := by
  obtain ⟨hreturned, hlt⟩ := h
  have hvt : t ≠ v := by
    rintro rfl
    rw [step_of_returned hreturned] at hstep
    cases hstep
  refine ⟨(pc_of_step_ne hstep hvt).trans hreturned, fun entry' hentry => ?_⟩
  by_cases hvu : u = v
  · subst hvu
    cases steps_of_step hstep with
    | get hpc =>
      have hcalled : s.pc t ≠ .called := by simp [hreturned]
      obtain ⟨last, hlast, hlt⟩ := hinv.lt_nextEntry hgood hpc hthread hcalled
      rw [hreturned] at hlast
      cases hlast
      simp only [pc_move_self, CallPc.read.injEq, CallPc.settled, reduceCtorEq, or_false] at hentry
      exact hentry ▸ hlt
    | insert entry'' hpc =>
      simp only [pc_move_self, CallPc.settled, reduceCtorEq, false_or, Option.some.injEq] at hentry
      exact hlt entry' (.inl (hentry ▸ hpc))
    | pass entry'' cache pc hpc hnext hcache =>
      refine hlt entry' (.inr ?_)
      rw [pc_move_self] at hentry
      rcases hentry with rfl | hentry
      · cases hnext
      · exact (hpc.trans hnext.symm).trans hentry
  · rw [pc_of_step_ne hstep hvu] at hentry
    exact hlt entry' hentry

/-- In an undisturbed run the ids of a thread are unique, and they increase. -/
theorem call_ids_identify (threadId : τ → κ) (is : List τ)
    (hgood : (machine threadId).Along (Undisturbed threadId) start is) :
    Identifies threadId is where
  unique s hrun t u entry entry' hne hthread ht hu := by
    have hinv : Inv threadId s := Machine.run_invariant_along
      (fun _ _ _ hinv hgood hstep => hinv.step hgood hstep) (inv_start threadId) hgood hrun
    rintro rfl
    exact hinv.unique t u entry hne hthread.symm (by rw [ht]; rfl) (by rw [hu]; rfl)
  increasing front back m s his hfront hback t u entry entry' hthread ht hcalled hu := by
    subst his
    have hinv : Inv threadId m := Machine.run_invariant_along
      (fun _ _ _ hinv hgood hstep => hinv.step hgood hstep) (inv_start threadId)
      (hgood.of_isPrefix (List.prefix_append front back)) hfront
    have hafter : After t u entry m := by
      refine ⟨ht, fun last hlast => ?_⟩
      simp [hcalled, CallPc.settled] at hlast
    have hboth : Inv threadId s ∧ After t u entry s := Machine.run_invariant_along
      (P := fun s => Inv threadId s ∧ After t u entry s) (fun _ _ _ h hgood hstep => ⟨h.1.step hgood hstep, h.2.step h.1 hthread hgood hstep⟩)
      ⟨hinv, hafter⟩ (hgood.of_append hfront) hback
    exact hboth.2.2 entry' (.inr (by rw [hu]; rfl))

end

/-- Two calls for one thread, one after the other. -/
theorem call_ids_identify_successive :
    (machine fun _ : Bool => "t").Along (Undisturbed fun _ => "t") start
      [false, false, false, true, true, true] ∧
    Identifies (fun _ : Bool => "t") [false, false, false, true, true, true] := by
  have hgood : (machine fun _ : Bool => "t").Along (Undisturbed fun _ => "t") start
      [false, false, false, true, true, true] := by
    decide +kernel
  exact ⟨hgood, call_ids_identify _ _ hgood⟩

/-- Two calls for one thread that both read before one of them inserts return the same id. -/
theorem call_ids_repeated :
    ¬ Identifies (fun _ : Bool => "t") [false, true, false, true, false, true] := by
  intro h
  exact h.unique _ rfl false true 1 1 (by decide) rfl rfl rfl rfl

end Calls

end ReactRuntime.Core
