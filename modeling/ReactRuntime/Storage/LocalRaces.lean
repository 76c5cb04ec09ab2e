import ReactRuntime.Storage.Adapter

/-!
# Conditional puts on a file

The local adapter reads the file, compares the etag and writes the file in three steps, and holds
nothing in between. Any number of calls put to one file, and a schedule says whose step comes next
and which step of the file system fails. The swaps that have landed form a list, which the code
does not keep: it says what each accepted put has replaced.
-/
namespace ReactRuntime.Storage
open Library Serde ReactRuntime.Core

structure PutCall (E : Type) where
  value : Json
  expectedEtag : Option E
deriving DecidableEq

/-- What the file system may refuse. -/
inductive FileFault where
  | readCurrent (e : String)
  | mkdir (e : String)
  | write (e : String)
deriving DecidableEq, Repr

def FileFault.text : FileFault → String
  | .readCurrent e => "read current: " ++ e
  | .mkdir e => "mkdir: " ++ e
  | .write e => "write: " ++ e

def FileFault.error (key : String) (fault : FileFault) : CoreError :=
  .storage (.other ("put_json_if_etag_matches('" ++ key ++ "'): " ++ fault.text))

/-- Where a call stands; `landed` is the number of swaps that had landed when it read the file. -/
inductive PutPhase (B E : Type) where
  | called
  | read (landed : Nat) (bytes : Option B)
  | matched (landed : Nat)
  | returned (result : Except CoreError (ConditionalWriteStatus E))

/-- An accepted put and the content it has replaced. -/
structure Swap (τ B : Type) where
  call : τ
  replaced : Option B

structure SharedFile (τ B E : Type) where
  file : Option B
  phase : τ → PutPhase B E
  swaps : List (Swap τ B)

/-- One step of a call, which a fault may end. -/
structure PutMove (τ : Type) where
  call : τ
  fault : Option FileFault

namespace SharedFile
variable {τ B E : Type} [DecidableEq τ]

def start (file : Option B) : SharedFile τ B E := ⟨file, fun _ => .called, []⟩

def setPhase (s : SharedFile τ B E) (t : τ) (p : PutPhase B E) : SharedFile τ B E :=
  { s with phase := Function.update s.phase t p }

/-- The write of an accepted put. -/
def land (s : SharedFile τ B E) (t : τ) (bytes : B) (etag : E) : SharedFile τ B E where
  file := some bytes
  phase := Function.update s.phase t (.returned (.ok (.written etag)))
  swaps := s.swaps ++ [⟨t, s.file⟩]

section Simp
variable (s : SharedFile τ B E) (t : τ) (p : PutPhase B E) (bytes : B) (etag : E)

@[simp] theorem file_setPhase : (s.setPhase t p).file = s.file := rfl

@[simp] theorem swaps_setPhase : (s.setPhase t p).swaps = s.swaps := rfl

@[simp] theorem phase_setPhase_self : (s.setPhase t p).phase t = p := Function.update_self ..

theorem phase_setPhase_of_ne {u : τ} (h : u ≠ t) : (s.setPhase t p).phase u = s.phase u :=
  Function.update_of_ne h ..

@[simp] theorem file_land : (s.land t bytes etag).file = some bytes := rfl

@[simp] theorem swaps_land : (s.land t bytes etag).swaps = s.swaps ++ [⟨t, s.file⟩] := rfl

@[simp] theorem phase_land_self :
    (s.land t bytes etag).phase t = .returned (.ok (.written etag)) := Function.update_self ..

theorem phase_land_of_ne {u : τ} (h : u ≠ t) : (s.land t bytes etag).phase u = s.phase u :=
  Function.update_of_ne h ..

/-- Where a call is after one call was put elsewhere: it is the one, or it was there. -/
theorem phase_of_setPhase {s : SharedFile τ B E} {t u : τ} {p q : PutPhase B E}
    (h : (s.setPhase t p).phase u = q) : u = t ∧ p = q ∨ u ≠ t ∧ s.phase u = q := by
  by_cases hut : u = t
  · subst hut
    exact .inl ⟨rfl, (phase_setPhase_self ..).symm.trans h⟩
  · exact .inr ⟨hut, (phase_setPhase_of_ne s t p hut).symm.trans h⟩

theorem phase_of_land {s : SharedFile τ B E} {t u : τ} {bytes : B} {etag : E} {q : PutPhase B E}
    (h : (s.land t bytes etag).phase u = q) :
    u = t ∧ .returned (.ok (.written etag)) = q ∨ u ≠ t ∧ s.phase u = q :=
  phase_of_setPhase h

end Simp

variable [DecidableEq E] (F : Format B E) (key : String) (calls : τ → PutCall E)

/-- `put_json_if_etag_matches` of the local adapter, step by step. -/
def putJsonIfEtagMatches (s : SharedFile τ B E) (m : PutMove τ) : Option (SharedFile τ B E) :=
  match s.phase m.call, m.fault with
  | .called, none => some (s.setPhase m.call (.read s.swaps.length s.file))
  | .called, some (.readCurrent e) =>
    some (s.setPhase m.call (.returned (.error ((FileFault.readCurrent e).error key))))
  | .read landed bytes, none =>
    if bytes.map F.etagOf = (calls m.call).expectedEtag then
      some (s.setPhase m.call (.matched landed))
    else some (s.setPhase m.call (.returned (.ok (.conflict (bytes.map F.etagOf)))))
  | .matched _, none =>
    some (s.land m.call (F.render (calls m.call).value) (F.tag (calls m.call).value))
  | .matched _, some (.mkdir e) =>
    some (s.setPhase m.call (.returned (.error ((FileFault.mkdir e).error key))))
  | .matched _, some (.write e) =>
    some (s.setPhase m.call (.returned (.error ((FileFault.write e).error key))))
  | _, _ => none

def machine : Machine (SharedFile τ B E) (PutMove τ) where
  step := putJsonIfEtagMatches F key calls

/-- What one step can do. -/
inductive Steps (s : SharedFile τ B E) (m : PutMove τ) : SharedFile τ B E → Prop
  | read (hphase : s.phase m.call = .called) (hfault : m.fault = none) :
      Steps s m (s.setPhase m.call (.read s.swaps.length s.file))
  | accept (landed : Nat) (bytes : Option B) (hphase : s.phase m.call = .read landed bytes)
      (hfault : m.fault = none) (hetag : bytes.map F.etagOf = (calls m.call).expectedEtag) :
      Steps s m (s.setPhase m.call (.matched landed))
  | refuse (landed : Nat) (bytes : Option B) (hphase : s.phase m.call = .read landed bytes) :
      Steps s m (s.setPhase m.call (.returned (.ok (.conflict (bytes.map F.etagOf)))))
  | land (landed : Nat) (hphase : s.phase m.call = .matched landed) (hfault : m.fault = none) :
      Steps s m (s.land m.call (F.render (calls m.call).value) (F.tag (calls m.call).value))
  | fail (fault : FileFault) (hfault : m.fault = some fault)
      (hphase : ∀ result, s.phase m.call ≠ .returned result) :
      Steps s m (s.setPhase m.call (.returned (.error (fault.error key))))

variable {F key calls} {s s' : SharedFile τ B E} {m : PutMove τ}

theorem steps_of_step (h : (machine F key calls).step s m = some s') :
    Steps F key calls s m s' := by
  change putJsonIfEtagMatches F key calls s m = some s' at h
  unfold putJsonIfEtagMatches at h
  split at h
  case h_1 hphase hfault =>
    cases h
    exact .read hphase hfault
  case h_2 e hphase hfault =>
    cases h
    exact .fail _ hfault fun _ he => by rw [hphase] at he; cases he
  case h_3 landed bytes hphase hfault =>
    split_ifs at h with hetag <;> cases h
    · exact .accept landed bytes hphase hfault hetag
    · exact .refuse landed bytes hphase
  case h_4 landed hphase hfault =>
    cases h
    exact .land landed hphase hfault
  case h_5 landed e hphase hfault =>
    cases h
    exact .fail _ hfault fun _ he => by rw [hphase] at he; cases he
  case h_6 landed e hphase hfault =>
    cases h
    exact .fail _ hfault fun _ he => by rw [hphase] at he; cases he
  case h_7 => cases h

theorem step_land {landed : Nat} (hphase : s.phase m.call = .matched landed)
    (hfault : m.fault = none) :
    (machine F key calls).step s m =
      some (s.land m.call (F.render (calls m.call).value) (F.tag (calls m.call).value)) := by
  change putJsonIfEtagMatches F key calls s m = _
  simp only [putJsonIfEtagMatches, hphase, hfault]

/-- The result of a call that nothing disturbs is that of the backend, which does all in one step. -/
theorem run_putAlone {t : τ} (hphase : s.phase t = .called) {objects : Objects B}
    (hfile : objects.get key = s.file) :
    ∃ n s', (machine F key calls).run s (List.replicate n ⟨t, none⟩) = some s' ∧
      s'.phase t = .returned (F.serve objects
        (.putJsonIfEtagMatches key (calls t).value (calls t).expectedEtag)).2 ∧
      s'.file = (F.serve objects
        (.putJsonIfEtagMatches key (calls t).value (calls t).expectedEtag)).1.get key := by
  have hhead : F.headOf objects key = s.file.map F.etagOf := by rw [Format.headOf, hfile]
  by_cases hetag : s.file.map F.etagOf = (calls t).expectedEtag
  · refine ⟨3, s.setPhase t (.read s.swaps.length s.file) |>.setPhase t (.matched s.swaps.length)
      |>.land t (F.render (calls t).value) (F.tag (calls t).value), ?_, ?_, ?_⟩
    · simp [machine, Machine.run, putJsonIfEtagMatches, hphase, hetag, List.replicate]
    · simp [Format.serve, hhead, hetag]
    · simp [Format.serve, hhead, hetag]
  · refine ⟨2, s.setPhase t (.read s.swaps.length s.file) |>.setPhase t
      (.returned (.ok (.conflict (s.file.map F.etagOf)))), ?_, ?_, ?_⟩
    · simp [machine, Machine.run, putJsonIfEtagMatches, hphase, hetag, List.replicate]
    · simp [Format.serve, hhead, hetag]
    · simp [Format.serve, hhead, hetag, hfile]

variable (F calls) in
/-- The content that a file has after some swaps. -/
def contentAfter (file : Option B) (swaps : List (Swap τ B)) : Option B :=
  match swaps.getLast? with
  | some swap => some (F.render (calls swap.call).value)
  | none => file

variable (F calls) in
/-- The file holds what the swaps have left, and every call works with a content that the file had
when the call read it. -/
structure Tracked (file : Option B) (s : SharedFile τ B E) : Prop where
  content : s.file = contentAfter F calls file s.swaps
  read : ∀ t landed bytes, s.phase t = .read landed bytes →
    landed ≤ s.swaps.length ∧ bytes = contentAfter F calls file (s.swaps.take landed)
  matched : ∀ t landed, s.phase t = .matched landed → landed ≤ s.swaps.length ∧
    (contentAfter F calls file (s.swaps.take landed)).map F.etagOf = (calls t).expectedEtag
  written : ∀ t, (∃ etag, s.phase t = .returned (.ok (.written etag))) ↔
    ∃ swap ∈ s.swaps, swap.call = t
  once : (s.swaps.map Swap.call).Nodup

omit [DecidableEq τ] [DecidableEq E] in
theorem tracked_start (file : Option B) : Tracked F calls file (start file) where
  content := rfl
  read _ _ _ h := nomatch h
  matched _ _ h := nomatch h
  written _ := ⟨fun ⟨_, h⟩ => (nomatch h), fun ⟨_, h, _⟩ => (nomatch h)⟩
  once := List.nodup_nil

omit [DecidableEq E] in
/-- A call that moves on without a write needs only its new position tracked. -/
theorem Tracked.setPhase {file : Option B} (h : Tracked F calls file s) {t : τ}
    {p : PutPhase B E} (hbefore : ∀ result, s.phase t ≠ .returned result)
    (hread : ∀ landed bytes, p = .read landed bytes →
      landed ≤ s.swaps.length ∧ bytes = contentAfter F calls file (s.swaps.take landed))
    (hmatched : ∀ landed, p = .matched landed → landed ≤ s.swaps.length ∧
      (contentAfter F calls file (s.swaps.take landed)).map F.etagOf = (calls t).expectedEtag)
    (hwritten : ∀ etag, p ≠ .returned (.ok (.written etag))) :
    Tracked F calls file (s.setPhase t p) where
  content := h.content
  read u landed bytes hu := by
    rcases phase_of_setPhase hu with ⟨rfl, hp⟩ | ⟨-, hu⟩
    · exact hread landed bytes hp
    · exact h.read u landed bytes hu
  matched u landed hu := by
    rcases phase_of_setPhase hu with ⟨rfl, hp⟩ | ⟨-, hu⟩
    · exact hmatched landed hp
    · exact h.matched u landed hu
  written u := by
    by_cases hut : u = t
    · subst hut
      rw [phase_setPhase_self, swaps_setPhase, ← h.written u]
      exact ⟨fun ⟨etag, he⟩ => absurd he (hwritten etag), fun ⟨etag, he⟩ => absurd he (hbefore _)⟩
    · rw [phase_setPhase_of_ne _ _ _ hut]
      exact h.written u
  once := h.once

omit [DecidableEq E] in
theorem Tracked.land {file : Option B} (h : Tracked F calls file s) {t : τ}
    (hbefore : ∀ result, s.phase t ≠ .returned result) :
    Tracked F calls file (s.land t (F.render (calls t).value) (F.tag (calls t).value)) where
  content := by simp [contentAfter]
  read u landed bytes hu := by
    rcases phase_of_land hu with ⟨-, hp⟩ | ⟨-, hu⟩
    · cases hp
    · obtain ⟨hle, hbytes⟩ := h.read u landed bytes hu
      rw [swaps_land, List.take_append_of_le_length hle, List.length_append]
      exact ⟨Nat.le_add_right_of_le hle, hbytes⟩
  matched u landed hu := by
    rcases phase_of_land hu with ⟨-, hp⟩ | ⟨-, hu⟩
    · cases hp
    · obtain ⟨hle, hetag⟩ := h.matched u landed hu
      rw [swaps_land, List.take_append_of_le_length hle, List.length_append]
      exact ⟨Nat.le_add_right_of_le hle, hetag⟩
  written u := by
    by_cases hut : u = t
    · subst hut
      simp
    · rw [phase_land_of_ne _ _ _ _ hut, swaps_land, h.written u]
      simp [Ne.symm hut]
  once := by
    have hnew : t ∉ s.swaps.map Swap.call := by
      intro hmem
      obtain ⟨swap, hswap, hcall⟩ := List.mem_map.mp hmem
      obtain ⟨etag, he⟩ := (h.written t).mpr ⟨swap, hswap, hcall⟩
      exact hbefore _ he
    simpa [List.nodup_append, hnew] using ⟨h.once, fun swap hswap hcall =>
      hnew (List.mem_map.mpr ⟨swap, hswap, hcall⟩)⟩

theorem Tracked.step {file : Option B} (h : Tracked F calls file s)
    (hs : (machine F key calls).step s m = some s') : Tracked F calls file s' := by
  cases steps_of_step hs with
  | read hphase hfault =>
    refine h.setPhase (by simp [hphase]) ?_ (fun _ he => nomatch he) fun _ he => nomatch he
    rintro landed bytes he
    cases he
    rw [List.take_length]
    exact ⟨Nat.le_refl _, h.content⟩
  | accept landed bytes hphase hfault hetag =>
    obtain ⟨hle, hbytes⟩ := h.read _ landed bytes hphase
    refine h.setPhase (by simp [hphase]) (fun _ _ he => nomatch he) ?_ fun _ he => nomatch he
    rintro _ he
    cases he
    exact ⟨hle, hbytes ▸ hetag⟩
  | refuse landed bytes hphase =>
    exact h.setPhase (by simp [hphase]) (fun _ _ he => nomatch he) (fun _ he => nomatch he)
      fun _ he => nomatch he
  | land landed hphase hfault => exact h.land (by simp [hphase])
  | fail fault hfault hphase =>
    exact h.setPhase hphase (fun _ _ he => nomatch he) (fun _ he => nomatch he)
      fun _ he => nomatch he

section Runs
variable (F calls)

/-- Every accepted put has replaced a content with the etag it was given. -/
def ReplacesExpected (s : SharedFile τ B E) : Prop :=
  ∀ t etag, s.phase t = .returned (.ok (.written etag)) →
    ∃ swap ∈ s.swaps, swap.call = t ∧ swap.replaced.map F.etagOf = (calls t).expectedEtag

/-- Accepted puts that were given one etag put one value. -/
def OneWinner (s : SharedFile τ B E) : Prop :=
  ∀ t u etag etag', s.phase t = .returned (.ok (.written etag)) →
    s.phase u = .returned (.ok (.written etag')) →
    (calls t).expectedEtag = (calls u).expectedEtag → (calls t).value = (calls u).value

/-- What the next write needs. `undisturbed`: no write landed since the call read the file, or the
last of them left the expected etag. `spent`: if a put of another value was accepted under the same
etag, no write from that one on has brought the etag back. -/
structure ClearToLand (s : SharedFile τ B E) (m : PutMove τ) : Prop where
  undisturbed : ∀ landed, s.phase m.call = .matched landed → m.fault = none →
    ∀ swap, (s.swaps.drop landed).getLast? = some swap →
      some (F.tag (calls swap.call).value) = (calls m.call).expectedEtag
  spent : ∀ landed, s.phase m.call = .matched landed → m.fault = none →
    ∀ before swap after, s.swaps = before ++ swap :: after →
      (calls swap.call).expectedEtag = (calls m.call).expectedEtag →
      (calls swap.call).value ≠ (calls m.call).value →
      ∀ later ∈ swap :: after, some (F.tag (calls later.call).value) ≠ (calls m.call).expectedEtag

variable {F calls} {file : Option B}

omit [DecidableEq τ] [DecidableEq E] in
theorem contentAfter_map_etagOf {swaps : List (Swap τ B)} {swap : Swap τ B}
    (h : swaps.getLast? = some swap) :
    (contentAfter F calls file swaps).map F.etagOf = some (F.tag (calls swap.call).value) := by
  rw [contentAfter, h]
  rfl

omit [DecidableEq τ] [DecidableEq E] in
/-- The file still has the etag that a call compared exactly if no write has brought another one. -/
theorem Tracked.etag_iff (h : Tracked F calls file s) {t : τ} {landed : Nat}
    (hphase : s.phase t = .matched landed) :
    s.file.map F.etagOf = (calls t).expectedEtag ↔
      ∀ swap, (s.swaps.drop landed).getLast? = some swap →
        some (F.tag (calls swap.call).value) = (calls t).expectedEtag := by
  obtain ⟨hle, hetag⟩ := h.matched t landed hphase
  rw [h.content]
  cases hlast : (s.swaps.drop landed).getLast? with
  | none =>
    have hnone : s.swaps.length ≤ landed :=
      List.drop_eq_nil_iff.mp (List.getLast?_eq_none_iff.mp hlast)
    rw [List.take_of_length_le hnone] at hetag
    simp [hetag]
  | some swap =>
    have hall : s.swaps.getLast? = some swap := by
      rw [← List.take_append_drop landed s.swaps, List.getLast?_append, hlast]
      rfl
    rw [contentAfter_map_etagOf hall]
    simp

omit [DecidableEq τ] [DecidableEq E] in
/-- An etag that was not brought back is not the file's. -/
theorem Tracked.value_eq (h : Tracked F calls file s)
    (hclear : ClearToLand F calls s m) {landed : Nat} (hphase : s.phase m.call = .matched landed)
    (hfault : m.fault = none) {u : τ} {etag : E}
    (hu : s.phase u = .returned (.ok (.written etag)))
    (hexpected : (calls u).expectedEtag = (calls m.call).expectedEtag) :
    (calls u).value = (calls m.call).value := by
  by_contra hvalue
  obtain ⟨swap, hswap, hcall⟩ := (h.written u).mp ⟨etag, hu⟩
  obtain ⟨before, after, hsplit⟩ := List.append_of_mem hswap
  subst hcall
  obtain ⟨last, hlast⟩ : ∃ last, (swap :: after).getLast? = some last :=
    ⟨_, List.getLast?_eq_some_getLast (by simp)⟩
  have hall : s.swaps.getLast? = some last := by
    rw [hsplit, List.getLast?_append, hlast]
    rfl
  have hfile : s.file.map F.etagOf = (calls m.call).expectedEtag :=
    (h.etag_iff hphase).mpr (hclear.undisturbed landed hphase hfault)
  rw [h.content, contentAfter_map_etagOf hall] at hfile
  exact hclear.spent landed hphase hfault before swap after hsplit hexpected hvalue last
    (List.mem_of_getLast? hlast) hfile

omit [DecidableEq E] in
/-- A write keeps the two properties exactly if it is clear to land. -/
theorem Tracked.land_iff (h : Tracked F calls file s) (hreplaces : ReplacesExpected F calls s)
    (hwinner : OneWinner calls s) {landed : Nat} (hphase : s.phase m.call = .matched landed)
    (hfault : m.fault = none) :
    ReplacesExpected F calls
        (s.land m.call (F.render (calls m.call).value) (F.tag (calls m.call).value)) ∧
      OneWinner calls
        (s.land m.call (F.render (calls m.call).value) (F.tag (calls m.call).value)) ↔
      ClearToLand F calls s m := by
  have hopen : ∀ swap ∈ s.swaps, swap.call ≠ m.call := by
    intro swap hswap hcall
    obtain ⟨etag, he⟩ := (h.written m.call).mpr ⟨swap, hswap, hcall⟩
    rw [hphase] at he
    cases he
  constructor
  · rintro ⟨hafter, hone⟩
    constructor
    · intro landed' hphase' _
      cases hphase.symm.trans hphase'
      obtain ⟨swap, hswap, hcall, hetag⟩ := hafter m.call _ (phase_land_self ..)
      rw [swaps_land, List.mem_append, List.mem_singleton] at hswap
      cases hswap with
      | inl hold => exact absurd hcall (hopen swap hold)
      | inr hnew =>
        subst hnew
        exact (h.etag_iff hphase).mp hetag
    · intro landed' _ _ before swap after hsplit hexpected hvalue
      have hswap : swap ∈ s.swaps := by rw [hsplit]; simp
      obtain ⟨etag, he⟩ := (h.written swap.call).mpr ⟨swap, hswap, rfl⟩
      rw [← phase_land_of_ne s _ (F.render (calls m.call).value) (F.tag (calls m.call).value)
        (hopen swap hswap)] at he
      exact absurd (hone _ _ _ _ he (phase_land_self ..) hexpected) hvalue
  · intro hclear
    constructor
    · intro u etag hu
      by_cases hum : u = m.call
      · subst hum
        refine ⟨⟨m.call, s.file⟩, by simp, rfl, ?_⟩
        exact (h.etag_iff hphase).mpr (hclear.undisturbed landed hphase hfault)
      · rw [phase_land_of_ne _ _ _ _ hum] at hu
        obtain ⟨swap, hswap, hcall, hetag⟩ := hreplaces u etag hu
        exact ⟨swap, by simp [hswap], hcall, hetag⟩
    · intro t u etag etag' ht hu hexpected
      by_cases htm : t = m.call <;> by_cases hum : u = m.call
      · rw [htm, hum]
      · subst htm
        rw [phase_land_of_ne _ _ _ _ hum] at hu
        exact (h.value_eq hclear hphase hfault hu hexpected.symm).symm
      · subst hum
        rw [phase_land_of_ne _ _ _ _ htm] at ht
        exact h.value_eq hclear hphase hfault ht hexpected
      · rw [phase_land_of_ne _ _ _ _ htm] at ht
        rw [phase_land_of_ne _ _ _ _ hum] at hu
        exact hwinner t u etag etag' ht hu hexpected

omit [DecidableEq E] in
theorem setPhase_kept {t : τ} {p : PutPhase B E} (hreplaces : ReplacesExpected F calls s)
    (hwinner : OneWinner calls s) (hp : ∀ etag, p ≠ .returned (.ok (.written etag))) :
    ReplacesExpected F calls (s.setPhase t p) ∧ OneWinner calls (s.setPhase t p) := by
  have hback {u : τ} {etag : E} (hu : (s.setPhase t p).phase u = .returned (.ok (.written etag))) :
      s.phase u = .returned (.ok (.written etag)) := by
    rcases phase_of_setPhase hu with ⟨-, hpu⟩ | ⟨-, hu⟩
    · exact absurd hpu (hp etag)
    · exact hu
  exact ⟨fun u etag hu => hreplaces u etag (hback hu),
    fun u v etag etag' hu hv => hwinner u v etag etag' (hback hu) (hback hv)⟩

/-- In every state of a run each accepted put has replaced what it expected, and no two of them
with different values expected the same, exactly if every write of the run is clear to land. -/
theorem put_comparesAndSwaps_iff (file : Option B) (ms : List (PutMove τ)) :
    (∀ before, before <+: ms → ∀ s, (machine F key calls).run (start file) before = some s →
      ReplacesExpected F calls s ∧ OneWinner calls s) ↔
      (machine F key calls).Along (ClearToLand F calls) (start file) ms := by
  have htracked {is : List (PutMove τ)} {s : SharedFile τ B E}
      (hrun : (machine F key calls).run (start file) is = some s) : Tracked F calls file s :=
    Machine.run_invariant (fun _ _ _ h hs => h.step hs) (tracked_start file) hrun
  constructor
  · intro hkept
    rw [Machine.along_iff]
    rintro before m after s rfl hrun
    have hbefore := hkept before (List.prefix_append ..) s hrun
    have hland (landed : Nat) (hphase : s.phase m.call = .matched landed) (hfault : m.fault = none) :
        ClearToLand F calls s m := by
      rw [← (htracked hrun).land_iff hbefore.1 hbefore.2 hphase hfault]
      apply hkept (before ++ [m]) ⟨after, by simp⟩
      exact (Machine.run_append _).mpr
        ⟨s, hrun, (Machine.run_cons _).mpr ⟨_, step_land hphase hfault, rfl⟩⟩
    exact ⟨fun landed hphase hfault => (hland landed hphase hfault).undisturbed landed hphase hfault,
      fun landed hphase hfault => (hland landed hphase hfault).spent landed hphase hfault⟩
  · intro halong before hbefore s hrun
    have hend : Tracked F calls file s ∧ ReplacesExpected F calls s ∧ OneWinner calls s := by
      refine Machine.run_invariant_along
        (P := fun s => Tracked F calls file s ∧ ReplacesExpected F calls s ∧ OneWinner calls s)
        ?_ ⟨tracked_start file, fun _ _ h => (nomatch h), fun _ _ _ _ h => (nomatch h)⟩
        (halong.of_isPrefix hbefore) hrun
      rintro s m s' ⟨h, hreplaces, hwinner⟩ hclear hs
      refine ⟨h.step hs, ?_⟩
      cases steps_of_step hs with
      | land landed hphase hfault =>
        exact (h.land_iff hreplaces hwinner hphase hfault).mpr hclear
      | read | accept | refuse | fail =>
        exact setPhase_kept hreplaces hwinner fun _ he => nomatch he
    exact hend.2

end Runs

/-! Two processes that create one file. -/

/-- Two calls that both expect no file. -/
def creators (t : Bool) : PutCall Json := ⟨.bool t, none⟩

/-- Both calls find no file, and both puts are accepted: the second one replaces the first one's
value. -/
theorem put_landsTwice_absent :
    ∃ s, (machine Format.plain "key" creators).run (start none)
        [⟨true, none⟩, ⟨false, none⟩, ⟨true, none⟩, ⟨false, none⟩, ⟨true, none⟩,
          ⟨false, none⟩] = some s ∧
      ¬ ReplacesExpected Format.plain creators s ∧ ¬ OneWinner creators s := by
  refine ⟨_, rfl, fun hreplaces => ?_, fun hwinner => ?_⟩
  · obtain ⟨swap, hswap, hcall, hetag⟩ := hreplaces false (.bool false) rfl
    have hmem : swap ∈ ([⟨true, none⟩, ⟨false, some (.bool true)⟩] : List (Swap Bool Json)) := hswap
    simp only [List.mem_cons, List.not_mem_nil, or_false] at hmem
    rcases hmem with rfl | rfl
    · cases hcall
    · cases hetag
  · exact absurd (hwinner true false (.bool true) (.bool false) rfl rfl rfl) (by decide)

end SharedFile
end ReactRuntime.Storage
