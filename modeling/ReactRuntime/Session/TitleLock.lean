import ReactRuntime.Session.Outcomes
import ReactRuntime.Library.Machine

/-!
# The lock of a title

`lock_title` sets the title and the flag, and does nothing once the flag is set.
`set_title_if_absent` never asks for the flag: it sets a title wherever there is
none or an empty one. So an empty title is not kept by its lock.
-/
namespace ReactRuntime.Session
open Library Serde ReactRuntime.Core Storage

/-- A call of one of the stores of a client. -/
structure ThreadCall where
  store : Nat
  op : ThreadOp

variable {B E : Type} [DecidableEq E] {F : ExactFormat B E} (cl : Client E) {key threadId : String}

/-- The state after a call has returned. -/
def ThreadCall.run (call : ThreadCall) (F : Format B E) (threadId : String) (s : Solo B E) :
    Solo B E :=
  ((call.op.program (cl.at call.store).self (cl.at call.store).showEtag threadId).eval
    ((cl.at call.store).handle F) s).1

/-- Calls on a thread, one after the other. -/
def callMachine (F : Format B E) (threadId : String) : Machine (Solo B E) ThreadCall where
  step s call := some (call.run cl F threadId s)

/-- The object is the document of the log. -/
def Stored (F : Format B E) (key : String) (log : ThreadLog) (s : Solo B E) : Prop :=
  s.kernel.objects.get key = some (F.render log.toValue)

/-- A locked title is still there, and still locked. -/
def LockKept (F : Format B E) (key : String) (s s' : Solo B E) : Prop :=
  ∀ log, Stored F key log s → log.titleLocked = true →
    ∃ log', Stored F key log' s' ∧ log'.titleLocked = true ∧ log'.title = log.title

/-- A call that takes effect on a locked title: it sets another title where the locked one is absent
or empty, its store can load the log, and one of its puts reaches the storage. -/
def Retitles (F : Format B E) (key : String) (s : Solo B E) (call : ThreadCall) : Prop :=
  ∃ title log, call.op = .setTitleIfAbsent title ∧ Stored F key log s ∧ log.titleLocked = true ∧
    log.titleAbsent = true ∧ log.title ≠ some title ∧ CanLoad call.store key s log ∧
    cl.putLands s.puts = true

/-- The title of a locked log is the title of the log that replaces it. -/
def SameLock (c c' : Option ThreadLog) : Prop :=
  ∀ log, c = some log → log.titleLocked = true →
    ∃ log', c' = some log' ∧ log'.titleLocked = true ∧ log'.title = log.title

theorem SameLock.refl (c : Option ThreadLog) : SameLock c c := fun log h hl => ⟨log, h, hl, rfl⟩

section States
variable {c c' : Option ThreadLog} {s s' : Solo B E}

omit [DecidableEq E] in
theorem Holds.stored_iff (h : Holds F key c s) {log : ThreadLog} :
    Stored F key log s ↔ ∃ log', c = some log' ∧ ThreadLog.Alike log' log := by
  rw [Stored, h.object, Option.map_eq_some_iff]
  refine exists_congr fun log' => and_congr_right fun _ => ?_
  rw [F.render_injective.eq_iff, ThreadLog.alike_iff]

omit [DecidableEq E] in
theorem lockKept_iff (h : Holds F key c s) (h' : Holds F key c' s') :
    LockKept F key s s' ↔ SameLock c c' := by
  constructor
  · intro hkept log hlog hlocked
    obtain ⟨log', hstored, hlocked', htitle⟩ :=
      hkept log (h.stored_iff.mpr ⟨log, hlog, .refl log⟩) hlocked
    obtain ⟨log₂, hlog₂, halike⟩ := h'.stored_iff.mp hstored
    exact ⟨log₂, hlog₂, halike.titleLocked.trans hlocked', halike.title.trans htitle⟩
  · intro hsame log hstored hlocked
    obtain ⟨log₁, hlog₁, halike⟩ := h.stored_iff.mp hstored
    obtain ⟨log', hlog', hlocked', htitle⟩ := hsame log₁ hlog₁ (halike.titleLocked.trans hlocked)
    exact ⟨log', h'.stored_iff.mpr ⟨log', hlog', .refl log'⟩, hlocked',
      htitle.trans halike.title⟩

omit [DecidableEq E] in
theorem LockKept.trans {m : Solo B E} (h : LockKept F key s m) (h' : LockKept F key m s') :
    LockKept F key s s' := by
  intro log hstored hlocked
  obtain ⟨log', hstored', hlocked', htitle'⟩ := h log hstored hlocked
  obtain ⟨log'', hstored'', hlocked'', htitle''⟩ := h' log' hstored' hlocked'
  exact ⟨log'', hstored'', hlocked'', htitle''.trans htitle'⟩

end States

theorem pushTimes_title (step : ThreadStep) (n : Nat) (log : ThreadLog) :
    (pushTimes step n log).title = log.title ∧
      (pushTimes step n log).titleLocked = log.titleLocked := by
  induction n generalizing log with
  | zero => exact ⟨rfl, rfl⟩
  | succ n ih => exact ih (log.push step)

theorem sameLock_pushedTimes (step : ThreadStep) (c : Option ThreadLog) (n : Nat) :
    SameLock c (pushedTimes step c n) := by
  cases n with
  | zero => exact SameLock.refl c
  | succ n =>
    rintro log rfl hlocked
    obtain ⟨htitle, hlock⟩ := pushTimes_title step (n + 1) log
    exact ⟨_, rfl, hlock.trans hlocked, htitle⟩

/-- An edit other than `set_title_if_absent` keeps a locked title; that one keeps a title that is not
absent, or is the one it sets. -/
theorem sameLock_after {op : ThreadOp} {landed : Bool} {c : Option ThreadLog}
    (h : ∀ title log, op = .setTitleIfAbsent title → c = some log → log.titleLocked = true →
      log.titleAbsent = true → landed = true → log.title = some title) :
    SameLock c (op.after landed c) := by
  rintro log rfl hlocked
  rw [ThreadOp.after]
  simp only [Option.getD_some]
  cases happly : op.apply log with
  | none => exact ⟨log, rfl, hlocked, rfl⟩
  | some log' =>
    cases landed with
    | false => exact ⟨log, rfl, hlocked, rfl⟩
    | true =>
      refine ⟨log', rfl, ?_⟩
      cases op with
      | append step =>
        cases happly
        exact ⟨hlocked, rfl⟩
      | preflight agent suiteId initialPhase ts =>
        simp only [ThreadOp.apply] at happly
        split_ifs at happly
        cases happly
        exact ⟨hlocked, rfl⟩
      | setTitleIfAbsent title =>
        simp only [ThreadOp.apply] at happly
        split_ifs at happly with habsent
        cases happly
        exact ⟨hlocked, (h title log rfl rfl hlocked habsent rfl).symm⟩
      | lockTitle title =>
        simp only [ThreadOp.apply, hlocked] at happly
        cases happly
      | get => cases happly

section Call
variable (htag : Function.Injective F.tag) (hkey : cl.threadKey threadId = .ok key)
  {c : Option ThreadLog} {s : Solo B E} (h : Holds F key c s)
include htag hkey h

/-- A call keeps a locked title unless it retitles. -/
theorem sameLock_run (call : ThreadCall) : ∃ c', Holds F key c' (call.run cl F threadId s) ∧
    (¬ Retitles cl F key s call → SameLock c c') := by
  obtain ⟨store, op⟩ := call
  have hedit : ∀ s', EditLeft (cl.at store) F key op c s s' →
      ∃ c', Holds F key c' s' ∧ (¬ Retitles cl F key s ⟨store, op⟩ → SameLock c c') := by
    intro s' hleft
    by_cases hloads : Loads store key c s
    · refine ⟨_, hleft.loaded hloads, fun hcall => sameLock_after ?_⟩
      rintro title log rfl rfl hlocked habsent hlands
      by_contra hne
      exact hcall ⟨title, log, rfl, h.stored_iff.mpr ⟨log, rfl, .refl log⟩, hlocked,
        habsent, hne, hloads log rfl, hlands⟩
    · exact ⟨c, hleft.unloaded hloads, fun _ => SameLock.refl c⟩
  cases op with
  | append step =>
    obtain ⟨n, hn⟩ := eval_appendStep_holds (cl.at store) htag hkey h step
    exact ⟨_, by simpa [ThreadCall.run, ThreadOp.program] using hn,
      fun _ => sameLock_pushedTimes step c n⟩
  | preflight agent suiteId initialPhase ts =>
    have hleft := eval_ensurePreflightPhaseStep (cl.at store) htag hkey h agent suiteId initialPhase ts
    simpa [ThreadCall.run, ThreadOp.program] using hedit _ hleft
  | setTitleIfAbsent title =>
    have hleft := eval_setTitleIfAbsent (cl.at store) htag hkey h title
    simpa [ThreadCall.run, ThreadOp.program] using hedit _ hleft
  | lockTitle title =>
    have hleft := eval_lockTitle (cl.at store) htag hkey h title
    simpa [ThreadCall.run, ThreadOp.program] using hedit _ hleft
  | get =>
    have hleft := (eval_get_holds (cl.at store) htag hkey h).holds
    exact ⟨c, by simpa [ThreadCall.run, ThreadOp.program] using hleft, fun _ => SameLock.refl c⟩

/-- A call that retitles leaves another title under the lock. -/
theorem not_lockKept_of_retitles {call : ThreadCall} (hcall : Retitles cl F key s call) :
    ¬ LockKept F key s (call.run cl F threadId s) := by
  obtain ⟨store, op⟩ := call
  obtain ⟨title, log, rfl, hstored, hlocked, habsent, hne, hcan, hlands⟩ := hcall
  obtain ⟨log₀, rfl, halike⟩ := h.stored_iff.mp hstored
  have hloads : Loads store key (some log₀) s := by
    rintro _ ⟨⟩
    exact ⟨halike.schemaVersion.trans hcan.schema, hcan.source.of_alike halike.symm⟩
  have hleft := (eval_setTitleIfAbsent (cl.at store) htag hkey h title).loaded hloads
  have hafter : (ThreadOp.setTitleIfAbsent title).after ((cl.at store).putLands s.puts) (some log₀) =
      some { log₀ with title := some title } := by
    have hlands' : (cl.at store).putLands s.puts = true := hlands
    have happly : (ThreadOp.setTitleIfAbsent title).apply log₀ =
        some { log₀ with title := some title } := if_pos (halike.titleAbsent.trans habsent)
    rw [ThreadOp.after, Option.getD_some, happly, hlands']
    rfl
  rw [hafter] at hleft
  have hrun : ThreadCall.run cl ⟨store, .setTitleIfAbsent title⟩ F threadId s =
      (((cl.at store).self.setTitleIfAbsent (cl.at store).showEtag threadId title).eval
        ((cl.at store).handle F) s).1 := by
    simp [ThreadCall.run, ThreadOp.program]
  rw [hrun, lockKept_iff h hleft]
  intro hsame
  obtain ⟨log', hlog', -, htitle⟩ := hsame log₀ rfl (halike.titleLocked.trans hlocked)
  cases hlog'
  exact hne (halike.title.symm.trans htitle.symm)

end Call

/-- In the states that a run passes, a locked title stays as it is exactly if no call of the run
retitles. -/
theorem lockedTitle_kept_iff (htag : Function.Injective F.tag)
    (hkey : cl.threadKey threadId = .ok key) (initial : Option ThreadLog) (calls : List ThreadCall) :
    (∀ before between after m m', calls = before ++ (between ++ after) →
      (callMachine cl F threadId).run (Solo.start F.toFormat key initial) before = some m →
      (callMachine cl F threadId).run m between = some m' → LockKept F key m m') ↔
    (callMachine cl F threadId).Along (fun s call => ¬ Retitles cl F key s call)
      (Solo.start F.toFormat key initial) calls := by
  have hstart : Holds F key initial (Solo.start F.toFormat key initial) :=
    ⟨(settled_start F.toFormat key initial).object, fun _ _ hentry => nomatch hentry⟩
  have hheld : ∀ cs m,
      (callMachine cl F threadId).run (Solo.start F.toFormat key initial) cs = some m → ∃ c, Holds F key c m := by
    intro cs m hm
    refine Machine.run_invariant (P := fun s => ∃ c, Holds F key c s) ?_ ⟨initial, hstart⟩ hm
    rintro s call s' ⟨c, hc⟩ hs
    cases hs
    obtain ⟨c', hc', -⟩ := sameLock_run cl htag hkey hc call
    exact ⟨c', hc'⟩
  constructor
  · intro hkept
    rw [Machine.along_iff]
    rintro before call after m rfl hm hcall
    obtain ⟨c, hc⟩ := hheld before m hm
    have hone : (callMachine cl F threadId).run m [call] = some (call.run cl F threadId m) := rfl
    exact not_lockKept_of_retitles cl htag hkey hc hcall (hkept before [call] after m _ rfl hm hone)
  · rintro hguard before between after m m' rfl hm hm'
    obtain ⟨c, hc⟩ := hheld before m hm
    have hrest : (callMachine cl F threadId).Along (fun s call => ¬ Retitles cl F key s call)
        m between := by
      rw [Machine.along_iff] at hguard ⊢
      rintro us call vs d rfl hd
      exact hguard (before ++ us) call (vs ++ after) d (by simp)
        ((Machine.run_append _).mpr ⟨m, hm, hd⟩)
    have hinv := Machine.run_invariant_along
      (P := fun s => (∃ c, Holds F key c s) ∧ LockKept F key m s) ?_
      ⟨⟨c, hc⟩, (lockKept_iff hc hc).mpr (SameLock.refl c)⟩ hrest hm'
    · exact hinv.2
    · rintro s call s' ⟨⟨d, hd⟩, hkept⟩ hcall hs
      cases hs
      obtain ⟨d', hd', hsame⟩ := sameLock_run cl htag hkey hd call
      exact ⟨⟨d', hd'⟩, hkept.trans ((lockKept_iff hd hd').mpr (hsame hcall))⟩

/-! Two runs on concrete documents. -/

def lockedLog (title : String) : ThreadLog :=
  { ThreadLog.default with title := some title, titleLocked := true }

/-- A title that is not empty keeps its lock. -/
theorem lockedTitle_kept_report :
    ∃ m m', (callMachine (plainClient fun _ => .answer) Format.plain "thread").run
        (Solo.start Format.plain "thread" none) [⟨0, .lockTitle "Report"⟩] = some m ∧
      (callMachine (plainClient fun _ => .answer) Format.plain "thread").run m
        [⟨1, .setTitleIfAbsent "Other"⟩] = some m' ∧
      LockKept Format.plain "thread" m m' := by
  have hguard : (callMachine (plainClient fun _ => .answer) Format.plain "thread").Along
      (fun s call => ¬ Retitles (plainClient fun _ => .answer) Format.plain "thread" s call)
      (Solo.start Format.plain "thread" none)
      [⟨0, .lockTitle "Report"⟩, ⟨1, .setTitleIfAbsent "Other"⟩] := by
    refine ⟨?_, fun m hm => ⟨?_, fun _ _ => trivial⟩⟩
    · rintro ⟨title, log, hop, -⟩
      cases hop
    · rintro ⟨title, log, -, hstored, -, habsent, -⟩
      cases hm
      have hlocked : Stored Format.plain "thread" (lockedLog "Report")
          (ThreadCall.run (plainClient fun _ => .answer) ⟨0, .lockTitle "Report"⟩ Format.plain "thread"
            (Solo.start Format.plain "thread" none)) := by
        unfold Stored
        decide +kernel
      have halike := ThreadLog.alike_iff.mp (Option.some.inj (hlocked.symm.trans hstored))
      rw [← halike.titleAbsent] at habsent
      cases habsent
  have hkept := (lockedTitle_kept_iff (plainClient fun _ => .answer) Format.plain_tag_injective rfl none
    [⟨0, .lockTitle "Report"⟩, ⟨1, .setTitleIfAbsent "Other"⟩]).mpr hguard
  exact ⟨_, _, rfl, rfl, hkept [_] [_] [] _ _ rfl rfl rfl⟩

/-- An empty title is replaced under its lock. -/
theorem lockedTitle_replaced_empty :
    ∃ m m', (callMachine (plainClient fun _ => .answer) Format.plain "thread").run
        (Solo.start Format.plain "thread" none) [⟨0, .lockTitle ""⟩] = some m ∧
      (callMachine (plainClient fun _ => .answer) Format.plain "thread").run m
        [⟨0, .setTitleIfAbsent "Report"⟩] = some m' ∧
      ¬ LockKept Format.plain "thread" m m' := by
  refine ⟨_, _, rfl, rfl, fun hkept => ?_⟩
  obtain ⟨log, hlog, -, htitle⟩ := hkept (lockedLog "") (by unfold Stored; decide +kernel) rfl
  have hstored : Stored Format.plain "thread" (lockedLog "Report")
      (ThreadCall.run (plainClient fun _ => .answer) ⟨0, .setTitleIfAbsent "Report"⟩ Format.plain
        "thread"
        (ThreadCall.run (plainClient fun _ => .answer) ⟨0, .lockTitle ""⟩ Format.plain "thread"
          (Solo.start Format.plain "thread" none))) := by
    unfold Stored
    decide +kernel
  have halike := ThreadLog.alike_iff.mp (Option.some.inj (hstored.symm.trans hlog))
  rw [← halike.title] at htitle
  exact absurd htitle (by decide)

end ReactRuntime.Session
