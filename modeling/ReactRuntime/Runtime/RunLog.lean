import ReactRuntime.Library.RelyGuarantee
import ReactRuntime.Runtime.ThreadLogs

/-!
# What is stored of a log

Writers, the background task, the tasks that name the log and the end of the run work on one log at
once. What lies under any path or is uploaded is at every moment a beginning of what has been
written, and no write is torn apart by another one.
-/
namespace ReactRuntime.Runtime
open Library ReactRuntime.Core Storage

variable {τ β : Type} {t : τ} {s s' : LogState τ β}

/-- What a call can do to the state. -/
inductive LogEffect (t : τ) (s : LogState τ β) : LogCall β → LogState τ β → Prop
  | nothing (c) : LogEffect t s c s
  | locked : s.holder = none → LogEffect t s .lockFile { s with holder := some t }
  | unlocked : LogEffect t s .unlockFile { s with holder := none }
  | appended (buf n) : LogEffect t s (.append buf) { s with file := s.file ++ buf.take n }
  | bound (threadId) : LogEffect t s (.bind threadId) { s with bound := some threadId }
  | renamed (src dst f) : s.paths.get src = some f →
      LogEffect t s (.rename src dst) { s with paths := (s.paths.erase src).insert dst f }
  | copied (src dst f n) : s.paths.get src = some f → LogEffect t s (.copy src dst)
      { s with paths := s.paths.insert dst (.copied ((s.contents f).take n)) }
  | put (key bytes contentType) : LogEffect t s (.putBytes key bytes contentType)
      { s with objects := s.objects.insert key bytes }
  | stopped : LogEffect t s .requestStop { s with stop := true }

theorem exec_effect {d : LogDelivery} {c : LogCall β} {a : c.Answer}
    (h : s.exec t d c = some (s', a)) : LogEffect t s c s' := by
  cases c with
  | lockFile =>
    cases d with
    | answered =>
      simp only [LogState.exec] at h
      split_ifs at h with hfree
      cases h
      exact .locked hfree
    | _ => cases h
  | append buf =>
    cases d with
    | answered =>
      cases h
      simpa using LogEffect.appended (t := t) (s := s) buf buf.length
    | short n =>
      cases h
      exact .appended buf n
    | failed e =>
      cases h
      exact .nothing _
    | lost e => cases h
  | rename src dst =>
    cases d with
    | answered =>
      simp only [LogState.exec] at h
      split at h <;> cases h
      · exact .renamed src dst _ ‹_›
      · exact .nothing _
    | failed e =>
      cases h
      exact .nothing _
    | _ => cases h
  | copy src dst =>
    cases d with
    | answered =>
      simp only [LogState.exec] at h
      split at h
      · rename_i f hf
        cases h
        simpa using LogEffect.copied (t := t) (s := s) src dst f (s.contents f).length hf
      · cases h
        exact .nothing _
    | short n =>
      simp only [LogState.exec] at h
      split at h <;> cases h
      · exact .copied src dst _ n ‹_›
      · exact .nothing _
    | failed e =>
      cases h
      exact .nothing _
    | lost e => cases h
  | read path =>
    cases d with
    | answered =>
      simp only [LogState.exec] at h
      split at h <;> cases h <;> exact .nothing _
    | failed e =>
      cases h
      exact .nothing _
    | _ => cases h
  | putBytes key bytes contentType =>
    cases d with
    | answered | lost =>
      cases h
      exact .put key bytes contentType
    | failed e =>
      cases h
      exact .nothing _
    | short n => cases h
  | unlockFile => cases d <;> cases h; exact .unlocked
  | bind threadId => cases d <;> cases h; exact .bound threadId
  | requestStop => cases d <;> cases h; exact .stopped
  | boundThreadId | createDirAll | stopRequested => cases d <;> cases h <;> exact .nothing _

theorem read_eq_ok {d : LogDelivery} {path : String} {bytes : List β}
    (h : s.exec t d (.read path) = some (s', .ok bytes)) :
    s' = s ∧ ∃ f, s.paths.get path = some f ∧ bytes = s.contents f := by
  cases d with
  | answered =>
    simp only [LogState.exec] at h
    split at h <;> cases h
    exact ⟨rfl, _, ‹_›, rfl⟩
  | _ => cases h

theorem append_answer {d : LogDelivery} {buf : List β} {a : Except String Nat}
    (h : s.exec t d (.append buf) = some (s', a)) :
    ∃ n, s' = { s with file := s.file ++ buf.take n } ∧
      (a = .ok (buf.take n).length ∨ ∃ e, a = .error e) := by
  cases d with
  | answered =>
    cases h
    exact ⟨buf.length, by simp, .inl (by simp)⟩
  | short n =>
    cases h
    exact ⟨n, rfl, .inl rfl⟩
  | failed e =>
    cases h
    exact ⟨0, by simp, .inr ⟨e, rfl⟩⟩
  | lost e => cases h

inductive LogParty (β : Type) where
  | writer (bufs : List (List β))
  | uploader (rounds : Nat)
  | binder (threadId : String)
  | finisher (threadId : String)

inductive LogAnswer where
  | wrote (results : List (Except String Nat))
  | ended (result : Except String Unit)
deriving DecidableEq

/-- One write after the other, whatever their results. -/
def writeEach : List (List β) → Program (LogCall β) LogCall.Answer (List (Except String Nat))
  | [] => .ret []
  | buf :: bufs => (RunThreadLogWriter.write buf).bind fun r =>
    (writeEach bufs).bind fun rs => .ret (r :: rs)

def LogParty.program (logs : RunThreadLogs) :
    LogParty β → Program (LogCall β) LogCall.Answer LogAnswer
  | .writer bufs => (writeEach bufs).bind fun rs => .ret (.wrote rs)
  | .uploader rounds => (logs.startPeriodicUpload rounds).bind fun _ => .ret (.ended (.ok ()))
  | .binder threadId => (logs.bindThreadId threadId).bind fun r => .ret (.ended r)
  | .finisher threadId => (logs.finish threadId).bind fun r => .ret (.ended r)

def LogParty.uploads : LogParty β → Bool
  | .uploader _ | .finisher _ => true
  | .writer _ | .binder _ => false

variable (logs : RunThreadLogs) (party : τ → LogParty β) (objects : Objects (List β))

/-- Everything stored is a beginning of the file. -/
structure Faithful (s : LogState τ β) : Prop where
  paths : ∀ path f, s.paths.get path = some f → s.contents f <+: s.file
  objects : ∀ key bytes, s.objects.get key = some bytes →
    objects.get key = some bytes ∨ bytes <+: s.file
  opened : logs.mode = .buffered → s.paths.get logs.tmpPath = some .opened

/-- What one party does to the others. -/
structure LogStep (t : τ) (s s' : LogState τ β) : Prop where
  grows : s.file <+: s'.file
  excludes : ∀ u, u ≠ t → s.holder = some u → s'.file = s.file ∧ s'.holder = some u
  objects : (party t).uploads = false → s'.objects = s.objects

def logPromises [DecidableEq τ] : Promises (logWorld τ β) where
  inv := Faithful logs objects
  guarantee := LogStep party

variable {logs party objects}

/-- A call that may be made at any time. -/
def Harmless (logs : RunThreadLogs) : LogCall β → Prop
  | .lockFile | .boundThreadId | .bind _ | .createDirAll _ | .read _ | .stopRequested
  | .requestStop => True
  | .rename _ _ | .copy _ _ => logs.mode ≠ .buffered
  | .unlockFile | .append _ | .putBytes _ _ _ => False

theorem Faithful.grow (h : Faithful logs objects s) (more : List β) :
    Faithful logs objects { s with file := s.file ++ more } := by
  refine ⟨fun path f hf => ?_, fun key bytes hget => ?_, h.opened⟩
  · cases f with
    | opened => exact List.prefix_refl _
    | copied bytes => exact (h.paths path (.copied bytes) hf).trans (List.prefix_append _ _)
  · rcases h.objects key bytes hget with hold | hpre
    · exact .inl hold
    · exact .inr (hpre.trans (List.prefix_append _ _))

/-- A path that is new, or shows something else. -/
theorem Faithful.insert (h : Faithful logs objects s) (hmode : logs.mode ≠ .buffered)
    {paths : SortedMap String (LogFile β)} {dst : String} {f : LogFile β}
    (hpaths : ∀ path f, paths.get path = some f → s.paths.get path = some f)
    (hf : s.contents f <+: s.file) :
    Faithful logs objects { s with paths := paths.insert dst f } := by
  refine ⟨fun path g hg => ?_, h.objects, fun hb => absurd hb hmode⟩
  rw [SortedMap.get_insert] at hg
  split_ifs at hg
  · cases hg
    exact hf
  · exact h.paths path g (hpaths path g hg)

theorem Faithful.put (h : Faithful logs objects s) {key : String} {bytes : List β}
    (hbytes : bytes <+: s.file) :
    Faithful logs objects { s with objects := s.objects.insert key bytes } := by
  refine ⟨h.paths, fun k b hb => ?_, h.opened⟩
  rw [SortedMap.get_insert] at hb
  split_ifs at hb
  · cases hb
    exact .inr hbytes
  · exact h.objects k b hb

theorem harmless_step {c : LogCall β} (hc : Harmless logs c) (h : Faithful logs objects s)
    (he : LogEffect t s c s') : Faithful logs objects s' ∧ LogStep party t s s' := by
  have hquiet {s' : LogState τ β} (hfile : s'.file = s.file) (hholder : s'.holder = s.holder)
      (hobjects : s'.objects = s.objects) : LogStep party t s s' :=
    ⟨hfile ▸ List.prefix_refl _, fun _ _ hu => ⟨hfile, hholder.trans hu⟩, fun _ => hobjects⟩
  cases he with
  | nothing c => exact ⟨h, hquiet rfl rfl rfl⟩
  | locked hfree =>
    refine ⟨⟨h.paths, h.objects, h.opened⟩, List.prefix_refl _, fun u _ hu => ?_, fun _ => rfl⟩
    exact nomatch hfree.symm.trans hu
  | bound threadId => exact ⟨⟨h.paths, h.objects, h.opened⟩, hquiet rfl rfl rfl⟩
  | stopped => exact ⟨⟨h.paths, h.objects, h.opened⟩, hquiet rfl rfl rfl⟩
  | renamed src dst f hf =>
    refine ⟨h.insert hc (fun path g hg => ?_) (h.paths src f hf), hquiet rfl rfl rfl⟩
    rw [SortedMap.get_erase] at hg
    split_ifs at hg
    exact hg
  | copied src dst f n hf =>
    refine ⟨h.insert hc (fun _ _ hg => hg) ?_, hquiet rfl rfl rfl⟩
    exact (List.take_prefix n _).trans (h.paths src f hf)
  | unlocked | appended | put => exact hc.elim

theorem writer_step {buf : List β} {n : Nat} (hheld : s.holder = some t)
    (h : Faithful logs objects s) (he : s' = { s with file := s.file ++ buf.take n }) :
    Faithful logs objects s' ∧ LogStep party t s s' := by
  subst he
  refine ⟨h.grow _, List.prefix_append _ _, fun u hu hother => ?_, fun _ => rfl⟩
  exact absurd (Option.some.inj (hother.symm.trans hheld)) hu

section Contracts
variable [DecidableEq τ] {retired : τ → Prop}

/-- Harmless calls, whatever they are made for, leave what has been written. -/
theorem respects_harmless {α : Type} {program : Program (LogCall β) LogCall.Answer α}
    (hprogram : program.Makes (Harmless logs)) (m : LogState τ β) :
    (logPromises logs party objects).Respects retired t (fun _ m' => m.file <+: m'.file)
      program m := by
  have hmakes : (logPromises logs party objects).Respects retired t (fun _ _ => True) program m :=
    Promises.Respects.of_makes hprogram
      (fun _ hc _ _ _ _ hi he => harmless_step hc hi (exec_effect he)) m
  have hframe := hmakes.frame (S := fun m' => m.file <+: m'.file)
    (fun _ _ _ _ _ hg ha => ha.trans (LogStep.grows hg)) (List.prefix_refl _)
  exact hframe.mono fun _ _ _ h => h.2

theorem rely_grows {a b : LogState τ β}
    (h : (logPromises logs party objects).Rely retired t a b) : a.file <+: b.file :=
  h.keeps (S := fun m => a.file <+: m.file)
    (fun _ _ _ _ _ _ _ hg ha => ha.trans (LogStep.grows hg)) (List.prefix_refl _)

/-- While a party holds the lock, nobody else writes. -/
theorem rely_held {a b : LogState τ β}
    (h : (logPromises logs party objects).Rely retired t a b) (ha : a.holder = some t) :
    b.file = a.file ∧ b.holder = some t := by
  refine h.keeps (S := fun m => m.file = a.file ∧ m.holder = some t) ?_ ⟨rfl, ha⟩
  rintro u m m' hu - - - hg ⟨hfile, hheld⟩
  obtain ⟨hfile', hheld'⟩ := hg.excludes t hu.symm hheld
  exact ⟨hfile'.trans hfile, hheld'⟩

/-- What is left of a buffer is written behind what has been written of it. -/
theorem respects_writeAll {fuel : Nat} {buf written : List β} (hfuel : buf.length ≤ fuel)
    {m : LogState τ β} (hheld : m.holder = some t) (hwritten : written <:+ m.file) :
    (logPromises logs party objects).Respects retired t
      (fun r m => m.holder = some t ∧ (r = .ok () → written ++ buf <:+ m.file))
      (writeAll fuel buf) m := by
  induction fuel generalizing buf written m with
  | zero =>
    obtain rfl : buf = [] := List.eq_nil_of_length_eq_zero (Nat.le_zero.mp hfuel)
    refine Promises.Respects.ret fun m' hm _ => ?_
    obtain ⟨hfile, hheld'⟩ := rely_held hm hheld
    exact ⟨hheld', fun _ => by rwa [List.append_nil, hfile]⟩
  | succ fuel ih =>
    cases buf with
    | nil =>
      refine Promises.Respects.ret fun m' hm _ => ?_
      obtain ⟨hfile, hheld'⟩ := rely_held hm hheld
      exact ⟨hheld', fun _ => by rwa [List.append_nil, hfile]⟩
    | cons b buf =>
      rw [writeAll, Promises.respects_call]
      intro m' hm hi d m'' a he
      obtain ⟨hfile, hheld'⟩ := rely_held hm hheld
      obtain ⟨n, hm'', ha⟩ := append_answer he
      obtain ⟨hinv, hstep⟩ := writer_step hheld' hi hm''
      refine ⟨hinv, hstep, ?_⟩
      have hheld'' : m''.holder = some t := by rw [hm'', hheld']
      have hfailed (e : String) : (logPromises logs party objects).Respects retired t
          (fun (r : Except String Unit) m =>
            m.holder = some t ∧ (r = .ok () → written ++ b :: buf <:+ m.file))
          (.ret (.error e)) m'' :=
        Promises.Respects.ret fun _ hr _ => ⟨(rely_held hr hheld'').2, nofun⟩
      rcases ha with rfl | ⟨e, rfl⟩
      · cases n with
        | zero => exact hfailed _
        | succ n =>
          simp only [List.take_succ_cons, List.length_cons, List.drop_succ_cons]
          have hdrop : (buf.drop (buf.take n).length).length ≤ fuel := by
            simp only [List.length_cons] at hfuel
            simp only [List.length_drop]
            omega
          have hnow : written ++ (b :: buf).take (n + 1) <:+ m''.file := by
            obtain ⟨before, hbefore⟩ := hwritten
            exact ⟨before, by rw [hm'', hfile, ← hbefore, List.append_assoc]⟩
          refine (ih hdrop hheld'' hnow).mono fun r m _ hr => ⟨hr.1, fun hok => ?_⟩
          have hall := hr.2 hok
          have hwhole : (b :: buf).take (n + 1) ++ buf.drop (buf.take n).length = b :: buf := by
            rw [List.take_succ_cons, List.cons_append, List.length_take]
            rcases Nat.le_total n buf.length with hn | hn
            · rw [Nat.min_eq_left hn, List.take_append_drop]
            · rw [Nat.min_eq_right hn, List.take_of_length_le hn, List.drop_length, List.append_nil]
          rwa [List.append_assoc, hwhole] at hall
      · exact hfailed e

/-- A write that has succeeded is in the file as a whole. -/
def Wrote (m : LogState τ β) (r : Except String Nat) (buf : List β) : Prop :=
  ∀ n, r = .ok n → n = buf.length ∧ buf <:+: m.file

theorem respects_write (buf : List β) (m : LogState τ β) :
    (logPromises logs party objects).Respects retired t (fun r m => Wrote m r buf)
      (RunThreadLogWriter.write buf) m := by
  rw [RunThreadLogWriter.write, Promises.respects_call]
  intro a _ hi d b r he
  have hharmless : Harmless logs (.lockFile : LogCall β) := trivial
  obtain ⟨hinv, hstep⟩ := harmless_step hharmless hi (exec_effect he)
  refine ⟨hinv, hstep, ?_⟩
  have hheld : b.holder = some t := by
    cases d with
    | answered =>
      simp only [logWorld, LogState.exec] at he
      split_ifs at he
      cases he
      rfl
    | _ => cases he
  apply Promises.Respects.bind
  refine (respects_writeAll (Nat.le_refl _) hheld List.nil_suffix).mono fun r m _ hr => ?_
  rw [Promises.respects_call]
  intro a' ha' hi' d' b' u he'
  obtain ⟨hfile, hheld'⟩ := rely_held ha' hr.1
  have hb' : b' = { a' with holder := none } := by
    cases d' <;> cases he'
    rfl
  subst hb'
  refine ⟨⟨hi'.paths, hi'.objects, hi'.opened⟩, ⟨List.prefix_refl _, fun v hv hother => ?_,
    fun _ => rfl⟩, Promises.Respects.ret fun c hc _ n hn => ?_⟩
  · exact absurd (Option.some.inj (hother.symm.trans hheld')) hv
  · cases r with
    | error e => cases hn
    | ok u =>
      cases hn
      have hend : buf <:+ a'.file := by
        rw [hfile]
        exact hr.2 rfl
      exact ⟨rfl, hend.isInfix.trans (rely_grows hc).isInfix⟩

omit [DecidableEq τ] in
theorem Wrote.grow {m m' : LogState τ β} {r : Except String Nat} {buf : List β}
    (h : Wrote m r buf) (hgrows : m.file <+: m'.file) : Wrote m' r buf :=
  fun n hn => ⟨(h n hn).1, (h n hn).2.trans hgrows.isInfix⟩

theorem respects_writeEach (bufs : List (List β)) (m : LogState τ β) :
    (logPromises logs party objects).Respects retired t
      (fun rs m => List.Forall₂ (Wrote m) rs bufs) (writeEach bufs) m := by
  induction bufs generalizing m with
  | nil => exact Promises.Respects.ret fun _ _ _ => .nil
  | cons buf bufs ih =>
    apply Promises.Respects.bind
    refine (respects_write buf m).mono fun r m _ hr => ?_
    apply Promises.Respects.bind
    have hframe := (ih m).frame (S := fun m' => m.file <+: m'.file)
      (fun _ _ _ _ _ hg ha => ha.trans (LogStep.grows hg)) (List.prefix_refl _)
    refine hframe.mono fun rs m' _ hrs => Promises.Respects.ret fun m'' hm'' _ => ?_
    have hgrows := rely_grows hm''
    exact .cons (hr.grow (hrs.2.trans hgrows)) (hrs.1.imp fun _ _ hw => hw.grow hgrows)

theorem makes_bindThreadId (threadId : String) :
    (logs.bindThreadId threadId : Program (LogCall β) LogCall.Answer _).Makes (Harmless logs) := by
  refine ⟨trivial, fun bound => ?_⟩
  simp only
  split_ifs
  · trivial
  · refine ⟨trivial, fun _ => ?_⟩
    cases hmode : logs.mode with
    | buffered => trivial
    | «local» rootDir =>
      simp only
      have hmoves : logs.mode ≠ .buffered := by simp [hmode]
      cases threadLogKey logs.scope threadId with
      | error e => trivial
      | ok key =>
        refine ⟨trivial, fun created => ?_⟩
        cases created with
        | error e => trivial
        | ok u =>
          refine ⟨hmoves, fun renamed => ?_⟩
          cases renamed with
          | ok u => trivial
          | error e => exact ⟨hmoves, fun _ => trivial⟩

/-- What was in the file at the beginning of an upload has been stored, if there was anything. -/
def Stored (logs : RunThreadLogs) (threadId : String) (base : List β) (s : LogState τ β) : Prop :=
  base = [] ∨ ∃ key bytes, threadLogKey logs.scope threadId = .ok key ∧
    s.objects.get key = some bytes ∧ base <+: bytes

omit [DecidableEq τ] in
theorem Stored.of_objects {threadId : String} {base : List β} {m m' : LogState τ β}
    (h : Stored logs threadId base m) (hobjects : m'.objects = m.objects) :
    Stored logs threadId base m' := by
  rw [Stored, hobjects]
  exact h

/-- What has been stored stays, if nobody else uploads. -/
theorem stored_of_rely {threadId : String} {base : List β} {a b : LogState τ β}
    (hothers : ∀ u, u ≠ t → ¬ retired u → (party u).uploads = false)
    (h : (logPromises logs party objects).Rely retired t a b) (ha : Stored logs threadId base a) :
    Stored logs threadId base b := by
  refine h.keeps (S := Stored logs threadId base) (fun u x y hu hlive _ _ hg hx => ?_) ha
  exact hx.of_objects (LogStep.objects hg (hothers u hu hlive))

/-- The log is uploaded as it was at some moment; if nobody else uploads, it stays so. -/
theorem respects_uploadSnapshot {base : List β} {m : LogState τ β} (hmode : logs.mode = .buffered)
    (ht : (party t).uploads = true) (hbase : base <+: m.file) (threadId : String) :
    (logPromises logs party objects).Respects retired t
      (fun r m => (∀ u, u ≠ t → ¬ retired u → (party u).uploads = false) → r = .ok () →
        Stored logs threadId base m)
      (logs.uploadSnapshot threadId) m := by
  rw [RunThreadLogs.uploadSnapshot]
  cases hkey : threadLogKey logs.scope threadId with
  | error e => exact Promises.Respects.ret fun _ _ _ _ => nofun
  | ok key =>
    simp only
    rw [Promises.respects_call]
    intro a ha hi d b r he
    have hharmless : Harmless logs (.read logs.tmpPath : LogCall β) := trivial
    obtain ⟨hinv, hstep⟩ := harmless_step hharmless hi (exec_effect he)
    refine ⟨hinv, hstep, ?_⟩
    cases r with
    | error e => exact Promises.Respects.ret fun _ _ _ _ => nofun
    | ok bytes =>
      obtain ⟨rfl, f, hf, hbytes⟩ := read_eq_ok he
      obtain rfl : f = .opened := Option.some.inj (hf.symm.trans (hi.opened hmode))
      have hread : base <+: bytes := hbytes ▸ hbase.trans (rely_grows ha)
      by_cases hempty : bytes.isEmpty
      · simp only [hempty, if_true]
        refine Promises.Respects.ret fun _ _ _ _ _ => Or.inl ?_
        rw [List.isEmpty_iff] at hempty
        exact List.prefix_nil.mp (hempty ▸ hread)
      · simp only [hempty, Bool.false_eq_true, if_false]
        rw [Promises.respects_call]
        intro c hc hi' d' c' r' he'
        have hbelow : bytes <+: c.file := by
          rw [hbytes]
          exact rely_grows hc
        have hc' : c' = { c with objects := c.objects.insert key bytes } ∨
            c' = c ∧ ∃ e, r' = .error e := by
          cases d' with
          | answered | lost =>
            cases he'
            exact .inl rfl
          | failed e =>
            cases he'
            exact .inr ⟨rfl, e, rfl⟩
          | short n => cases he'
        rcases hc' with rfl | ⟨rfl, e, rfl⟩
        · refine ⟨hi'.put hbelow, ⟨List.prefix_refl _, fun _ _ hu => ⟨rfl, hu⟩, fun hno => ?_⟩,
            Promises.Respects.ret fun m' hm' _ hothers _ => stored_of_rely hothers hm' ?_⟩
          · exact nomatch ht.symm.trans hno
          · exact .inr ⟨key, bytes, hkey, by simp, hread⟩
        · exact ⟨hi', ⟨List.prefix_refl _, fun _ _ hu => ⟨rfl, hu⟩, fun _ => rfl⟩,
            Promises.Respects.ret fun _ _ _ _ => nofun⟩

theorem respects_uploadRounds (hmode : logs.mode = .buffered) (ht : (party t).uploads = true)
    (rounds : Nat) (m : LogState τ β) :
    (logPromises logs party objects).Respects retired t (fun _ _ => True)
      (logs.uploadRounds rounds) m := by
  induction rounds generalizing m with
  | zero => exact Promises.Respects.ret fun _ _ _ => trivial
  | succ rounds ih =>
    rw [RunThreadLogs.uploadRounds, Promises.respects_call]
    intro a _ hi d b stop he
    have hstop : Harmless logs (.stopRequested : LogCall β) := trivial
    obtain ⟨hinv, hstep⟩ := harmless_step hstop hi (exec_effect he)
    refine ⟨hinv, hstep, ?_⟩
    split_ifs
    · exact Promises.Respects.ret fun _ _ _ => trivial
    · rw [Promises.respects_call]
      intro a' _ hi' d' b' bound he'
      have hbound : Harmless logs (.boundThreadId : LogCall β) := trivial
      obtain ⟨hinv', hstep'⟩ := harmless_step hbound hi' (exec_effect he')
      refine ⟨hinv', hstep', ?_⟩
      cases bound with
      | none => exact ih b'
      | some threadId =>
        apply Promises.Respects.bind
        exact (respects_uploadSnapshot hmode ht (List.nil_prefix) threadId).mono fun _ m _ _ => ih m

/-- The end of a run stores the log, unless somebody else stores an older state of it. -/
theorem respects_finish (hmode : logs.mode = .buffered) (ht : (party t).uploads = true)
    (threadId : String) (m : LogState τ β) :
    (logPromises logs party objects).Respects retired t
      (fun r m' => (∀ u, u ≠ t → ¬ retired u → (party u).uploads = false) → r = .ok () →
        Stored logs threadId m.file m')
      (logs.finish threadId) m := by
  rw [RunThreadLogs.finish, Promises.respects_call]
  intro a ha hi d b u he
  have hharmless : Harmless logs (.requestStop : LogCall β) := trivial
  obtain ⟨hinv, hstep⟩ := harmless_step hharmless hi (exec_effect he)
  refine ⟨hinv, hstep, ?_⟩
  have hb : m.file <+: b.file := (rely_grows ha).trans hstep.grows
  apply Promises.Respects.bind
  refine (respects_harmless (makes_bindThreadId threadId) b).mono fun _ c _ hc => ?_
  apply Promises.Respects.bind
  refine (respects_harmless (makes_bindThreadId threadId) c).mono fun _ e _ he => ?_
  simp only [hmode]
  exact respects_uploadSnapshot hmode ht ((hb.trans hc).trans he) threadId

end Contracts
section Runs
variable [DecidableEq τ] {retired : τ → Prop}

/-- What a party ensures that began in `m`. -/
def Ends (logs : RunThreadLogs) (party : τ → LogParty β) (retired : τ → Prop) (t : τ)
    (m : LogState τ β) : LogAnswer → LogState τ β → Prop
  | .wrote rs, m' => ∀ bufs, party t = .writer bufs → List.Forall₂ (Wrote m') rs bufs
  | .ended r, m' => ∀ threadId, party t = .finisher threadId → logs.mode = .buffered →
      (∀ u, u ≠ t → ¬ retired u → (party u).uploads = false) → r = .ok () →
        Stored logs threadId m.file m'

theorem respects_party (t : τ) (m : LogState τ β) :
    (logPromises logs party objects).Respects retired t (Ends logs party retired t m)
      ((party t).program logs) m := by
  cases hparty : party t with
  | writer bufs =>
    apply Promises.Respects.bind
    refine (respects_writeEach bufs m).mono fun rs m' _ hrs => Promises.Respects.ret ?_
    intro m'' hm'' _ bufs' hbufs
    cases hparty.symm.trans hbufs
    exact hrs.imp fun _ _ hw => hw.grow (rely_grows hm'')
  | uploader rounds =>
    have hended {r : Except String Unit} (m' : LogState τ β) :
        (logPromises logs party objects).Respects retired t (Ends logs party retired t m)
          (.ret (.ended r)) m' :=
      Promises.Respects.ret fun _ _ _ _ ht => nomatch hparty.symm.trans ht
    apply Promises.Respects.bind
    rw [RunThreadLogs.startPeriodicUpload]
    cases hmode : logs.mode with
    | buffered =>
      have ht : (party t).uploads = true := by rw [hparty]; rfl
      exact (respects_uploadRounds hmode ht rounds m).mono fun _ m' _ _ => hended m'
    | «local» rootDir => exact Promises.Respects.ret fun m' _ _ => hended m'
  | binder threadId =>
    apply Promises.Respects.bind
    refine (respects_harmless (makes_bindThreadId threadId) m).mono fun r m' _ _ => ?_
    exact Promises.Respects.ret fun _ _ _ _ ht => nomatch hparty.symm.trans ht
  | finisher threadId =>
    apply Promises.Respects.bind
    cases hmode : logs.mode with
    | buffered =>
      have ht : (party t).uploads = true := by rw [hparty]; rfl
      refine (respects_finish hmode ht threadId m).mono fun r m' _ hr => Promises.Respects.ret ?_
      intro m'' hm'' _ threadId' hthread _ hothers hok
      cases hparty.symm.trans hthread
      exact stored_of_rely hothers hm'' (hr hothers hok)
    | «local» rootDir =>
      have hmakes : (logs.finish threadId : Program (LogCall β) LogCall.Answer _).Makes
          (Harmless logs) := by
        refine ⟨trivial, fun _ => (makes_bindThreadId threadId).bind fun _ => ?_⟩
        refine (makes_bindThreadId threadId).bind fun _ => ?_
        simp only [hmode]
        trivial
      refine (respects_harmless hmakes m).mono fun r m' _ _ => Promises.Respects.ret ?_
      exact fun _ _ _ _ _ hb => nomatch hmode.symm.trans hb

/-- The beginning of a run, with an empty file that has no name yet. -/
def logPool (logs : RunThreadLogs) (party : τ → LogParty β) (objects : Objects (List β)) :
    Pool τ (LogState τ β) (LogCall β) LogCall.Answer LogAnswer :=
  ⟨⟨[], none, SortedMap.empty.insert logs.tmpPath .opened, objects, none, false⟩,
    fun t => (party t).program logs⟩

variable {ls ls' ls'' : List (τ × LogDelivery)}
  {p q r : Pool τ (LogState τ β) (LogCall β) LogCall.Answer LogAnswer}

theorem logPool_sound : (logPromises logs party objects).Sound (fun _ => False)
    (fun t => Ends logs party (fun _ => False) t (logPool logs party objects).shared)
    (logPool logs party objects) := by
  refine ⟨⟨fun path f hf => ?_, fun key bytes hget => .inl hget, fun _ => by simp [logPool]⟩,
    fun t => respects_party t _, nofun⟩
  simp only [logPool, SortedMap.get_insert] at hf
  split_ifs at hf
  · cases hf
    exact List.prefix_refl _
  · cases hf

/-! A log with two writes, the first one in two pieces, and its uploads. -/

def smallLogs : RunThreadLogs := ⟨.buffered, ObjectKey.smallScope, "/tmp/react-run.log"⟩

def smallParty : Fin 3 → LogParty Nat
  | 0 => .writer [[1, 2], [3]]
  | 1 => .uploader 1
  | 2 => .finisher "t1"

abbrev smallMachine := (logWorld (Fin 3) Nat).machine LogAnswer

def answers (t : Fin 3) (n : Nat) : List (Fin 3 × LogDelivery) := List.replicate n (t, .answered)

/-- In every state of every run, what lies under a path or has been uploaded is a beginning of what
has been written, and every write that has succeeded is in it as a whole. -/
theorem run_log_faithful (hrun : ((logWorld τ β).machine LogAnswer).run
      (logPool logs party objects) ls = some p) :
    Faithful logs objects p.shared ∧ ∀ t bufs rs, party t = .writer bufs →
      p.task t = .ret (.wrote rs) → List.Forall₂ (Wrote p.shared) rs bufs := by
  have hsound := logPool_sound.run hrun
  exact ⟨hsound.inv, fun t bufs rs ht hret => hsound.post hret bufs ht⟩

theorem run_log_faithful_small :
    ∃ p, smallMachine.run (logPool smallLogs smallParty SortedMap.empty)
        ([(0, .answered), (0, .short 1)] ++ answers 0 5) = some p ∧
      Faithful smallLogs SortedMap.empty p.shared ∧
        List.Forall₂ (Wrote p.shared) [.ok 2, .ok 1] [[1, 2], [3]] := by
  have hrun : (smallMachine.run (logPool smallLogs smallParty SortedMap.empty)
      ([(0, .answered), (0, .short 1)] ++ answers 0 5)).any (fun p =>
        (p.task 0).returned? = some (.wrote [.ok 2, .ok 1])) = true := by
    decide +kernel
  obtain ⟨p, hp, hret⟩ := (Option.any_eq_true _ _).mp hrun
  obtain ⟨hfaithful, hwrote⟩ := run_log_faithful hp
  exact ⟨p, hp, hfaithful,
    hwrote 0 _ _ rfl (Program.returned?_eq_some.mp (of_decide_eq_true hret))⟩

/-- After the end of a run has stored the log, and if the other uploads had come to their end
before, everything written until then stays stored, whatever else is written. -/
theorem run_log_stored (hmode : logs.mode = .buffered)
    (hrun : ((logWorld τ β).machine LogAnswer).run (logPool logs party objects) ls = some p)
    (hrun' : ((logWorld τ β).machine LogAnswer).run p ls' = some q)
    (hrun'' : ((logWorld τ β).machine LogAnswer).run q ls'' = some r) {t : τ} {threadId : String}
    (ht : party t = .finisher threadId) (hstart : p.task t = (party t).program logs)
    (hothers : ∀ u, u ≠ t → (party u).uploads = true → ∃ a, p.task u = .ret a)
    (hret : q.task t = .ret (.ended (.ok ()))) :
    Stored logs threadId p.shared.file r.shared := by
  -- From `p` on the other uploaders have returned, and the end of the run is held to what it finds.
  have hp := logPool_sound.run hrun
  have hfrom : (logPromises logs party objects).Sound (fun u => ∃ a, p.task u = .ret a)
      (fun u => if u = t then Ends logs party (fun u => ∃ a, p.task u = .ret a) t p.shared
        else Ends logs party (fun _ => False) u (logPool logs party objects).shared) p := by
    refine hp.retire (fun _ hu => hu.elim) (fun _ hu => hu) fun u => ?_
    by_cases hu : u = t
    · subst hu
      right
      rw [if_pos rfl, hstart]
      exact respects_party u p.shared
    · left
      rw [if_neg hu]
  have hq := hfrom.run hrun'
  have hstored : Stored logs threadId p.shared.file q.shared := by
    have hpost := hq.post hret
    rw [if_pos rfl] at hpost
    refine hpost threadId ht hmode (fun u hu hlive => ?_) rfl
    by_contra hup
    exact hlive (hothers u hu (Bool.not_eq_false _ ▸ hup))
  -- From `q` on it has returned as well, so that nobody uploads any more.
  have hlast := hq.retire (fun u hu => hq.returned u hu) (fun u hu => hu) fun _ => .inl rfl
  refine hlast.run_keeps (fun u a b hlive _ _ hg ha => ha.of_objects ?_) hrun'' hstored
  apply LogStep.objects hg
  by_contra hup
  have hne : u ≠ t := by
    rintro rfl
    exact hlive ⟨_, hret⟩
  exact hlive (hq.returned u (hothers u hne (Bool.not_eq_false _ ▸ hup)))

theorem run_log_stored_small :
    ∃ p : Pool (Fin 3) (LogState (Fin 3) Nat) (LogCall Nat) LogCall.Answer LogAnswer,
      Stored smallLogs "t1" [1, 2] p.shared := by
  have hrun : (smallMachine.run (logPool smallLogs smallParty SortedMap.empty)
      ([(0, .answered), (0, .short 1)] ++ answers 0 2 ++ answers 1 2)).any (fun p =>
        p.shared.file = [1, 2] ∧ (p.task 1).returned?.isSome ∧
          (smallMachine.run p (answers 2 6)).any fun q =>
            (q.task 2).returned? = some (.ended (.ok ())) ∧
              (smallMachine.run q (answers 0 3)).isSome) = true := by
    decide +kernel
  obtain ⟨p, hp, hrest⟩ := (Option.any_eq_true _ _).mp hrun
  obtain ⟨hfile, hidle, hlater⟩ := of_decide_eq_true hrest
  obtain ⟨q, hq, hend⟩ := (Option.any_eq_true _ _).mp hlater
  obtain ⟨hret, hlast⟩ := of_decide_eq_true hend
  obtain ⟨r, hr⟩ := Option.isSome_iff_exists.mp hlast
  obtain ⟨a, ha⟩ := Option.isSome_iff_exists.mp hidle
  have hstored := run_log_stored (t := 2) rfl hp hq hr rfl (World.task_of_run (by decide) hp)
    (fun u hu hup => by
      match u, hu, hup with
      | 0, _, hup => cases hup
      | 1, _, _ => exact ⟨a, Program.returned?_eq_some.mp ha⟩
      | 2, hu, _ => exact absurd rfl hu)
    (Program.returned?_eq_some.mp hret)
  exact ⟨r, hfile ▸ hstored⟩

end Runs
end ReactRuntime.Runtime
