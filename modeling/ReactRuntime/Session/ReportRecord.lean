import ReactRuntime.Session.Pushes
import ReactRuntime.Session.Contract

/-!
# Reports in parallel

Beside the kernel runs a record of the pushes that were written, and of each call:
how many pushes there were when it began, and whether a read of it failed. In every
run a report that was written had been looked for: a read of its call failed, or
no equal report was there when the call began.
-/
namespace ReactRuntime.Session
open Library Serde ReactRuntime.Core Storage

/-- A call in progress. -/
structure Look where
  since : Nat
  failed : Bool
deriving DecidableEq

structure Record (τ : Type) where
  commits : List τ
  looks : τ → Option Look

variable {τ B E : Type}

/-- A document that is no log of the current schema. -/
def unreadable (v : Json) : Bool :=
  match ThreadStore.parseThreadLog v with
  | .error _ => true
  | .ok log => !(ThreadStore.ensureThreadLogSchema log).isOk

/-- A read that brings no log to its reader. -/
def KernelCall.unread : (c : KernelCall B E) → c.Answer → Bool
  | .storage (.headEtag _), .error _ => true
  | .storage (.getJson _), .error _ => true
  | .storage (.getJson _), .ok v => unreadable v
  | _, _ => false

def KernelCall.isWritten : (c : KernelCall B E) → c.Answer → Bool
  | .storage (.putJsonIfEtagMatches _ _ _), .ok (.written _) => true
  | _, _ => false

namespace Record

def init : Record τ := ⟨[], fun _ => none⟩

/-- The call of a task as it is known when it makes its next call. -/
def look (r : Record τ) (t : τ) : Look := (r.looks t).getD ⟨r.commits.length, false⟩

def note [DecidableEq τ] (t : τ) (c : KernelCall B E) (a : c.Answer) (_ : Kernel B E)
    (r : Record τ) : Record τ where
  commits := if c.isWritten a then r.commits ++ [t] else r.commits
  looks := Function.update r.looks t
    (some ⟨(r.look t).since, (r.look t).failed || c.unread a⟩)

end Record

abbrev Watched (τ B E : Type) := Kernel B E × Record τ

/-- The world of all tasks with the record. -/
def watchedWorld [DecidableEq τ] [DecidableEq E] (F : Format B E) (site : τ → Site) :
    World τ (Option CoreError) (Watched τ B E) (KernelCall B E) KernelCall.Answer :=
  (kernelWorld F site).instrument Record.note

section Cleared
variable (step : τ → ThreadStep)

/-- A read of the call failed, or no equal report was there when the call began. -/
def Cleared (t : τ) (report : ReportKey) (r : Record τ) : Prop :=
  ∃ look, r.looks t = some look ∧ look.since ≤ r.commits.length ∧
    (look.failed = true ∨ ∀ u ∈ r.commits.take look.since, (step u).reportKey ≠ some report)

/-- The step of a task is no report, or was looked for. -/
def ClearedFor (t : τ) (s : Watched τ B E) : Prop :=
  ∀ report, (step t).reportKey = some report → Cleared step t report s.2

variable {step} {t u : τ} {r r' : Record τ} {report : ReportKey}

theorem Cleared.grow (h : Cleared step t report r) (hgrown : r.commits <+: r'.commits)
    (hlook : r'.looks t = r.looks t) : Cleared step t report r' := by
  obtain ⟨look, hl, hsince, hclear⟩ := h
  refine ⟨look, hlook.trans hl, hsince.trans hgrown.length_le, hclear.imp_right fun hnone => ?_⟩
  obtain ⟨more, hmore⟩ := hgrown
  rwa [← hmore, List.take_append_of_le_length hsince]

variable [DecidableEq τ]

theorem note_commits_isPrefix (u : τ) (c : KernelCall B E) (a : c.Answer) (k : Kernel B E)
    (r : Record τ) : r.commits <+: (r.note u c a k).commits := by
  unfold Record.note
  dsimp only
  split_ifs
  · exact List.prefix_append _ _
  · exact List.prefix_refl _

theorem note_looks_of_ne (h : t ≠ u) (c : KernelCall B E) (a : c.Answer) (k : Kernel B E)
    (r : Record τ) : (r.note u c a k).looks t = r.looks t :=
  Function.update_of_ne h _ _

theorem note_looks (t : τ) (c : KernelCall B E) (a : c.Answer) (k : Kernel B E) (r : Record τ) :
    (r.note t c a k).looks t = some ⟨(r.look t).since, (r.look t).failed || c.unread a⟩ :=
  Function.update_self _ _ _

/-- No call takes it back. -/
theorem Cleared.note (h : Cleared step t report r) (u : τ) (c : KernelCall B E) (a : c.Answer)
    (k : Kernel B E) : Cleared step t report (r.note u c a k) := by
  have hgrown := note_commits_isPrefix u c a k r
  by_cases hu : t = u
  · subst hu
    obtain ⟨look, hl, hsince, hclear⟩ := h
    have hlook : r.look t = look := by rw [Record.look, hl, Option.getD_some]
    refine ⟨_, note_looks t c a k r, ?_, ?_⟩
    · rw [hlook]
      exact hsince.trans hgrown.length_le
    · rw [hlook]
      refine hclear.imp (fun hfailed => by simp [hfailed]) fun hnone => ?_
      obtain ⟨more, hmore⟩ := hgrown
      rwa [← hmore, List.take_append_of_le_length hsince]
  · exact h.grow hgrown (note_looks_of_ne hu c a k r)

end Cleared

section Protocol
variable (F : Format B E) (step : τ → ThreadStep) (base : Option ThreadLog) (key : String)

/-- The documents that the object has held. -/
def watchedDocuments (s : Watched τ B E) : List Json :=
  pushedDocuments base (s.2.commits.map step)

/-- What holds between any two calls. -/
structure Faithful (s : Watched τ B E) : Prop where
  object : s.1.objects.get key =
    (pushed base (s.2.commits.map step)).map fun log => F.render log.toValue
  logs : ∀ owner entry, s.1.logs owner key = some entry →
    Snapshot F.tag (watchedDocuments step base s) entry.etag entry.log.toValue
  cleared : ∀ t ∈ s.2.commits, ClearedFor step t s

/-- What a task can count on while the others move. -/
structure Ongoing (t : τ) (s s' : Watched τ B E) : Prop where
  grown : s.2.commits <+: s'.2.commits
  look : s'.2.looks t = s.2.looks t

variable [DecidableEq τ] [DecidableEq E] (site : τ → Site)

/-- The protocol of the reports restricts no run. -/
def reportProtocol : Protocol (watchedWorld F site) where
  inv := Faithful F step base key
  rely := Ongoing
  guard _ _ _ := True
  rely_refl t s := ⟨List.prefix_refl _, rfl⟩
  rely_trans t a b c hab hbc := ⟨hab.grown.trans hbc.grown, hbc.look.trans hab.look⟩
  frame u i c s s' a h t ht := by
    obtain ⟨-, hr⟩ := World.instrument_exec.mp h
    exact ⟨hr ▸ note_commits_isPrefix u c a s.1 s.2, hr ▸ note_looks_of_ne ht c a s.1 s.2⟩

end Protocol

section Calls
variable [DecidableEq τ] [DecidableEq E] {F : ExactFormat B E} {site : τ → Site} {step : τ → ThreadStep}
  {base : Option ThreadLog} {key : String} {t : τ} {s m m' : Watched τ B E}

theorem watched_exec {i : Option CoreError} {c : KernelCall B E} {a : c.Answer}
    (h : (watchedWorld F site).exec t i c m = some (m', a)) :
    m'.2 = m.2.note t c a m.1 ∧ (kernelWorld F site).exec t i c m.1 = some (m'.1, a) :=
  (World.instrument_exec.mp h).symm

theorem watched_exec_storage {i : Option CoreError} {c : StorageCall B E} {a : c.Answer}
    (h : (watchedWorld F site).exec t i (.storage c) m = some (m', a)) :
    (m'.1 = m.1 ∧ ∃ e, i = some e ∧ a = .error e) ∨
      (i = none ∧ m'.1 = { m.1 with objects := (F.serve m.1.objects c).1 } ∧
        a = (F.serve m.1.objects c).2) :=
  Kernel.exec_storage (watched_exec h).2

theorem watched_exec_local {i : Option CoreError} {c : KernelCall B E} {a : c.Answer}
    (hc : c.isLocal) (h : (watchedWorld F site).exec t i c m = some (m', a)) :
    m'.1 = (m.1.perform F (site t) c).1 ∧ a = (m.1.perform F (site t) c).2 :=
  Kernel.exec_local hc (watched_exec h).2

/-- What one call of the task leaves behind, beside the kernel. -/
theorem watched_commits_isPrefix {i : Option CoreError} {c : KernelCall B E} {a : c.Answer}
    (h : (watchedWorld F site).exec t i c m = some (m', a)) : m.2.commits <+: m'.2.commits := by
  rw [(watched_exec h).1]
  exact note_commits_isPrefix t c a m.1 m.2

theorem ClearedFor.exec {i : Option CoreError} {c : KernelCall B E} {a : c.Answer} {u : τ}
    (h : (watchedWorld F site).exec t i c m = some (m', a)) (hu : ClearedFor step u m) :
    ClearedFor step u m' := by
  intro report hreport
  rw [(watched_exec h).1]
  exact (hu report hreport).note t c a m.1

omit [DecidableEq τ] [DecidableEq E] in
theorem ClearedFor.grow {u : τ} (h : Ongoing u m m') (hu : ClearedFor step u m) :
    ClearedFor step u m' :=
  fun report hreport => (hu report hreport).grow h.grown h.look

/-- A call that writes no log keeps the rest of the invariant too. -/
theorem Faithful.exec {i : Option CoreError} {c : KernelCall B E} {a : c.Answer}
    (h : (watchedWorld F site).exec t i c m = some (m', a)) (hm : Faithful F step base key m)
    (hc : c.isWritten a = false) (hobject : m'.1.objects.get key = m.1.objects.get key)
    (hlogs : ∀ owner entry, m'.1.logs owner key = some entry →
      Snapshot F.tag (watchedDocuments step base m) entry.etag entry.log.toValue) :
    Faithful F step base key m' ∧ m'.2.commits = m.2.commits := by
  have hcommits : m'.2.commits = m.2.commits := by
    rw [(watched_exec h).1, Record.note, hc]
    rfl
  refine ⟨⟨?_, ?_, fun u hu => ?_⟩, hcommits⟩
  · rw [hobject, hm.object, hcommits]
  · rw [watchedDocuments, hcommits]
    exact hlogs
  · rw [hcommits] at hu
    exact (hm.cleared u hu).exec h

variable (step base) in
omit [DecidableEq τ] [DecidableEq E] in
theorem watchedDocuments_isPrefix {b d : Watched τ B E} (h : b.2.commits <+: d.2.commits) :
    watchedDocuments step base b <+: watchedDocuments step base d :=
  pushedDocuments_isPrefix (h.map step)

theorem watch_issue {c : KernelCall B E} {Q : c.Answer → Watched τ B E → Prop}
    (h : ∀ m i m' a, Ongoing t s m → Faithful F step base key m →
      (watchedWorld F site).exec t i c m = some (m', a) → Faithful F step base key m' ∧ Q a m')
    (hstable : ∀ a b d, Ongoing t b d → Q a b → Q a d) :
    (reportProtocol F step base key site).Meets t Q c.issue s := by
  intro m hm hi _ i m' a he
  obtain ⟨hi', hq⟩ := h m i m' a hm hi he
  exact ⟨hi', fun d hd _ => hstable a m' d hd hq⟩

theorem watch_ret {α : Type} {a : α} {Q : α → Watched τ B E → Prop}
    (h : ∀ m, Ongoing t s m → Q a m) :
    (reportProtocol F step base key site).Meets t Q (.ret a) s :=
  fun m hm _ => h m hm

/-- What a program ensures, it ensures of a state with all the pushes there were. -/
theorem watch_grown {α : Type} {Q : α → Watched τ B E → Prop}
    {p : Program (KernelCall B E) KernelCall.Answer α}
    (h : (reportProtocol F step base key site).Meets t Q p s) :
    (reportProtocol F step base key site).Meets t
      (fun r m => Q r m ∧ s.2.commits <+: m.2.commits) p s := by
  apply h.carry (List.prefix_refl _)
  · exact fun _ _ hd hs => hs.trans hd.grown
  · exact fun _ _ _ _ _ he hs => hs.trans (watched_commits_isPrefix he)

/-- What was looked for stays so. -/
theorem watch_cleared {α : Type} {Q : α → Watched τ B E → Prop}
    {p : Program (KernelCall B E) KernelCall.Answer α}
    (h : (reportProtocol F step base key site).Meets t Q p s) (hs : ClearedFor step t s) :
    (reportProtocol F step base key site).Meets t (fun r m => Q r m ∧ ClearedFor step t m) p s := by
  apply h.carry hs
  · exact fun _ _ hd hs => hs.grow hd
  · exact fun _ _ _ _ _ he hs => hs.exec he

/-- A read of the call failed. -/
def FailedLook (t : τ) (s : Watched τ B E) : Prop :=
  ∃ look, s.2.looks t = some look ∧ look.failed = true

theorem FailedLook.of_unread {i : Option CoreError} {c : KernelCall B E} {a : c.Answer}
    (h : (watchedWorld F site).exec t i c m = some (m', a)) (hc : c.unread a = true) :
    FailedLook t m' := by
  rw [FailedLook, (watched_exec h).1, note_looks]
  exact ⟨_, rfl, by simp [hc]⟩

omit [DecidableEq τ] [DecidableEq E] in
theorem FailedLook.grow {b d : Watched τ B E} (hd : Ongoing t b d) (h : FailedLook t b) :
    FailedLook t d := by
  obtain ⟨look, hl, hfailed⟩ := h
  exact ⟨look, hd.look.trans hl, hfailed⟩

section Posts
variable (F step base) (t : τ) (n : Nat)

/-- A HEAD answers with the etag of a document held since the first `n` were. -/
def HeadFound (r : Except CoreError (Option E)) (m : Watched τ B E) : Prop :=
  n ≤ (watchedDocuments step base m).length ∧ match r with
    | .ok head => ∀ e, head = some e →
      ∃ y, HeldFrom n (watchedDocuments step base m) y ∧ F.tag y = e
    | .error _ => FailedLook t m

/-- A GET answers with a document held since the first `n` were. -/
def JsonFound (r : Except CoreError Json) (m : Watched τ B E) : Prop :=
  n ≤ (watchedDocuments step base m).length ∧ match r with
    | .ok v => HeldFrom n (watchedDocuments step base m) v ∧ (unreadable v = true → FailedLook t m)
    | .error _ => FailedLook t m

/-- A reader returns a log held since the first `n` documents were. -/
def LogFound (r : Except CoreError ThreadLog) (m : Watched τ B E) : Prop :=
  match r with
  | .ok log => HeldFrom n (watchedDocuments step base m) log.toValue
  | .error _ => FailedLook t m

end Posts

section Stable
omit [DecidableEq τ] [DecidableEq E]
variable {n : Nat} {b d : Watched τ B E}

theorem HeadFound.grow (hd : Ongoing t b d) {r : Except CoreError (Option E)}
    (h : HeadFound F step base t n r b) : HeadFound F step base t n r d := by
  have hp := watchedDocuments_isPrefix step base hd.grown
  refine ⟨h.1.trans hp.length_le, ?_⟩
  cases r with
  | error e => exact h.2.grow hd
  | ok head =>
    intro e he
    obtain ⟨y, hy, hye⟩ := h.2 e he
    exact ⟨y, hy.grow hp, hye⟩

theorem JsonFound.grow (hd : Ongoing t b d) {r : Except CoreError Json}
    (h : JsonFound step base t n r b) : JsonFound step base t n r d := by
  have hp := watchedDocuments_isPrefix step base hd.grown
  refine ⟨h.1.trans hp.length_le, ?_⟩
  cases r with
  | error e => exact h.2.grow hd
  | ok v => exact ⟨h.2.1.grow hp, fun hv => (h.2.2 hv).grow hd⟩

end Stable

omit [DecidableEq τ] [DecidableEq E] in
theorem Faithful.getLast? (h : Faithful F step base key m) :
    m.1.objects.get key = (watchedDocuments step base m).getLast?.map F.render := by
  rw [h.object, watchedDocuments, pushedDocuments_getLast?, Option.map_map]
  rfl

theorem watch_headEtag {n : Nat} (hn : n ≤ (watchedDocuments step base s).length) :
    (reportProtocol F step base key site).Meets t (HeadFound F step base t n)
      (KernelCall.storage (.headEtag key)).issue s := by
  apply watch_issue
  · intro m i m' a hm hi he
    have hlen := hn.trans (watchedDocuments_isPrefix step base hm.grown).length_le
    have hdocs : watchedDocuments step base m <+: watchedDocuments step base m' :=
      watchedDocuments_isPrefix step base (watched_commits_isPrefix he)
    rcases watched_exec_storage he with ⟨hkernel, e, -, rfl⟩ | ⟨-, hkernel, rfl⟩
    · obtain ⟨hi', -⟩ := hi.exec he rfl (by rw [hkernel]) (by rw [hkernel]; exact hi.logs)
      exact ⟨hi', hlen.trans hdocs.length_le, .of_unread he rfl⟩
    · obtain ⟨hi', -⟩ := hi.exec he rfl (by rw [hkernel]; rfl) (by rw [hkernel]; exact hi.logs)
      refine ⟨hi', hlen.trans hdocs.length_le, fun e hhead => ?_⟩
      rw [Format.headOf, hi.getLast?, Option.map_map, Option.map_eq_some_iff] at hhead
      obtain ⟨y, hy, hye⟩ := hhead
      exact ⟨y, ((HeldFrom.of_getLast? hy).weaken hlen).grow hdocs, hye⟩
  · exact fun r b d hd h => h.grow hd

theorem watch_getJson {n : Nat} (hn : n ≤ (watchedDocuments step base s).length) :
    (reportProtocol F step base key site).Meets t (JsonFound step base t n)
      (KernelCall.storage (.getJson key)).issue s := by
  apply watch_issue
  · intro m i m' a hm hi he
    have hlen := hn.trans (watchedDocuments_isPrefix step base hm.grown).length_le
    have hdocs : watchedDocuments step base m <+: watchedDocuments step base m' :=
      watchedDocuments_isPrefix step base (watched_commits_isPrefix he)
    have hi' : Faithful F step base key m' := by
      rcases watched_exec_storage he with ⟨hkernel, e, -, rfl⟩ | ⟨-, hkernel, rfl⟩
      · exact (hi.exec he rfl (by rw [hkernel]) (by rw [hkernel]; exact hi.logs)).1
      · refine (hi.exec he ?_ (by rw [hkernel]; rfl) (by rw [hkernel]; exact hi.logs)).1
        cases (F.serve m.1.objects (.getJson key)).2 <;> rfl
    refine ⟨hi', hlen.trans hdocs.length_le, ?_⟩
    cases a with
    | error e => exact .of_unread he rfl
    | ok v =>
      refine ⟨?_, fun hv => .of_unread he hv⟩
      rcases watched_exec_storage he with ⟨-, e, -, habs⟩ | ⟨-, -, hanswer⟩
      · cases habs
      · simp only [Format.serve, hi.getLast?] at hanswer
        cases hl : (watchedDocuments step base m).getLast? with
        | none =>
          rw [hl] at hanswer
          cases hanswer
        | some y =>
          rw [hl] at hanswer
          rw [F.of_parse_render (F.parseJson_eq_ok.mp hanswer.symm)]
          exact ((HeldFrom.of_getLast? hl).weaken hlen).grow hdocs
  · exact fun r b d hd h => h.grow hd

theorem watch_retryHead {n : Nat} (hn : n ≤ (watchedDocuments step base s).length) :
    (reportProtocol F step base key site).Meets t (HeadFound F step base t n)
      (retryHeadEtag backend key) s := by
  apply meets_retryClassified (I := fun m => n ≤ (watchedDocuments step base m).length)
  · exact fun m hm => watch_headEtag hm
  · exact fun _ _ _ h => h.1
  · exact fun _ _ _ hd _ h => HeadFound.grow hd h
  · exact hn

theorem watch_retryGet {n : Nat} (hn : n ≤ (watchedDocuments step base s).length) :
    (reportProtocol F step base key site).Meets t (JsonFound step base t n)
      (retryGetJson backend key) s := by
  apply meets_retryClassified (I := fun m => n ≤ (watchedDocuments step base m).length)
  · exact fun m hm => watch_getJson hm
  · exact fun _ _ _ h => h.1
  · exact fun _ _ _ hd _ h => JsonFound.grow hd h
  · exact hn

end Calls
end ReactRuntime.Session
