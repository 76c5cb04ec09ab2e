import ReactRuntime.Session.Ledger

/-!
# Contracts of the thread store

Each operation of the store, whatever the other tasks do in between, keeps the
ledger consistent and commits exactly when it says so.
-/
namespace ReactRuntime.Session
open Library Serde ReactRuntime.Core Storage

variable {τ B E : Type} [DecidableEq τ] [DecidableEq E] {F : Format B E} {site : τ → Site}
  {op : τ → ThreadOp} {key : String} {guard : τ → KernelCall B E → Audited τ B E → Prop} {t : τ}

theorem audited_exec_storage {i : Option CoreError} {c : StorageCall B E} {m m' : Audited τ B E}
    {a : c.Answer} (h : (auditedWorld F site).exec t i (.storage c) m = some (m', a)) :
    (m' = m ∧ ∃ e, a = .error e) ∨ (a = (F.serve m.1.objects c).2 ∧
      m' = ({ m.1 with objects := (F.serve m.1.objects c).1 },
        Ledger.note t (.storage c) a m.1 m.2)) := by
  obtain ⟨he, hg⟩ := World.instrument_exec.mp h
  rcases Kernel.exec_storage he with ⟨hm, e, -, rfl⟩ | ⟨-, hm, ha⟩
  · left
    refine ⟨Prod.ext hm (hg.trans ?_), e, rfl⟩
    cases c <;> rfl
  · exact .inr ⟨ha, Prod.ext hm hg⟩

theorem audited_exec_local {i : Option CoreError} {c : KernelCall B E} {m m' : Audited τ B E}
    {a : c.Answer} (hc : c.isLocal) (h : (auditedWorld F site).exec t i c m = some (m', a)) :
    a = (m.1.perform F (site t) c).2 ∧ m' = ((m.1.perform F (site t) c).1, m.2) := by
  obtain ⟨he, hg⟩ := World.instrument_exec.mp h
  have hnote : Ledger.note t c a m.1 m.2 = m.2 := by
    cases c with
    | storage c => cases hc
    | _ => rfl
  obtain ⟨hm, ha⟩ := Kernel.exec_local hc he
  exact ⟨ha, Prod.ext hm (hg.trans hnote)⟩

theorem meets_issue {c : KernelCall B E} {Q : c.Answer → Audited τ B E → Prop}
    {s : Audited τ B E}
    (h : ∀ m i m' a, Undisturbed t s m → Consistent F op key m → guard t c m →
      (auditedWorld F site).exec t i c m = some (m', a) → Consistent F op key m' ∧ Q a m')
    (hstable : ∀ a m m', Undisturbed t m m' → Q a m → Q a m') :
    (threadProtocol F site op key guard).Meets t Q c.issue s := by
  intro m hm hi hg i m' a he
  obtain ⟨hi', hq⟩ := h m i m' a hm hi hg he
  exact ⟨hi', fun m'' hm' _ => hstable a m' m'' hm' hq⟩

/-- Nothing was committed in the name of the task. -/
structure Later (t : τ) (s m : Audited τ B E) : Prop where
  grown : s.2.commits <+: m.2.commits
  own : m.2.commits.count t = s.2.commits.count t

/-- Exactly one commit was made in the name of the task. -/
structure Committed (t : τ) (s m : Audited τ B E) : Prop where
  grown : s.2.commits <+: m.2.commits
  own : m.2.commits.count t = s.2.commits.count t + 1

omit [DecidableEq E]
variable {s m m' : Audited τ B E}

theorem Undisturbed.later (h : Undisturbed t s m) : Later t s m := ⟨h.grown, h.own⟩

theorem Later.refl (t : τ) (s : Audited τ B E) : Later t s s := ⟨List.prefix_refl _, rfl⟩

theorem Later.trans (h : Later t s m) (h' : Later t m m') : Later t s m' :=
  ⟨h.grown.trans h'.grown, h'.own.trans h.own⟩

theorem Later.committed (h : Later t s m) (h' : Committed t m m') : Committed t s m' :=
  ⟨h.grown.trans h'.grown, by rw [h'.own, h.own]⟩

theorem Committed.trans (h : Committed t s m) (h' : Later t m m') : Committed t s m' :=
  ⟨h.grown.trans h'.grown, by rw [h'.own, h.own]⟩

theorem Later.held_isPrefix (h : Later t s m) : held op s <+: held op m :=
  Session.held_isPrefix h.grown

theorem Later.held_length_le (h : Later t s m) : (held op s).length ≤ (held op m).length := by
  have hp : held op s <+: held op m := h.held_isPrefix
  exact hp.length_le

section Posts
variable (F : Format B E) (op : τ → ThreadOp) (t : τ)

/-- A HEAD answers with the etag of a document that the object held since the call began. -/
def HeadPost (s : Audited τ B E) (r : Except CoreError (Option E)) (m : Audited τ B E) : Prop :=
  Later t s m ∧ ∀ e, r = .ok (some e) →
    ∃ y, HeldFrom (held op s).length (held op m) y ∧ F.tag y = e

/-- A GET answers with a document that the object held since the call began. -/
def ReadPost (s : Audited τ B E) (r : Except CoreError Json) (m : Audited τ B E) : Prop :=
  Later t s m ∧ ∀ v, r = .ok v → HeldFrom (held op s).length (held op m) v

/-- The document to be written is the edit of a log that was read after its etag. -/
def Ready (v : Json) (expected : Option E) (s : Audited τ B E) : Prop :=
  ∃ log log', (op t).apply log = some log' ∧ v = log'.toValue ∧ match expected with
    | none => log = ThreadLog.default
    | some e => Snapshot F.tag (held op s) e log.toValue

/-- A conditional put commits exactly when it answers that it wrote. -/
def PutPost (v : Json) (s : Audited τ B E) (r : Except CoreError (ConditionalWriteStatus E))
    (m : Audited τ B E) : Prop :=
  match r with
  | .ok (.written e) => Committed t s m ∧ Snapshot F.tag (held op m) e v
  | _ => Later t s m

end Posts

variable [DecidableEq E]

/-- What the thread store needs from a storage, whatever its guard and its caches. -/
structure Coherent (F : Format B E) (site : τ → Site) (op : τ → ThreadOp) (key : String)
    (guard : τ → KernelCall B E → Audited τ B E → Prop) (t : τ)
    (storage : StorageAdapter (KernelCall B E) KernelCall.Answer B E) : Prop where
  head : ∀ s, (threadProtocol F site op key guard).Meets t (HeadPost F op t s)
    (storage (.headEtag key)) s
  read : ∀ s, (threadProtocol F site op key guard).Meets t (ReadPost op t s)
    (storage (.getJson key)) s
  put : ∀ v expected s, Ready F op t v expected s →
    (threadProtocol F site op key guard).Meets t (PutPost F op t v s)
      (storage (.putJsonIfEtagMatches key v expected)) s

/-- A contract that survives refusals is a contract of the call with retry. `I` is what the call
needs and `Q` what it ensures, relative to the state it starts in. -/
theorem meets_retryStorageCall
    {storage : StorageAdapter (KernelCall B E) KernelCall.Answer B E} {c : StorageCall B E}
    {I : Audited τ B E → Prop} {Q : Audited τ B E → c.Answer → Audited τ B E → Prop}
    (hcall : ∀ m, I m → (threadProtocol F site op key guard).Meets t (Q m) (storage c) m)
    (hpre : ∀ a b, Later t a b → I a → I b)
    (hshift : ∀ a b r d, Later t a b → Q b r d → Q a r d)
    (herror : ∀ a e b, Q a (.error e) b → Later t a b)
    (hstable : ∀ a r b d, Later t b d → Q a r b → Q a r d) (hs : I s) :
    (threadProtocol F site op key guard).Meets t (Q s) (retryStorageCall storage c) s := by
  apply meets_retryClassified (I := fun m => Later t s m ∧ I m)
  · rintro m ⟨hm, hpm⟩
    exact (hcall m hpm).mono fun r d _ hd => hshift s m r d hm hd
  · intro e m _ hm
    have hl := herror s e m hm
    exact ⟨hl, hpre s m hl hs⟩
  · exact fun r a b hab _ ha => hstable s r a b hab.later ha
  · exact ⟨Later.refl t s, hs⟩

section Stable

omit [DecidableEq E]

theorem HeadPost.grow {r : Except CoreError (Option E)} (h : HeadPost F op t s r m)
    (hm : Later t m m') : HeadPost F op t s r m' := by
  refine ⟨h.1.trans hm, fun e he => ?_⟩
  obtain ⟨y, hy, hye⟩ := h.2 e he
  exact ⟨y, hy.grow hm.held_isPrefix, hye⟩

theorem HeadPost.shift {r : Except CoreError (Option E)} (hs : Later t s m)
    (h : HeadPost F op t m r m') : HeadPost F op t s r m' := by
  refine ⟨hs.trans h.1, fun e he => ?_⟩
  obtain ⟨y, hy, hye⟩ := h.2 e he
  exact ⟨y, hy.weaken hs.held_length_le, hye⟩

theorem ReadPost.grow {r : Except CoreError Json} (h : ReadPost op t s r m)
    (hm : Later t m m') : ReadPost op t s r m' :=
  ⟨h.1.trans hm, fun v hv => (h.2 v hv).grow hm.held_isPrefix⟩

theorem ReadPost.shift {r : Except CoreError Json} (hs : Later t s m)
    (h : ReadPost op t m r m') : ReadPost op t s r m' :=
  ⟨hs.trans h.1, fun v hv => (h.2 v hv).weaken hs.held_length_le⟩

theorem Ready.grow {v : Json} {expected : Option E} (h : Ready F op t v expected s)
    (hm : Later t s m) : Ready F op t v expected m := by
  obtain ⟨log, log', ha, hv, hexp⟩ := h
  refine ⟨log, log', ha, hv, ?_⟩
  cases expected with
  | none => exact hexp
  | some e => exact hexp.grow hm.held_isPrefix

theorem PutPost.grow {v : Json} {r : Except CoreError (ConditionalWriteStatus E)}
    (h : PutPost F op t v s r m) (hm : Later t m m') : PutPost F op t v s r m' := by
  unfold PutPost at *
  split at h
  · exact ⟨h.1.trans hm, h.2.grow hm.held_isPrefix⟩
  · exact h.trans hm

theorem PutPost.shift {v : Json} {r : Except CoreError (ConditionalWriteStatus E)}
    (hs : Later t s m) (h : PutPost F op t v m r m') : PutPost F op t v s r m' := by
  unfold PutPost at *
  split at h
  · exact ⟨hs.committed h.1, h.2⟩
  · exact hs.trans h

end Stable

variable {storage : StorageAdapter (KernelCall B E) KernelCall.Answer B E}

namespace Coherent
variable (hst : Coherent F site op key guard t storage)
include hst

theorem retryHead (s : Audited τ B E) : (threadProtocol F site op key guard).Meets t
    (HeadPost F op t s) (retryHeadEtag storage key) s := by
  apply meets_retryStorageCall (c := .headEtag key) (I := fun _ => True) (Q := HeadPost F op t)
  · exact fun m _ => hst.head m
  · exact fun _ _ _ h => h
  · exact fun _ _ _ _ hs h => h.shift hs
  · exact fun _ _ _ h => h.1
  · exact fun _ _ _ _ hl h => h.grow hl
  · trivial

theorem retryRead (s : Audited τ B E) : (threadProtocol F site op key guard).Meets t
    (ReadPost op t s) (retryGetJson storage key) s := by
  apply meets_retryStorageCall (c := .getJson key) (I := fun _ => True) (Q := ReadPost op t)
  · exact fun m _ => hst.read m
  · exact fun _ _ _ h => h
  · exact fun _ _ _ _ hs h => h.shift hs
  · exact fun _ _ _ h => h.1
  · exact fun _ _ _ _ hl h => h.grow hl
  · trivial

theorem retryPut {v : Json} {expected : Option E} (h : Ready F op t v expected s) :
    (threadProtocol F site op key guard).Meets t (PutPost F op t v s)
      (retryPutJsonIfEtagMatches storage key v expected) s := by
  apply meets_retryStorageCall (c := .putJsonIfEtagMatches key v expected)
    (I := Ready F op t v expected) (Q := PutPost F op t v)
  · exact fun m hm => hst.put v expected m hm
  · exact fun _ _ hl h => h.grow hl
  · exact fun _ _ _ _ hs h => h.shift hs
  · exact fun _ _ _ h => h
  · exact fun _ _ _ _ hl h => h.grow hl
  · exact h

end Coherent

theorem meets_local {c : KernelCall B E} (hc : c.isLocal) {R : c.Answer → Audited τ B E → Prop}
    (hcons : ∀ m, Later t s m → Consistent F op key m →
      Consistent F op key ((m.1.perform F (site t) c).1, m.2))
    (hR : ∀ m, Later t s m → Consistent F op key m →
      R (m.1.perform F (site t) c).2 ((m.1.perform F (site t) c).1, m.2))
    (hstable : ∀ a b d, Later t b d → R a b → R a d) :
    (threadProtocol F site op key guard).Meets t (fun r m => Later t s m ∧ R r m) c.issue s := by
  apply meets_issue
  · intro m i m' a hm hi _ he
    obtain ⟨rfl, rfl⟩ := audited_exec_local hc he
    exact ⟨hcons m hm.later hi, ⟨hm.grown, hm.own⟩, hR m hm.later hi⟩
  · exact fun a m m' hm h => ⟨h.1.trans hm.later, hstable a m m' hm.later h.2⟩

/-- A call within the process whose answer says nothing. -/
theorem meets_kept {c : KernelCall B E} (hc : c.isLocal)
    (hcons : ∀ m, Later t s m → Consistent F op key m →
      Consistent F op key ((m.1.perform F (site t) c).1, m.2)) :
    (threadProtocol F site op key guard).Meets t (fun _ m => Later t s m) c.issue s := by
  have hlocal : (threadProtocol F site op key guard).Meets t (fun _ m => Later t s m ∧ True)
      c.issue s :=
    meets_local hc hcons (fun _ _ _ => trivial) fun _ _ _ _ _ => trivial
  exact hlocal.mono fun _ _ _ h => h.1

theorem meets_cacheGet (s : Audited τ B E) : (threadProtocol F site op key guard).Meets t
    (fun r m => Later t s m ∧ ∀ entry, r = some entry →
      Snapshot F.tag (held op m) entry.etag entry.log.toValue)
    (KernelCall.cacheGet key).issue s := by
  apply meets_local rfl
  · exact fun m _ hi => hi
  · exact fun m _ hi entry he => hi.logs _ entry he
  · exact fun a b d hl h entry he => (h entry he).grow hl.held_isPrefix

theorem meets_cacheInsert {log : ThreadLog} {etag : E}
    (h : Snapshot F.tag (held op s) etag log.toValue) :
    (threadProtocol F site op key guard).Meets t (fun _ m => Later t s m)
      (KernelCall.cacheInsert key ⟨log, etag⟩).issue s := by
  refine meets_kept rfl fun m hl hi => ⟨hi.effective, hi.object, ?_, hi.entries⟩
  apply forall_updateAt hi.logs
  intro entry hentry
  cases hentry
  exact h.grow hl.held_isPrefix

theorem meets_cacheRemove (s : Audited τ B E) : (threadProtocol F site op key guard).Meets t
    (fun _ m => Later t s m) (KernelCall.cacheRemove key).issue s := by
  refine meets_kept rfl fun m _ hi => ⟨hi.effective, hi.object, ?_, hi.entries⟩
  apply forall_updateAt hi.logs
  intro entry hentry
  cases hentry

theorem meets_lock (s : Audited τ B E) (k : String) :
    (threadProtocol F site op key guard).Meets t (fun _ m => Later t s m)
      (KernelCall.lock k).issue s :=
  meets_kept rfl fun _ _ hi => ⟨hi.effective, hi.object, hi.logs, hi.entries⟩

theorem meets_unlock (s : Audited τ B E) (k : String) :
    (threadProtocol F site op key guard).Meets t (fun _ m => Later t s m)
      (KernelCall.unlock k).issue s :=
  meets_kept rfl fun _ _ hi => ⟨hi.effective, hi.object, hi.logs, hi.entries⟩

omit [DecidableEq τ] [DecidableEq E] in
theorem Consistent.head_eq {e : E} (hi : Consistent F op key m)
    (h : F.headOf m.1.objects key = some e) :
    ∃ y, (held op m).getLast? = some y ∧ F.tag y = e := by
  rw [Format.headOf, hi.object, Option.map_map, Option.map_eq_some_iff] at h
  obtain ⟨y, hy, he⟩ := h
  exact ⟨y, hy, he⟩

omit [DecidableEq E] in
/-- A document that the object holds since the call began. -/
theorem heldFrom_last {y : Json} (hm : Later t s m) (hy : (held op m).getLast? = some y) :
    HeldFrom (held op s).length (held op m) y :=
  (HeldFrom.of_getLast? hy).weaken hm.held_length_le

omit [DecidableEq τ] [DecidableEq E] in
theorem EntryOk.grow {xs ys : List Json} {entry : CacheEntry B E} (h : EntryOk F xs entry)
    (hp : xs <+: ys) : EntryOk F ys entry := by
  cases entry with
  | missing => trivial
  | bytes bytes etag =>
    cases etag with
    | none => exact h
    | some e =>
      obtain ⟨v, hv, hparse⟩ := h
      exact ⟨v, hv.grow hp, hparse⟩

theorem meets_headEtag (s : Audited τ B E) : (threadProtocol F site op key guard).Meets t
    (fun r m => HeadPost F op t s r m ∧ ∀ head, r = .ok head → m.2.lastHead t = head)
    (KernelCall.storage (.headEtag key)).issue s := by
  apply meets_issue
  · intro m i m' a hm hi _ he
    rcases audited_exec_storage he with ⟨rfl, e, rfl⟩ | ⟨rfl, rfl⟩
    · exact ⟨hi, ⟨hm.later, fun _ h => nomatch h⟩, fun _ h => nomatch h⟩
    · have hlater := hm.later
      refine ⟨⟨hi.effective, hi.object, hi.logs, hi.entries⟩,
        ⟨⟨hm.grown, hm.own⟩, fun e he => ?_⟩, fun head hh => ?_⟩
      · obtain ⟨y, hy, hye⟩ := hi.head_eq (Except.ok.inj he)
        have hheld : HeldFrom (held op s).length (held op m) y := heldFrom_last hlater hy
        exact ⟨y, hheld, hye⟩
      · cases hh
        simp [Ledger.note, Format.serve]
  · exact fun r a b hab h => ⟨h.1.grow hab.later, fun head hh => hab.lastHead.trans (h.2 head hh)⟩

theorem meets_getJson {F : ExactFormat B E} (s : Audited τ B E) :
    (threadProtocol (F : Format B E) site op key guard).Meets t (ReadPost op t s)
      (KernelCall.storage (.getJson key)).issue s := by
  apply meets_issue
  · intro m i m' a hm hi _ he
    rcases audited_exec_storage he with ⟨rfl, e, rfl⟩ | ⟨rfl, rfl⟩
    · exact ⟨hi, hm.later, fun _ h => nomatch h⟩
    · refine ⟨⟨hi.effective, hi.object, hi.logs, hi.entries⟩, ⟨hm.grown, hm.own⟩, fun v hv => ?_⟩
      simp only [Format.serve, hi.object] at hv
      cases hl : (held op m).getLast? with
      | none => simp [hl] at hv
      | some y =>
        simp only [hl, Option.map_some, Format.parseJson_eq_ok] at hv
        rw [F.of_parse_render hv]
        exact heldFrom_last hm.later hl
  · exact fun r a b hab h => h.grow hab.later

omit [DecidableEq τ] [DecidableEq E] in
/-- Once the expected etag is the current one, the log in hand has the current document. -/
theorem Ready.current {v : Json} {expected : Option E} (htag : Function.Injective F.tag)
    (h : Ready F op t v expected m) (hi : Consistent F op key m)
    (he : F.headOf m.1.objects key = expected) :
    ∃ log', (op t).apply (replay op m.2.commits) = some log' ∧ log'.toValue = v := by
  obtain ⟨log, log', ha, rfl, hexp⟩ := h
  have halike : log.toValue = (replay op m.2.commits).toValue := by
    cases expected with
    | none =>
      rw [Format.headOf, hi.object, held, documents_getLast?_eq] at he
      split_ifs at he with hnil
      · rw [hexp, hnil]
        rfl
      · simp at he
    | some e =>
      obtain ⟨y, hy, hye⟩ := hi.head_eq he
      rw [hexp.current hi.effective.noReturn htag hy hye]
      rw [held, documents_getLast?_eq] at hy
      split_ifs at hy
      exact (Option.some.inj hy).symm
  rcases ThreadOp.apply_alike (e := op t) (ThreadLog.alike_iff.mp halike) with
    ⟨hnone, -⟩ | ⟨l, l', hl, hl', hll'⟩
  · rw [ha] at hnone
    cases hnone
  · rw [ha] at hl
    cases hl
    exact ⟨l', hl', (ThreadLog.alike_iff.mpr hll').symm⟩

theorem meets_putJsonIfEtagMatches (htag : Function.Injective F.tag) {v : Json}
    {expected : Option E} (h : Ready F op t v expected s) :
    (threadProtocol F site op key guard).Meets t (PutPost F op t v s)
      (KernelCall.storage (.putJsonIfEtagMatches key v expected)).issue s := by
  apply meets_issue
  · intro m i m' a hm hi _ he
    rcases audited_exec_storage he with ⟨rfl, e, rfl⟩ | ⟨ha, hm'⟩
    · exact ⟨hi, hm.later⟩
    · simp only [Format.serve] at ha hm'
      split_ifs at ha hm' with hmatch
      · subst ha
        obtain ⟨log', hlog', hv⟩ := (h.grow hm.later).current htag hi hmatch
        have hreplay : (replay op (m.2.commits ++ [t])).toValue = v := by
          rw [replay_append_singleton, hlog']
          exact hv
        have hlast : (held op m').getLast? = some v := by
          rw [hm', held, ← hreplay]
          exact documents_getLast? m.2.commits t
        have hgrown : m.2.commits <+: m'.2.commits := by
          rw [hm']
          exact List.prefix_append _ _
        have hp : held op m <+: held op m' := held_isPrefix hgrown
        refine ⟨⟨?_, ?_, ?_, ?_⟩, ⟨hm.grown.trans hgrown, ?_⟩, ?_⟩
        · rw [hm']
          exact hi.effective.snoc (by rw [hlog']; rfl)
        · rw [hlast, hm']
          simp
        · intro owner entry hentry
          rw [hm'] at hentry
          exact (hi.logs owner entry hentry).grow hp
        · intro owner entry hentry
          rw [hm'] at hentry
          exact (hi.entries owner entry hentry).grow hp
        · rw [hm', ← hm.own]
          simp [Ledger.note]
        · exact Snapshot.of_getLast? hlast
      · subst ha
        rw [hm']
        exact ⟨⟨hi.effective, hi.object, hi.logs, hi.entries⟩, hm.grown, hm.own⟩
  · exact fun r a b hab h => h.grow hab.later

/-- Etags that determine the content make the plain backend coherent, in every run. -/
theorem coherent_backend {F : ExactFormat B E} (htag : Function.Injective F.tag) :
    Coherent (F : Format B E) site op key guard t backend where
  head s := (meets_headEtag s).mono fun _ _ _ h => h.1
  read s := meets_getJson s
  put _ _ _ h := meets_putJsonIfEtagMatches htag h

end ReactRuntime.Session
