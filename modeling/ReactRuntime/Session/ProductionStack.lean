import ReactRuntime.Session.Linearization

/-!
# Thread stores over caching adapters

Each process owns one caching adapter over the shared backend. The adapter
remembers a body under the etag it asked for before. If that HEAD found no object
and a peer creates the object before the GET, the body is remembered without an
etag, and from then on it is served without any check. A run in which this never
happens keeps the contract of the storage, and no update is lost.
-/
namespace ReactRuntime.Session
open Library Serde ReactRuntime.Core Storage

variable {τ B E : Type} [DecidableEq τ] [DecidableEq E] {F : ExactFormat B E} {site : τ → Site}
  {op : τ → ThreadOp} {key : String} {t : τ} {s m m' : Audited τ B E}

/-- The key of a GET that a caching adapter makes. -/
def KernelCall.fetchedKey : KernelCall B E → Option String
  | .storage (.getBytes key) => some key
  | _ => none

/-- A GET that follows a HEAD without an object finds no object either. -/
def NoLateFirstFetch (t : τ) (c : KernelCall B E) (s : Audited τ B E) : Prop :=
  ∀ k ∈ c.fetchedKey, s.2.lastHead t = none → s.1.objects.get k = none

instance (t : τ) (c : KernelCall B E) (s : Audited τ B E) : Decidable (NoLateFirstFetch t c s) :=
  inferInstanceAs (Decidable (∀ k ∈ c.fetchedKey, _))

/-- The protocol of the production stack. -/
abbrev stackProtocol (F : Format B E) (site : τ → Site) (op : τ → ThreadOp) (key : String) :
    Protocol (auditedWorld F site) :=
  threadProtocol F site op key NoLateFirstFetch

instance (t : τ) (c : KernelCall B E) (s : Audited τ B E) :
    Decidable ((stackProtocol F.toFormat site op key).guard t c s) :=
  inferInstanceAs (Decidable (NoLateFirstFetch t c s))

theorem meets_readEntry (s : Audited τ B E) : (stackProtocol F.toFormat site op key).Meets t
    (fun r m => Later t s m ∧ ∀ entry, r = some entry → EntryOk F (held op m) entry)
    (KernelCall.readEntry key).issue s := by
  apply meets_local rfl
  · exact fun m _ hi => hi
  · exact fun m _ hi entry he => hi.entries _ entry he
  · exact fun a b d hl h entry he => (h entry he).grow hl.held_isPrefix

theorem meets_writeEntry {entry : CacheEntry B E} (h : EntryOk F (held op s) entry) :
    (stackProtocol F.toFormat site op key).Meets t (fun _ m => Later t s m)
      (KernelCall.writeEntry key entry).issue s := by
  refine meets_kept rfl fun m hl hi => ⟨hi.effective, hi.object, hi.logs, ?_⟩
  apply forall_updateAt hi.entries
  intro e hentry
  cases hentry
  exact h.grow hl.held_isPrefix

theorem meets_invalidateEntry (s : Audited τ B E) : (stackProtocol F.toFormat site op key).Meets t
    (fun _ m => Later t s m) (KernelCall.invalidateEntry key).issue s := by
  refine meets_kept rfl fun m _ hi => ⟨hi.effective, hi.object, hi.logs, ?_⟩
  apply forall_updateAt hi.entries
  intro e hentry
  cases hentry

/-- Bytes that can only read as a document that the object held since the call began. -/
def BytesPost (F : Format B E) (op : τ → ThreadOp) (t : τ) (s : Audited τ B E)
    (r : Except CoreError B) (m : Audited τ B E) : Prop :=
  Later t s m ∧ ∀ bytes, r = .ok bytes → ∃ v,
    HeldFrom (held op s).length (held op m) v ∧ ∀ w, F.parse bytes = .ok w → w = v

omit [DecidableEq E] in
theorem BytesPost.grow {r : Except CoreError B} (h : BytesPost F op t s r m)
    (hm : Later t m m') : BytesPost F op t s r m' := by
  refine ⟨h.1.trans hm, fun bytes hb => ?_⟩
  obtain ⟨v, hv, hparse⟩ := h.2 bytes hb
  exact ⟨v, hv.grow hm.held_isPrefix, hparse⟩

omit [DecidableEq E] in
theorem BytesPost.shift {r : Except CoreError B} (hs : Later t s m)
    (h : BytesPost F op t m r m') : BytesPost F op t s r m' := by
  refine ⟨hs.trans h.1, fun bytes hb => ?_⟩
  obtain ⟨v, hv, hparse⟩ := h.2 bytes hb
  exact ⟨v, hv.weaken hs.held_length_le, hparse⟩

omit [DecidableEq E] in
theorem BytesPost.error (err : CoreError) (h : Later t s m) : BytesPost F op t s (.error err) m :=
  ⟨h, fun _ hb => nomatch hb⟩

theorem meets_ret_bytes {r : Except CoreError B} (h : BytesPost F op t s r m) :
    (stackProtocol F.toFormat site op key).Meets t (BytesPost F op t s) (.ret r) m :=
  meets_ret h fun _ hd h => h.grow hd

/-- The GET of a fetch. The guard makes its answer agree with the HEAD before it: bytes come only
after a HEAD that found an object. -/
theorem meets_getBytes_inner {head : Option E} (hhead : s.2.lastHead t = head) :
    (stackProtocol F.toFormat site op key).Meets t (fun r m => BytesPost F op t s r m ∧
      ∀ bytes, r = .ok bytes → head ≠ none ∧ ∃ v, bytes = F.render v ∧
        HeldFrom (held op s).length (held op m) v)
      (KernelCall.storage (.getBytes key)).issue s := by
  apply meets_issue
  · intro m i m' a hm hi hg he
    rcases audited_exec_storage he with ⟨rfl, e, rfl⟩ | ⟨rfl, rfl⟩
    · exact ⟨hi, .error e hm.later, fun _ h => nomatch h⟩
    · have hread : ∀ bytes, (F.serve m.1.objects (.getBytes key)).2 = .ok bytes →
          head ≠ none ∧ ∃ v, bytes = F.render v ∧
            HeldFrom (held op s).length (held op m) v := by
        intro bytes hb
        simp only [Format.serve, hi.object] at hb
        cases hl : (held op m).getLast? with
        | none => simp [hl] at hb
        | some y =>
          simp only [hl, Option.map_some, Except.ok.injEq] at hb
          refine ⟨fun hnone => ?_, y, hb.symm, heldFrom_last hm.later hl⟩
          have habsent := hg key rfl (by rw [hm.lastHead, hhead, hnone])
          rw [hi.object, hl] at habsent
          cases habsent
      refine ⟨⟨hi.effective, hi.object, hi.logs, hi.entries⟩,
        ⟨⟨hm.grown, hm.own⟩, fun bytes hb => ?_⟩, hread⟩
      obtain ⟨-, v, rfl, hv⟩ := hread bytes hb
      exact ⟨v, hv, fun w hw => F.of_parse_render hw⟩
  · intro r a b hab h
    refine ⟨h.1.grow hab.later, fun bytes hb => ?_⟩
    obtain ⟨hne, v, hbytes, hv⟩ := h.2 bytes hb
    exact ⟨hne, v, hbytes, hv.grow hab.later.held_isPrefix⟩

theorem meets_fetchBytes (s : Audited τ B E) : (stackProtocol F.toFormat site op key).Meets t
    (BytesPost F op t s) ((cachingAdapter F).fetchBytes key) s := by
  apply Protocol.Meets.andThen (meets_headEtag s)
  · rintro head m - ⟨⟨hm, hy⟩, hlast⟩
    apply Protocol.Meets.bind
    apply (meets_getBytes_inner (hlast head rfl)).mono
    rintro r d - ⟨hbytes, hread⟩
    cases r with
    | ok bytes =>
      obtain ⟨hsome, v, rfl, hv⟩ := hread bytes rfl
      obtain ⟨e, rfl⟩ := Option.ne_none_iff_exists'.mp hsome
      obtain ⟨y, ⟨j, -, hj⟩, hye⟩ := hy e rfl
      have hentry : EntryOk F (held op d) (.bytes (F.render v) (some e)) :=
        ⟨v, Snapshot.of_reads (List.mem_of_getElem? hj) hye hbytes.1.held_isPrefix hv,
          fun w hw => F.of_parse_render hw⟩
      apply Protocol.Meets.bind
      apply (meets_writeEntry hentry).mono
      exact fun _ u _ hu => meets_ret_bytes ((hbytes.shift hm).grow hu)
    | error err =>
      change (stackProtocol F.toFormat site op key).Meets t _
        (if isStorageNotFoundError err then _ else _) d
      split_ifs
      · apply Protocol.Meets.bind
        have hmissing : EntryOk F (held op d) (.missing : CacheEntry B E) := trivial
        apply (meets_writeEntry hmissing).mono
        exact fun _ u _ hu => meets_ret_bytes ((hbytes.shift hm).grow hu)
      · exact meets_ret_bytes (hbytes.shift hm)
  · rintro err m - ⟨⟨hm, -⟩, -⟩
    exact meets_ret_bytes (.error err hm)

theorem meets_getBytes (htag : Function.Injective F.tag) (s : Audited τ B E) :
    (stackProtocol F.toFormat site op key).Meets t (BytesPost F op t s)
      ((cachingAdapter F).getBytes key) s := by
  have hfetch : ∀ m, Later t s m →
      (stackProtocol F.toFormat site op key).Meets t (BytesPost F op t s)
      ((cachingAdapter F).fetchBytes key) m :=
    fun m hm => (meets_fetchBytes m).mono fun r d _ h => h.shift hm
  apply Protocol.Meets.bind
  apply (meets_readEntry s).mono
  rintro r m - ⟨hm, hentry⟩
  cases r with
  | none => exact hfetch m hm
  | some entry =>
    have hok := hentry entry rfl
    cases entry with
    | missing => exact meets_ret_bytes (.error _ hm)
    | bytes bytes etag =>
      cases etag with
      | none => exact hok.elim
      | some e =>
        obtain ⟨v, hv, hparse⟩ := hok
        apply Protocol.Meets.andThen (meets_headEtag m)
        · rintro head d hinv ⟨⟨hd, hy⟩, -⟩
          split_ifs with he
          · subst he
            obtain ⟨y, hyd, hye⟩ := hy e rfl
            have hheld := (hv.grow hd.held_isPrefix).heldFrom hinv.effective.noReturn htag hyd hye
            refine meets_ret_bytes ⟨hm.trans hd, fun b hb => ?_⟩
            cases hb
            exact ⟨v, hheld.weaken hm.held_length_le, hparse⟩
          · exact hfetch d (hm.trans hd)
        · rintro err d - ⟨⟨hd, -⟩, -⟩
          exact meets_ret_bytes (.error err (hm.trans hd))

theorem coherent_cached (htag : Function.Injective F.tag) :
    Coherent F site op key NoLateFirstFetch t (cached F.toFormat) where
  head s := by
    apply Protocol.Meets.bind
    apply (meets_readEntry s).mono
    rintro r m - ⟨hm, -⟩
    have hinner : (stackProtocol F.toFormat site op key).Meets t (HeadPost F op t s)
        (KernelCall.storage (.headEtag key)).issue m :=
      (meets_headEtag m).mono fun _ _ _ h => h.1.shift hm
    split
    · exact meets_ret ⟨hm, fun _ h => nomatch h⟩ fun _ hd h => h.grow hd
    · exact hinner
  read s := by
    apply Protocol.Meets.andThen (meets_getBytes htag s)
    · rintro bytes m - ⟨hm, hbytes⟩
      obtain ⟨v, hv, hparse⟩ := hbytes bytes rfl
      refine meets_ret ⟨hm, fun w hw => ?_⟩ fun _ hd h => h.grow hd
      rw [hparse w (F.parseJson_eq_ok.mp hw)]
      exact hv
    · rintro err m - ⟨hm, -⟩
      exact meets_ret ⟨hm, fun _ h => nomatch h⟩ fun _ hd h => ReadPost.grow h hd
  put v expected s h := by
    apply Protocol.Meets.andThen (meets_putJsonIfEtagMatches htag h)
    · intro status m _ hput
      cases status with
      | written e =>
        have hentry : EntryOk F (held op m) (.bytes (F.compact v) (some e)) :=
          ⟨v, hput.2, fun w hw => F.of_parse_compact hw⟩
        apply Protocol.Meets.bind
        apply (meets_writeEntry hentry).mono
        exact fun _ d _ hd => meets_ret (PutPost.grow hput hd) fun _ hd' h => h.grow hd'
      | conflict current =>
        apply Protocol.Meets.bind
        apply (meets_invalidateEntry m).mono
        exact fun _ d _ hd => meets_ret (Later.trans hput hd) fun _ hd' h => h.trans hd'
    · intro err m _ hput
      exact meets_ret hput fun _ hd h => PutPost.grow h hd

/-- The pool of thread stores over the caching adapters. -/
def stackPool (F : Format B E) (threadKey : String → Except String String)
    (showEtag : Option E → String) (threadId : String) (op : τ → ThreadOp) :
    Pool τ (Audited τ B E) (KernelCall B E) KernelCall.Answer Returned :=
  ThreadOp.start (ThreadStore.over (cached F) threadKey) showEtag threadId op

/-- The object holds a log with the step. -/
def StepStored (F : Format B E) (key : String) (step : ThreadStep) (s : Audited τ B E) : Prop :=
  ∃ log : ThreadLog, s.1.objects.get key = some (F.render log.toValue) ∧ step ∈ log.steps

omit [DecidableEq E] in
theorem Linearized.stored_step {p : Pool τ (Audited τ B E) (KernelCall B E) KernelCall.Answer Returned}
    (h : Linearized F op key p) {step : ThreadStep} (ht : t ∈ p.shared.2.commits)
    (hs : op t = .append step) : StepStored F key step p.shared := by
  refine ⟨replay op p.shared.2.commits, ?_, ?_⟩
  · rw [h.stored, if_neg (List.ne_nil_of_mem ht)]
  · rw [h.steps, List.mem_flatMap]
    exact ⟨t, ht, by rw [hs]; exact List.mem_singleton_self step⟩

variable {threadKey : String → Except String String} {threadId : String}
  {showEtag : Option E → String}

theorem stackPool_sound (htag : Function.Injective F.tag) (hkey : threadKey threadId = .ok key)
    {ls : List (τ × Option CoreError)}
    {p : Pool τ (Audited τ B E) (KernelCall B E) KernelCall.Answer Returned}
    (hguard : ((auditedWorld F site).machine Returned).Along
      (stackProtocol F.toFormat site op key).Allows
      (stackPool F.toFormat threadKey showEtag threadId op) ls)
    (hrun : ((auditedWorld F site).machine Returned).run
      (stackPool F.toFormat threadKey showEtag threadId op) ls = some p) :
    (stackProtocol F.toFormat site op key).Sound (fun t r m => OpPost op t Audited.init r m) p := by
  have h0 : (stackProtocol F.toFormat site op key).Sound (fun t r m => OpPost op t Audited.init r m)
      (stackPool F.toFormat threadKey showEtag threadId op) :=
    ⟨init_consistent, fun t => meets_program (coherent_cached htag) htag hkey showEtag _⟩
  exact h0.run hguard hrun

/-- In a run in which no late first fetch happens, the object stays the fold of the committed calls,
and a step whose append returned `Ok` is stored in every later state. -/
theorem cachedStack_keeps_steps (htag : Function.Injective F.tag)
    (hkey : threadKey threadId = .ok key) {ls ls' : List (τ × Option CoreError)}
    {p p' : Pool τ (Audited τ B E) (KernelCall B E) KernelCall.Answer Returned}
    (hguard : ((auditedWorld F site).machine Returned).Along
      (stackProtocol F.toFormat site op key).Allows
      (stackPool F.toFormat threadKey showEtag threadId op) ls)
    (hrun : ((auditedWorld F site).machine Returned).run
      (stackPool F.toFormat threadKey showEtag threadId op) ls = some p)
    (hguard' : ((auditedWorld F site).machine Returned).Along
      (stackProtocol F.toFormat site op key).Allows p ls')
    (hrun' : ((auditedWorld F site).machine Returned).run p ls' = some p') :
    Linearized F op key p' ∧ ∀ t step, op t = .append step →
      p.task t = .ret (.unit (.ok ())) → StepStored F key step p'.shared := by
  have hp := stackPool_sound htag hkey hguard hrun
  have hlin := linearized_of_sound (hp.run hguard' hrun')
  refine ⟨hlin, fun t step hs ht => ?_⟩
  have hone := (linearized_of_sound hp).appended t step _ hs ht rfl
  have hmem : t ∈ p.shared.2.commits := List.count_pos_iff.mp (by omega)
  exact hlin.stored_step ((run_grown F.toFormat site hrun').subset hmem) hs

/-- Two processes that append one after the other. -/
theorem cachedStack_keeps_steps_twoAppends :
    ∃ p, ((auditedWorld Format.plain twoProcesses).machine Returned).run
      (stackPool Format.plain .ok (fun _ => "") "thread" twoAppends)
      (turns true 7 ++ turns false 12) = some p ∧
    StepStored Format.plain "thread" (message "one") p.shared := by
  have hrun : (((auditedWorld Format.plain twoProcesses).machine Returned).run
      (stackPool Format.plain .ok (fun _ => "") "thread" twoAppends)
      (turns true 7 ++ turns false 12)).map (fun p => (p.task true).returned?) =
      some (some (.unit (.ok ()))) := by
    decide +kernel
  have hguard : ((auditedWorld Format.plain twoProcesses).machine Returned).Along
      (stackProtocol Format.plain twoProcesses twoAppends "thread").Allows
      (stackPool Format.plain .ok (fun _ => "") "thread" twoAppends)
      (turns true 7 ++ turns false 12) := by
    decide +kernel
  obtain ⟨p, hp, ht⟩ := Option.map_eq_some_iff.mp hrun
  have hnil :=
    Machine.run_nil ((auditedWorld Format.plain twoProcesses).machine Returned) p
  have hkept := cachedStack_keeps_steps Format.plain_tag_injective rfl hguard hp
    (Machine.along_nil _ _ p) hnil
  exact ⟨p, hp, hkept.2 true (message "one") rfl (Program.returned?_eq_some.mp ht)⟩

/-- A reader and a writer in one process, two writers in another. -/
def lateFetchOp : Fin 4 → ThreadOp
  | 0 => .get
  | 1 => .append (message "one")
  | 2 => .append (message "two")
  | 3 => .append (message "three")

def lateFetchSite (t : Fin 4) : Site := if t = 0 ∨ t = 3 then ⟨1, 1⟩ else ⟨2, 2⟩

/-- The reader asks for the etag of a missing object, the peer writes, and the reader fetches the
body; then the peer writes again and the first process appends. -/
def lateFetchSchedule : List (Fin 4 × Option CoreError) :=
  turns 0 4 ++ turns 1 7 ++ turns 0 2 ++ turns 2 8 ++ turns 3 10

def lateFetchLog : ThreadLog :=
  { ThreadLog.default with steps := [message "one", message "three"] }

/-- The append of the first process is built on the unchecked body and overwrites the second step,
whose append had returned `Ok`. -/
theorem cachedStack_loses_step :
    ∃ p, ((auditedWorld Format.plain lateFetchSite).machine Returned).run
      (stackPool Format.plain .ok (fun _ => "") "thread" lateFetchOp)
      lateFetchSchedule = some p ∧
    p.task 2 = .ret (.unit (.ok ())) ∧
    ¬ StepStored Format.plain "thread" (message "two") p.shared := by
  have hrun : (((auditedWorld Format.plain lateFetchSite).machine Returned).run
      (stackPool Format.plain .ok (fun _ => "") "thread" lateFetchOp)
      lateFetchSchedule).map
      (fun p => ((p.task 2).returned?, p.shared.1.objects.get "thread")) =
      some (some (.unit (.ok ())), some lateFetchLog.toValue) := by
    decide +kernel
  obtain ⟨p, hp, hq⟩ := Option.map_eq_some_iff.mp hrun
  rw [Prod.mk.injEq] at hq
  refine ⟨p, hp, Program.returned?_eq_some.mp hq.1, ?_⟩
  rintro ⟨log, hlog, hmem⟩
  rw [hq.2] at hlog
  have hsteps := (ThreadLog.alike_iff.mp (Option.some.inj hlog)).steps
  have hvalue := List.mem_map_of_mem (f := ThreadStep.toValue) hmem
  rw [← hsteps] at hvalue
  have habsent : (message "two").toValue ∉ lateFetchLog.steps.map ThreadStep.toValue := by
    decide +kernel
  exact habsent hvalue

end ReactRuntime.Session
