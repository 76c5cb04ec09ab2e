import ReactRuntime.Feedback.Listings

/-!
# Runs of feedback clients

Each operation keeps the promises whatever the others do, so their effects add up over every
interleaving: records are never lost or altered, and a resolution is permanent once its submitter
has its answer.
-/
namespace ReactRuntime.Feedback
open Library Serde ReactRuntime.Core Storage

variable {τ B E : Type} [DecidableEq E] {F : ExactFormat B E} {scope : RequestScope}
  {op : τ → FeedbackOp B E} {retired : τ → Prop} {t : τ} {s m : Objects B}

section Posts
variable (F scope op retired)

/-- A record that was looked up by its id, from `s` on. -/
structure Found (feedbackId : String) (s m : Objects B) (found : Option ThreadFeedback) : Prop where
  absent : found = none → ∀ u b, (op u).submission? = some b → SafeSegment b.threadId →
    b.feedbackId = feedbackId → s.get (b.key scope) = none
  present : ∀ f, found = some f → f.feedbackId = feedbackId ∧ ∃ u b,
    (op u).submission? = some b ∧ SafeSegment b.threadId ∧ IsVersion b f ∧
      (retired u → f.resolved = true → Resolved F.toFormat scope b m)

/-- What the operation `o` may return at `m`, having begun at `s`. -/
def Post (o : FeedbackOp B E) (s : Objects B) (r : FeedbackAnswer) (m : Objects B) : Prop :=
  match o, r with
  | .submit .., .submitted (.ok f) => o.submission? = some f ∧ SafeSegment f.threadId ∧
      (m.get (f.key scope)).isSome
  | .listAll, .listed (.ok fs) => fs.Pairwise (fun f g => g.createdAt ≤ f.createdAt) ∧
      Listing F.toFormat scope op retired (fun _ => True) s fs
  | .listForThread threadId, .listed (.ok fs) =>
      fs.Pairwise (fun f g => g.createdAt ≤ f.createdAt) ∧
      Listing F.toFormat scope op retired (fun b => b.threadId = threadId) s fs
  | .getById feedbackId, .found (.ok found) => Found F scope op retired feedbackId s m found
  | .markResolved _ feedbackId, .found (.ok found) => Found F scope op retired feedbackId s m found ∧
      ∀ f, found = some f → f.resolved = true
  | .getDiagnostics threadId feedbackId, .diagnostics (.ok (some d)) =>
      ∃ u now f payload, op u = .submitDiagnostics now f payload ∧ f.threadId = threadId ∧
        f.feedbackId = feedbackId ∧ d = ⟨feedbackId, threadId, now, payload⟩
  | _, _ => True

end Posts

theorem inFeedback_thread {threadId key : String} (ht : SafeSegment threadId)
    (hkey : (scopedPrefix scope ["feedback", threadId]).toList <+: key.toList) :
    InFeedback scope key := by
  have hfeedback : ∀ seg ∈ ([] : List String) ++ ["feedback"], '/' ∉ seg.toList := by decide
  have hsegments : ∀ seg ∈ ["feedback", threadId], '/' ∉ seg.toList := by simp [ht.no_slash]
  have hiff := @scopedPrefix_isPrefix_iff scope _ _ _ hfeedback (by decide) hsegments
  have hbelow := hiff.mpr ⟨threadId, [], rfl⟩
  exact (hbelow.trans (scopedKey_isPrefix scope _)).trans hkey

omit [DecidableEq E] in
theorem Listing.perm {belongs : ThreadFeedback → Prop} {fs gs : List ThreadFeedback}
    (h : Listing F.toFormat scope op retired belongs s fs) (hperm : gs.Perm fs) :
    Listing F.toFormat scope op retired belongs s gs where
  submitted f hf := h.submitted f (hperm.mem_iff.mp hf)
  nodup := ((hperm.map _).nodup_iff).mpr h.nodup
  complete u b hb hthread hbel hsome := by
    obtain ⟨f, hf, hversion⟩ := h.complete u b hb hthread hbel hsome
    exact ⟨f, hperm.mem_iff.mpr hf, hversion⟩

/-- Load what lies below a prefix. -/
theorem respects_loadPrefix {belongs : ThreadFeedback → Prop} {pre : String}
    (hclients : Clients scope op)
    (hpre : ∀ key : String, pre.toList <+: key.toList → InFeedback scope key)
    (hbelongs : ∀ u b, (op u).submission? = some b → SafeSegment b.threadId →
      (pre.toList <+: (b.key scope).toList ↔ belongs b)) (s : Objects B) :
    (feedbackPromises F scope op).Respects retired t
      (fun r m => ∀ fs, r = .ok fs → Listing F.toFormat scope op retired belongs s fs ∧
        ∀ f ∈ fs, Seen F scope op retired t s m f)
      (ThreadFeedbackStore.loadPrefix ⟨direct, scope⟩ pre) s := by
  refine Promises.Respects.andThen
    (respects_read (c := .listPrefix pre) rfl (Respectful.refl t) s) ?_ ?_
  · rintro keys m - ⟨hm, hkeys⟩
    obtain ⟨o, hso, -, -, ho⟩ := hkeys keys rfl
    have heq : o.keys.filter pre.isPrefixOf = keys := Except.ok.inj ho
    refine (respects_loadKeys keys (fun key hkey => hpre key ?_) hm).mono ?_
    · rw [← heq, List.mem_filter, String.isPrefixOf, String.startsWith_string_iff] at hkey
      exact hkey.2
    · rintro r m' - ⟨-, hr⟩ fs hfs
      obtain ⟨hmap, hseen⟩ := hr fs hfs
      rw [← heq] at hmap
      exact ⟨listing_of_seen hclients hbelongs hso hmap hseen, hseen⟩
  · rintro e m - -
    refine Promises.Respects.ret fun _ _ _ fs hfs => ?_
    cases hfs

theorem respects_loadAll (hclients : Clients scope op) (s : Objects B) :
    (feedbackPromises F scope op).Respects retired t
      (fun r m => ∀ fs, r = .ok fs → Listing F.toFormat scope op retired (fun _ => True) s fs ∧
        ∀ f ∈ fs, Seen F scope op retired t s m f)
      (ThreadFeedbackStore.loadPrefix ⟨direct, scope⟩ (feedbackPrefix scope)) s :=
  respects_loadPrefix hclients (fun _ h => h) (fun _ _ hb hthread =>
    ⟨fun _ => trivial, fun _ => (inFeedback_record hclients hb hthread).1⟩) s

theorem respects_listAll (hclients : Clients scope op) (s : Objects B) :
    (feedbackPromises F scope op).Respects retired t
      (fun r _ => ∀ fs, r = .ok fs → fs.Pairwise (fun f g => g.createdAt ≤ f.createdAt) ∧
        Listing F.toFormat scope op retired (fun _ => True) s fs)
      (ThreadFeedbackStore.listAll ⟨direct, scope⟩) s := by
  refine Promises.Respects.andThen (respects_loadAll hclients s) ?_ ?_
  · intro fs m _ hfs
    refine Promises.Respects.ret fun _ _ _ gs hgs => ?_
    cases hgs
    exact ⟨pairwise_newestFirst fs, (hfs fs rfl).1.perm (newestFirst_perm fs)⟩
  · exact fun e m _ _ => Promises.Respects.ret fun _ _ _ fs hfs => nomatch hfs

theorem respects_listForThread (hclients : Clients scope op) (threadId : String)
    (s : Objects B) :
    (feedbackPromises F scope op).Respects retired t
      (fun r _ => ∀ fs, r = .ok fs → fs.Pairwise (fun f g => g.createdAt ≤ f.createdAt) ∧
        Listing F.toFormat scope op retired (fun b => b.threadId = threadId) s fs)
      (ThreadFeedbackStore.listForThread ⟨direct, scope⟩ threadId) s := by
  rw [ThreadFeedbackStore.listForThread]
  cases hpre : threadFeedbackPrefix scope threadId with
  | error e => exact Promises.Respects.ret fun _ _ _ fs hfs => nomatch hfs
  | ok pre =>
    obtain ⟨ht, rfl⟩ : SafeSegment threadId ∧
        scopedPrefix scope ["feedback", threadId] = pre := by
      simpa [threadFeedbackPrefix, ensureSafe_bind, pure, Except.pure] using hpre
    refine Promises.Respects.andThen (respects_loadPrefix hclients
      (fun key hkey => inFeedback_thread ht hkey) (fun u b hb hthread =>
        threadPrefix_isPrefix_iff hthread ht (hclients.uuid u b hb).safe) s) ?_ ?_
    · intro fs m _ hfs
      refine Promises.Respects.ret fun _ _ _ gs hgs => ?_
      cases hgs
      exact ⟨pairwise_newestFirst fs, (hfs fs rfl).1.perm (newestFirst_perm fs)⟩
    · exact fun e m _ _ => Promises.Respects.ret fun _ _ _ fs hfs => nomatch hfs

theorem Found.later {feedbackId : String} {m' : Objects B} {found : Option ThreadFeedback}
    (h : Found F scope op retired feedbackId s m found)
    (hr : (feedbackPromises F scope op).Rely retired t m m') :
    Found F scope op retired feedbackId s m' found where
  absent := h.absent
  present f hf := by
    obtain ⟨hid, u, b, hb, hthread, hversion, hresolved⟩ := h.present f hf
    exact ⟨hid, u, b, hb, hthread, hversion, fun hu hf => (hresolved hu hf).kept hb hu hr⟩

theorem respects_getById (hclients : Clients scope op) (feedbackId : String) (s : Objects B) :
    (feedbackPromises F scope op).Respects retired t
      (fun r m => ∀ found, r = .ok found → Found F scope op retired feedbackId s m found)
      (ThreadFeedbackStore.getById ⟨direct, scope⟩ feedbackId) s := by
  refine Promises.Respects.andThen (respects_loadAll hclients s) ?_ ?_
  · intro fs m _ hfs
    refine Promises.Respects.ret fun m' hm _ found hfound => ?_
    cases hfound
    obtain ⟨hlisting, hseen⟩ := hfs fs rfl
    refine Found.later ⟨fun hnone u b hb hthread hid => ?_, fun f hf => ?_⟩ hm
    · by_contra hstored
      obtain ⟨f, hf, hversion⟩ := hlisting.complete u b hb hthread trivial
        (Option.isSome_iff_ne_none.mpr hstored)
      have hother := List.find?_eq_none.mp hnone f hf
      rw [hversion.feedbackId, hid] at hother
      exact hother (by simp)
    · obtain ⟨u, b, o, hb, hthread, hversion, -, hom, hget⟩ := hseen f (List.mem_of_find?_eq_some hf)
      refine ⟨by simpa using List.find?_some hf, u, b, hb, hthread, hversion, fun hu hresolved => ?_⟩
      have hkey : f.key scope = b.key scope := hversion.record_key
      exact Resolved.kept ⟨hthread, f, hversion, hresolved, hkey ▸ hget⟩ hb hu hom
  · exact fun e m _ _ => Promises.Respects.ret fun _ _ _ found hfound => nomatch hfound

/-- Write a version of a submission at its key. -/
theorem respects_write {u : τ} {b f : ThreadFeedback} (hclients : Clients scope op)
    (hb : (op u).submission? = some b) (hthread : SafeSegment b.threadId) (hf : IsVersion b f)
    (hwho : u = t ∨ f.resolved = true) (s : Objects B) :
    (feedbackPromises F scope op).Respects retired t
      (fun r m => r = .ok () → (m.get (b.key scope)).isSome = true ∧
        (retired u → f.resolved = true → Resolved F.toFormat scope b m))
      (ThreadFeedbackStore.write ⟨direct, scope⟩ f) s := by
  have hkey : threadFeedbackKey scope f.threadId f.feedbackId = .ok (b.key scope) := by
    rw [hf.threadId, hf.feedbackId]
    exact threadFeedbackKey_eq_ok.mpr ⟨hthread, (hclients.uuid u b hb).safe, rfl⟩
  rw [ThreadFeedbackStore.write, hkey]
  refine (respects_call (c := .putJson (b.key scope) f.toValue) (I := fun _ => True)
    (Q := fun _ m => (m.get (b.key scope)).isSome = true ∧
      (retired u → f.resolved = true → Resolved F.toFormat scope b m))
    (Respectful.refl t) (fun _ _ _ _ _ => trivial) ?_ ?_ trivial).mono
      fun r m _ hm hr => hm.2 () hr
  · exact fun _ a a' hr _ ha => ⟨present_kept hclients hb hthread hr ha.1,
      fun hu hf => (ha.2 hu hf).kept hb hu hr⟩
  · intro a ha _
    obtain ⟨hinv, hg⟩ := put_record hclients hb hthread hf hwho ha
    refine ⟨hinv, hg, trivial, fun _ _ => ⟨?_, fun _ hresolved => ⟨hthread, f, hf, hresolved, ?_⟩⟩⟩
    · rw [Format.serve, SortedMap.get_insert, if_pos rfl]
      rfl
    · rw [Format.serve, SortedMap.get_insert, if_pos rfl]

theorem respects_markResolved (hclients : Clients scope op) (now feedbackId : String)
    (s : Objects B) :
    (feedbackPromises F scope op).Respects retired t
      (fun r m => ∀ found, r = .ok found → Found F scope op retired feedbackId s m found ∧
        ∀ f, found = some f → f.resolved = true)
      (ThreadFeedbackStore.markResolved ⟨direct, scope⟩ now feedbackId) s := by
  refine Promises.Respects.andThen (respects_getById hclients feedbackId s) ?_ ?_
  · intro found m hi hfound
    have hlooked := hfound found rfl
    cases found with
    | none =>
      refine Promises.Respects.ret fun m' hm _ found' hfound' => ?_
      cases hfound'
      exact ⟨hlooked.later hm, fun f hf => nomatch hf⟩
    | some feedback =>
      obtain ⟨hid, u, b, hb, hthread, hversion, -⟩ := hlooked.present feedback rfl
      by_cases hresolved : feedback.resolved = true
      · simp only [if_pos hresolved]
        refine Promises.Respects.ret fun m' hm _ found' hfound' => ?_
        cases hfound'
        refine ⟨hlooked.later hm, fun f hf => ?_⟩
        cases hf
        exact hresolved
      · simp only [if_neg hresolved]
        refine Promises.Respects.andThen
          (respects_write hclients hb hthread (hversion.resolve now) (.inr rfl) m) ?_ ?_
        · intro _ m₁ _ hput
          refine Promises.Respects.ret fun m₂ hm₂ _ found' hfound' => ?_
          cases hfound'
          have hstored := (hput rfl).2
          refine ⟨Found.later ⟨fun h => (nomatch h), fun f hf => ?_⟩ hm₂, fun f hf => ?_⟩
          · cases hf
            exact ⟨hid, u, b, hb, hthread, hversion.resolve now, hstored⟩
          · cases hf
            rfl
        · exact fun e m₁ _ _ => Promises.Respects.ret fun _ _ _ found' hfound' => nomatch hfound'
  · exact fun e m _ _ => Promises.Respects.ret fun _ _ _ found hfound => nomatch hfound

theorem respects_ensureThreadExists (threadId : String) (s : Objects B) :
    (feedbackPromises F scope op).Respects retired t
      (fun r _ => r = .ok () → SafeSegment threadId)
      (ThreadFeedbackStore.ensureThreadExists ⟨direct, scope⟩ threadId) s := by
  rw [ThreadFeedbackStore.ensureThreadExists]
  cases hkey : threadKey scope threadId with
  | error e =>
    refine Promises.Respects.ret fun _ _ _ h => ?_
    cases h
  | ok key =>
    have hsafe : SafeSegment threadId := by
      rw [threadKey] at hkey
      exact (ensureSafe_bind.mp hkey).1
    refine Promises.Respects.andThen
      (respects_read (c := .headEtag key) rfl (Respectful.refl t) s) ?_ ?_
    · intro etag m _ _
      cases etag <;> exact Promises.Respects.ret fun _ _ _ _ => hsafe
    · refine fun e m _ _ => Promises.Respects.ret fun _ _ _ h => ?_
      cases h

theorem respects_submit {feedbackId now threadId comment : String}
    {verdict : ThreadFeedbackVerdict} (hclients : Clients scope op)
    (hop : op t = .submit feedbackId now threadId verdict comment) (s : Objects B) :
    (feedbackPromises F scope op).Respects retired t
      (fun r m => ∀ f, r = .ok f → (op t).submission? = some f ∧ SafeSegment f.threadId ∧
        (m.get (f.key scope)).isSome = true)
      (ThreadFeedbackStore.submit ⟨direct, scope⟩ feedbackId now threadId verdict comment) s := by
  rw [ThreadFeedbackStore.submit]
  cases hcomment : normalizeComment comment with
  | error e => exact Promises.Respects.ret fun _ _ _ f hf => nomatch hf
  | ok text =>
    have hb : (op t).submission? = some ⟨feedbackId, threadId, verdict, text, now, false, none⟩ := by
      rw [hop, FeedbackOp.submission?, hcomment]
      rfl
    refine Promises.Respects.andThen (respects_ensureThreadExists threadId s) ?_ ?_
    · intro _ m _ hsafe
      have hthread : SafeSegment threadId := hsafe rfl
      refine Promises.Respects.andThen (respects_write hclients hb hthread
        (FeedbackOp.isVersion_submission hb) (.inl rfl) m) ?_ ?_
      · intro _ m₁ _ hput
        refine Promises.Respects.ret fun m₂ hm₂ _ f hf => ?_
        cases hf
        exact ⟨hb, hthread, present_kept hclients hb hthread hm₂ (hput rfl).1⟩
      · exact fun e m₁ _ _ => Promises.Respects.ret fun _ _ _ f hf => nomatch hf
    · exact fun e m _ _ => Promises.Respects.ret fun _ _ _ f hf => nomatch hf

theorem respects_submitDiagnostics {now : String} {feedback : ThreadFeedback} {payload : Json}
    (hclients : Clients scope op) (hop : op t = .submitDiagnostics now feedback payload)
    (s : Objects B) :
    (feedbackPromises F scope op).Respects retired t (fun _ _ => True)
      (ThreadFeedbackStore.submitDiagnostics ⟨direct, scope⟩ now feedback payload) s := by
  rw [ThreadFeedbackStore.submitDiagnostics]
  cases hkey : threadFeedbackDiagnosticsKey scope feedback.threadId feedback.feedbackId with
  | error e => exact Promises.Respects.ret fun _ _ _ => trivial
  | ok key =>
    refine Promises.Respects.andThen (R := fun _ _ => True) ?_
      (fun _ _ _ _ => Promises.Respects.ret fun _ _ _ => trivial)
      (fun _ _ _ _ => Promises.Respects.ret fun _ _ _ => trivial)
    refine (respects_call (c := .putJson key _) (I := fun _ => True) (Q := fun _ _ => True)
      (Respectful.refl t) (fun _ _ _ _ _ => trivial) (fun _ _ _ _ _ _ => trivial)
      (fun a ha _ => ?_) trivial).mono fun _ _ _ _ => trivial
    obtain ⟨hinv, hg⟩ := put_diagnostics hclients hop hkey ha
    exact ⟨hinv, hg, trivial, fun _ _ => trivial⟩

/-- Stored diagnostics are read back as they were submitted. -/
theorem get_diagnostics {threadId feedbackId : String} {v : Json} (hkept : Kept F scope op s)
    (hthread : SafeSegment threadId) (hid : SafeSegment feedbackId)
    (hv : (F.serve s (.getJson (scopedKey scope
      ["feedback", threadId, feedbackId ++ ".diagnostics.json"]))).2 = .ok v) :
    ∃ u now f payload, op u = .submitDiagnostics now f payload ∧ f.threadId = threadId ∧
      f.feedbackId = feedbackId ∧
      v = ThreadFeedbackDiagnostics.toValue ⟨feedbackId, threadId, now, payload⟩ := by
  have hslash {t f : String} (ht : SafeSegment t) (hf : SafeSegment f) :
      ∀ seg ∈ ["feedback", t, f ++ ".diagnostics.json"], '/' ∉ seg.toList :=
    no_slash_names ht hf (by decide)
  cases hget : s.get (scopedKey scope
      ["feedback", threadId, feedbackId ++ ".diagnostics.json"]) with
  | none =>
    rw [Format.serve, hget] at hv
    cases hv
  | some bytes =>
    obtain ⟨u, now, f, payload, hop, hkey, rfl⟩ := hkept.diagnostics _ bytes hget
      (inFeedback_key hthread hid (by decide)) isRecordKey_diagnostics
    obtain ⟨hft, hfid, hkey⟩ := threadFeedbackDiagnosticsKey_eq_ok.mp hkey
    have hnames := (scopedKey_inj (hslash hft hfid) (hslash hthread hid)).mp hkey
    obtain ⟨hthreads, hids⟩ : f.threadId = threadId ∧ f.feedbackId = feedbackId := by
      simpa using hnames
    rw [Format.serve, hget] at hv
    refine ⟨u, now, f, payload, hop, hthreads, hids, ?_⟩
    rw [F.of_parse_render (F.parseJson_eq_ok.mp hv), hthreads, hids]

/-- What is stored under the key of diagnostics was submitted for the same feedback. -/
theorem respects_getDiagnostics (threadId feedbackId : String) (s : Objects B) :
    (feedbackPromises F scope op).Respects retired t
      (fun r _ => ∀ d, r = .ok (some d) → ∃ u now f payload,
        op u = .submitDiagnostics now f payload ∧ f.threadId = threadId ∧
        f.feedbackId = feedbackId ∧ d = ⟨feedbackId, threadId, now, payload⟩)
      (ThreadFeedbackStore.getDiagnostics ⟨direct, scope⟩ threadId feedbackId) s := by
  rw [ThreadFeedbackStore.getDiagnostics]
  cases hkey : threadFeedbackDiagnosticsKey scope threadId feedbackId with
  | error e => exact Promises.Respects.ret fun _ _ _ d hd => nomatch hd
  | ok key =>
    obtain ⟨hthread, hid, rfl⟩ := threadFeedbackDiagnosticsKey_eq_ok.mp hkey
    refine Promises.Respects.andThen
      (respects_read (c := .headEtag _) rfl (Respectful.refl t) s) ?_ ?_
    · intro etag m _ _
      cases etag with
      | none => exact Promises.Respects.ret fun _ _ _ d hd => nomatch hd
      | some e =>
        refine Promises.Respects.andThen
          (respects_read (c := .getJson _) rfl (Respectful.refl t) m) ?_ ?_
        · rintro v m₁ - ⟨-, hv⟩
          obtain ⟨o, -, -, hkept, ho⟩ := hv v rfl
          obtain ⟨u, now, f, payload, hop, hft, hfid, rfl⟩ := get_diagnostics hkept hthread hid ho
          rw [ThreadFeedbackDiagnostics.fromValue_toValue]
          refine Promises.Respects.ret fun m₂ _ _ d hd => ?_
          cases hd
          exact ⟨u, now, f, payload, hop, hft, hfid, rfl⟩
        · exact fun e m₁ _ _ => Promises.Respects.ret fun _ _ _ d hd => nomatch hd
    · exact fun e m _ _ => Promises.Respects.ret fun _ _ _ d hd => nomatch hd

theorem respects_program (hclients : Clients scope op) {o : FeedbackOp B E} (ho : op t = o)
    (s : Objects B) :
    (feedbackPromises F scope op).Respects retired t (Post F scope op retired o s)
      (o.program scope) s := by
  cases o with
  | submit feedbackId now threadId verdict comment =>
    apply Promises.Respects.bind
    apply Promises.Respects.mono ?_ (respects_submit hclients ho s)
    rintro r m - hr
    refine Promises.Respects.ret fun m' hm _ => ?_
    cases r with
    | error e => trivial
    | ok f =>
      have hf := hr f rfl
      exact ⟨ho ▸ hf.1, hf.2.1, present_kept hclients hf.1 hf.2.1 hm hf.2.2⟩
  | listAll =>
    apply Promises.Respects.bind
    apply Promises.Respects.mono ?_ (respects_listAll hclients s)
    rintro r m - hr
    refine Promises.Respects.ret fun m' _ _ => ?_
    cases r with
    | error e => trivial
    | ok fs => exact hr fs rfl
  | listForThread threadId =>
    apply Promises.Respects.bind
    apply Promises.Respects.mono ?_ (respects_listForThread hclients threadId s)
    rintro r m - hr
    refine Promises.Respects.ret fun m' _ _ => ?_
    cases r with
    | error e => trivial
    | ok fs => exact hr fs rfl
  | getById feedbackId =>
    apply Promises.Respects.bind
    apply Promises.Respects.mono ?_ (respects_getById hclients feedbackId s)
    rintro r m - hr
    refine Promises.Respects.ret fun m' hm _ => ?_
    cases r with
    | error e => trivial
    | ok found => exact (hr found rfl).later hm
  | markResolved now feedbackId =>
    apply Promises.Respects.bind
    apply Promises.Respects.mono ?_ (respects_markResolved hclients now feedbackId s)
    rintro r m - hr
    refine Promises.Respects.ret fun m' hm _ => ?_
    cases r with
    | error e => trivial
    | ok found => exact ⟨(hr found rfl).1.later hm, (hr found rfl).2⟩
  | submitDiagnostics now feedback payload =>
    apply Promises.Respects.bind
    apply Promises.Respects.mono ?_ (respects_submitDiagnostics hclients ho s)
    exact fun r m _ _ => Promises.Respects.ret fun m' _ _ => trivial
  | getDiagnostics threadId feedbackId =>
    apply Promises.Respects.bind
    apply Promises.Respects.mono ?_ (respects_getDiagnostics threadId feedbackId s)
    rintro r m - hr
    refine Promises.Respects.ret fun m' _ _ => ?_
    match r, hr with
    | .error e, _ => trivial
    | .ok none, _ => trivial
    | .ok (some d), hr => exact hr d rfl
  | other p =>
    apply Promises.Respects.bind
    apply Promises.Respects.mono ?_ (respects_of_makes (hclients.others t p ho)
      (Respectful.refl t) (fun c hc m hi => ?_) s)
    · exact fun r m _ _ => Promises.Respects.ret fun m' _ _ => trivial
    · have hframe (key : String) (hin : InFeedback scope key) :
          (F.serve m c).1.get key = m.get key :=
        get_serve_of_ne fun hkey => hc key hkey hin
      exact ⟨kept_of_frame hframe hi, respectful_of_frame hclients hframe⟩

/-- All clients at their start. -/
def feedbackPool (scope : RequestScope) (op : τ → FeedbackOp B E) (objects : Objects B) :
    Pool τ (Objects B) (StorageCall B E) StorageCall.Answer FeedbackAnswer :=
  ⟨objects, fun t => (op t).program scope⟩

/-! A feedback that is submitted, resolved and listed, on concrete documents. -/

def reportedOp : Fin 3 → FeedbackOp Json Json
  | 0 => .submit "f1" "09:00" "t1" .bad " wrong table "
  | 1 => .markResolved "10:00" "f1"
  | 2 => .listAll

def reported : ThreadFeedback := ⟨"f1", "t1", .bad, "wrong table", "09:00", false, none⟩

/-- The store of a scope with one thread. -/
def oneThread : Objects Json := SortedMap.empty.insert "t/w/p/threads/t1.json" (.obj [])

def reportedPool : Pool (Fin 3) (Objects Json) (StorageCall Json Json) StorageCall.Answer
    FeedbackAnswer :=
  feedbackPool ObjectKey.smallScope reportedOp oneThread

/-- `n` answered calls of one client. -/
def answeredCalls (t : Fin 3) (n : Nat) : List (Fin 3 × Delivery) := List.replicate n (t, .answered)

def FeedbackAnswer.listing? : FeedbackAnswer → Option (List ThreadFeedback)
  | .listed (.ok fs) => some fs
  | _ => none

theorem FeedbackAnswer.listing?_eq_some {a : FeedbackAnswer} {fs : List ThreadFeedback} :
    a.listing? = some fs ↔ a = .listed (.ok fs) := by
  unfold listing?
  split <;> simp_all

abbrev reportedMachine := (objectWorld Format.plain (Fin 3)).machine FeedbackAnswer

theorem reported_submission : (reportedOp 0).submission? = some reported := by
  decide +kernel

theorem reported_clients : Clients ObjectKey.smallScope reportedOp := by
  have honly {t : Fin 3} {b : ThreadFeedback} (h : (reportedOp t).submission? = some b) :
      t = 0 ∧ b = reported := by
    match t, h with
    | 0, h => exact ⟨rfl, Option.some.inj (h.symm.trans reported_submission)⟩
    | 1, h => cases h
    | 2, h => cases h
  refine ⟨fun t b hb => ?_, fun t u b c hb hc _ => (honly hb).1.trans (honly hc).1.symm,
    fun t p hp => ?_⟩
  · rw [(honly hb).2]
    exact ⟨ensureSafeScopeSegment_eq_ok.mp (show ensureSafeScopeSegment "feedback_id" "f1" = .ok ()
      by decide +kernel), by decide⟩
  · match t, hp with
    | 0, hp => cases hp
    | 1, hp => cases hp
    | 2, hp => cases hp

theorem oneThread_fresh (key : String) (h : InFeedback ObjectKey.smallScope key) :
    oneThread.get key = none := by
  have hne : key ≠ "t/w/p/threads/t1.json" := by
    rintro rfl
    exact absurd h (by decide +kernel)
  rw [oneThread, SortedMap.get_insert, if_neg hne]
  rfl

section Runs
variable [DecidableEq τ]

variable {objects : Objects B} {ls ls' ls'' : List (τ × Delivery)}
  {p q r : Pool τ (Objects B) (StorageCall B E) StorageCall.Answer FeedbackAnswer}

/-- The parties that have returned. -/
def Returned (p : Pool τ (Objects B) (StorageCall B E) StorageCall.Answer FeedbackAnswer) (t : τ) :
    Prop := ∃ a, p.task t = .ret a

omit [DecidableEq τ] in
theorem sound_start (hclients : Clients scope op)
    (hfresh : ∀ key, InFeedback scope key → objects.get key = none) :
    (feedbackPromises F scope op).Sound (fun _ => False) (fun t => Post F scope op (fun _ => False) (op t) objects)
      (feedbackPool scope op objects) where
  inv := ⟨fun key bytes hget hin _ => absurd ((hfresh key hin).symm.trans hget) (by simp),
    fun key bytes hget hin _ => absurd ((hfresh key hin).symm.trans hget) (by simp)⟩
  tasks t := respects_program hclients rfl objects
  returned _ h := h.elim

/-- From a state on, what has returned is retired; a party that begins there is held to what it
returns from there on. -/
theorem sound_from (hclients : Clients scope op)
    {Q : τ → FeedbackAnswer → Objects B → Prop}
    (h : (feedbackPromises F scope op).Sound (fun _ => False) Q p)
    (hstart : p.task t = (op t).program scope) :
    (feedbackPromises F scope op).Sound (Returned p)
      (fun u => if u = t then Post F scope op (Returned p) (op t) p.shared else Q u) p := by
  refine h.retire (fun _ hu => hu.elim) (fun u hu => hu) fun u => ?_
  by_cases hu : u = t
  · subst hu
    right
    rw [if_pos rfl, hstart]
    exact respects_program hclients rfl p.shared
  · left
    rw [if_neg hu]

theorem post_from (hclients : Clients scope op)
    {Q : τ → FeedbackAnswer → Objects B → Prop}
    (h : (feedbackPromises F scope op).Sound (fun _ => False) Q p)
    (hstart : p.task t = (op t).program scope)
    (hrun : ((objectWorld F τ).machine FeedbackAnswer).run p ls = some q) {a : FeedbackAnswer}
    (hret : q.task t = .ret a) : Post F scope op (Returned p) (op t) p.shared a q.shared := by
  have hpost := ((sound_from hclients h hstart).run hrun).post hret
  rwa [if_pos rfl] at hpost

/-- A listing that begins after a submission has succeeded names that feedback, exactly once, and
as resolved if it was. -/
theorem feedback_listing_complete (hclients : Clients scope op)
    (hfresh : ∀ key, InFeedback scope key → objects.get key = none)
    (hrun : ((objectWorld F τ).machine FeedbackAnswer).run (feedbackPool scope op objects) ls =
      some p)
    (hrun' : ((objectWorld F τ).machine FeedbackAnswer).run p ls' = some q) {t u : τ}
    {b : ThreadFeedback} {fs : List ThreadFeedback}
    (hu : p.task u = .ret (.submitted (.ok b))) (hsubmit : (op u).submission?.isSome)
    (hop : op t = .listAll ∨ op t = .listForThread b.threadId)
    (hstart : p.task t = (op t).program scope) (hret : q.task t = .ret (.listed (.ok fs))) :
    (fs.map ThreadFeedback.feedbackId).count b.feedbackId = 1 ∧ ∃ f ∈ fs, IsVersion b f ∧
      (Resolved F.toFormat scope b p.shared → f.resolved = true) ∧
      ∀ g ∈ fs, g.feedbackId = b.feedbackId → g = f := by
  have hsound := (sound_start hclients hfresh).run hrun
  have hsubmitted : (op u).submission? = some b ∧ SafeSegment b.threadId ∧
      (p.shared.get (b.key scope)).isSome := by
    have hpost := hsound.post hu
    cases hopu : op u with
    | submit =>
      rw [hopu] at hpost
      exact hpost
    | _ => simp [hopu, FeedbackOp.submission?] at hsubmit
  obtain ⟨hb, hthread, hstored⟩ := hsubmitted
  have hpost := post_from hclients hsound hstart hrun' hret
  have hlisting : ∃ belongs : ThreadFeedback → Prop, belongs b ∧
      Listing F.toFormat scope op (Returned p) belongs p.shared fs := by
    rcases hop with hop | hop
    · rw [hop] at hpost
      exact ⟨_, trivial, hpost.2⟩
    · rw [hop] at hpost
      exact ⟨fun c => c.threadId = b.threadId, rfl, hpost.2⟩
  obtain ⟨belongs, hbel, hlisting⟩ := hlisting
  obtain ⟨f, hf, hversion⟩ := hlisting.complete u b hb hthread hbel hstored
  have hsame (g : ThreadFeedback) (hg : g ∈ fs) (hid : g.feedbackId = b.feedbackId) : g = f :=
    List.inj_on_of_nodup_map hlisting.nodup hg hf (hid.trans hversion.feedbackId.symm)
  have hcount : (fs.map ThreadFeedback.feedbackId).count b.feedbackId = 1 :=
    List.count_eq_one_of_mem hlisting.nodup (List.mem_map.mpr ⟨f, hf, hversion.feedbackId⟩)
  refine ⟨hcount, f, hf, hversion, fun hresolved => ?_, hsame⟩
  obtain ⟨v, c, hc, -, hcf, -, himplies⟩ := hlisting.submitted f hf
  obtain rfl : v = u := hclients.distinct v u c b hc hb
    (hcf.feedbackId.symm.trans hversion.feedbackId)
  obtain rfl : c = b := Option.some.inj (hc.symm.trans hb)
  exact himplies ⟨_, hu⟩ hresolved

theorem feedback_listing_complete_reported :
    ∃ fs : List ThreadFeedback, (fs.map ThreadFeedback.feedbackId).count "f1" = 1 ∧
      ∃ f ∈ fs, IsVersion reported f ∧ ∀ g ∈ fs, g.feedbackId = "f1" → g = f := by
  have hrun : (reportedMachine.run reportedPool (answeredCalls 0 2)).any (fun p =>
      (p.task 0).returned? = some (.submitted (.ok reported)) ∧
        (reportedMachine.run p (answeredCalls 2 2)).any fun q =>
          ((q.task 2).returned?.bind FeedbackAnswer.listing?).isSome) = true := by
    decide +kernel
  obtain ⟨p, hp, hrest⟩ := (Option.any_eq_true _ _).mp hrun
  obtain ⟨hu, hlater⟩ := of_decide_eq_true hrest
  obtain ⟨q, hq, hlisted⟩ := (Option.any_eq_true _ _).mp hlater
  obtain ⟨fs, hfs⟩ := Option.isSome_iff_exists.mp hlisted
  obtain ⟨a, ha, hlisting⟩ := Option.bind_eq_some_iff.mp hfs
  obtain ⟨hcount, f, hf, hversion, -, honly⟩ := feedback_listing_complete reported_clients
    oneThread_fresh hp hq (Program.returned?_eq_some.mp hu) (by decide +kernel) (.inl rfl)
    (World.task_of_run (by decide) hp)
    (FeedbackAnswer.listing?_eq_some.mp hlisting ▸ Program.returned?_eq_some.mp ha)
  exact ⟨fs, hcount, f, hf, hversion, honly⟩

/-- Once a submission has returned, a resolution of its feedback is for good: after
`mark_resolved` has answered, every later state holds the resolved record. -/
theorem feedback_resolution_permanent (hclients : Clients scope op)
    (hfresh : ∀ key, InFeedback scope key → objects.get key = none)
    (hrun : ((objectWorld F τ).machine FeedbackAnswer).run (feedbackPool scope op objects) ls =
      some p)
    (hrun' : ((objectWorld F τ).machine FeedbackAnswer).run p ls' = some q)
    (hrun'' : ((objectWorld F τ).machine FeedbackAnswer).run q ls'' = some r) {t u : τ}
    {b f : ThreadFeedback} {now : String} (hb : (op u).submission? = some b)
    (hu : ∃ a, p.task u = .ret a) (hop : op t = .markResolved now b.feedbackId)
    (hstart : p.task t = (op t).program scope)
    (hret : q.task t = .ret (.found (.ok (some f)))) :
    IsVersion b f ∧ f.resolved = true ∧ Resolved F.toFormat scope b r.shared := by
  have hsound := (sound_start hclients hfresh).run hrun
  have hfrom := (sound_from hclients hsound hstart).run hrun'
  have hpost := post_from hclients hsound hstart hrun' hret
  rw [hop] at hpost
  obtain ⟨hfound, hresolved⟩ := hpost
  obtain ⟨hid, v, c, hc, -, hversion, himplies⟩ := hfound.present f rfl
  obtain rfl : v = u := hclients.distinct v u c b hc hb (hversion.feedbackId.symm.trans hid)
  obtain rfl : c = b := Option.some.inj (hc.symm.trans hb)
  have hnow := himplies hu (hresolved f rfl)
  refine ⟨hversion, hresolved f rfl, hfrom.run_keeps (fun w a a' hw _ _ hg ha => ?_) hrun'' hnow⟩
  exact hg.resolved v c (fun heq => hw (heq ▸ hu)) hb ha

theorem feedback_resolution_permanent_reported :
    ∃ (p : Pool (Fin 3) (Objects Json) (StorageCall Json Json) StorageCall.Answer FeedbackAnswer)
      (f : ThreadFeedback), IsVersion reported f ∧ f.resolved = true ∧
      Resolved Format.plain ObjectKey.smallScope reported p.shared := by
  have hrun : (reportedMachine.run reportedPool (answeredCalls 0 2)).any (fun p =>
      (p.task 0).returned?.isSome ∧ (reportedMachine.run p (answeredCalls 1 3)).any fun q =>
        (q.task 1).returned? = some (.found (.ok (some
          { reported with resolved := true, resolvedAt := some "10:00" }))) ∧
          (reportedMachine.run q (answeredCalls 2 2)).isSome) = true := by
    decide +kernel
  obtain ⟨p, hp, hrest⟩ := (Option.any_eq_true _ _).mp hrun
  obtain ⟨hu, hlater⟩ := of_decide_eq_true hrest
  obtain ⟨a, ha⟩ := Option.isSome_iff_exists.mp hu
  obtain ⟨q, hq, hlast⟩ := (Option.any_eq_true _ _).mp hlater
  obtain ⟨hret, hend⟩ := of_decide_eq_true hlast
  obtain ⟨r, hr⟩ := Option.isSome_iff_exists.mp hend
  exact ⟨r, _, feedback_resolution_permanent reported_clients oneThread_fresh hp hq hr
    reported_submission ⟨a, Program.returned?_eq_some.mp ha⟩ rfl
    (World.task_of_run (by decide) hp) (Program.returned?_eq_some.mp hret)⟩

end Runs
end ReactRuntime.Feedback
