import ReactRuntime.Feedback.Clients

/-!
# Listing feedback while others write

A listing reads the keys below a prefix one by one. It names versions of submissions only, each
once, and none is missing that was stored when the listing began.
-/
namespace ReactRuntime.Feedback
open Library Serde ReactRuntime.Core Storage

variable {τ B E : Type} [DecidableEq E]

section Reads
variable (F : Format B E) (scope : RequestScope) (op : τ → FeedbackOp B E) (retired : τ → Prop) (t : τ)

/-- A version of a submission that was stored at some moment between `s` and `m`. -/
def Seen (s m : Objects B) (f : ThreadFeedback) : Prop :=
  ∃ u b o, (op u).submission? = some b ∧ SafeSegment b.threadId ∧ IsVersion b f ∧
    (feedbackPromises F scope op).Rely retired t s o ∧
    (feedbackPromises F scope op).Rely retired t o m ∧
    o.get (f.key scope) = some (F.render f.toValue)

/-- What a listing returns that began at `s`, of the feedback that belongs to it. -/
structure Listing (belongs : ThreadFeedback → Prop) (s : Objects B) (fs : List ThreadFeedback) :
    Prop where
  submitted : ∀ f ∈ fs, ∃ u b, (op u).submission? = some b ∧ SafeSegment b.threadId ∧
    IsVersion b f ∧ belongs b ∧
    (retired u → Resolved F scope b s → f.resolved = true)
  nodup : (fs.map ThreadFeedback.feedbackId).Nodup
  complete : ∀ u b, (op u).submission? = some b → SafeSegment b.threadId → belongs b →
    (s.get (b.key scope)).isSome → ∃ f ∈ fs, IsVersion b f

end Reads

variable {F : ExactFormat B E} {scope : RequestScope} {op : τ → FeedbackOp B E} {retired : τ → Prop}
  {t : τ} {s m : Objects B}

/-- A stored record is read back as it is. -/
theorem get_record {key : String} {v : Json} (hkept : Kept F scope op s)
    (hin : InFeedback scope key) (hrecord : isRecordKey key = true)
    (hv : (F.serve s (.getJson key)).2 = .ok v) :
    ∃ u b f, (op u).submission? = some b ∧ SafeSegment b.threadId ∧ f.key scope = key ∧
      IsVersion b f ∧ s.get key = some (F.render f.toValue) ∧ v = f.toValue := by
  cases hget : s.get key with
  | none =>
    rw [Format.serve, hget] at hv
    cases hv
  | some bytes =>
    obtain ⟨u, b, f, hb, hthread, hkey, hf, rfl⟩ := hkept.records key bytes hget hin hrecord
    rw [Format.serve, hget] at hv
    exact ⟨u, b, f, hb, hthread, hf.record_key.trans hkey.symm, hf, rfl,
      F.of_parse_render (F.parseJson_eq_ok.mp hv)⟩

theorem toValue_injective : Function.Injective ThreadFeedback.toValue := fun f g h => by
  have hf := f.fromValue_toValue
  rw [h, g.fromValue_toValue] at hf
  exact (Except.ok.inj hf).symm

/-- Once its submitter has returned, a resolved submission stays resolved. -/
theorem Resolved.kept {b : ThreadFeedback} {u : τ} (h : Resolved F.toFormat scope b s)
    (hb : (op u).submission? = some b) (hu : retired u)
    (hr : (feedbackPromises F scope op).Rely retired t s m) : Resolved F.toFormat scope b m := by
  refine Promises.Rely.keeps (fun v a a' _ hv _ _ hg ha => ?_) hr h
  exact hg.resolved u b (fun heq => hv (heq ▸ hu)) hb ha

theorem Seen.later {m' : Objects B} {f : ThreadFeedback} (h : Seen F scope op retired t s m f)
    (hr : (feedbackPromises F scope op).Rely retired t m m') :
    Seen F scope op retired t s m' f := by
  obtain ⟨u, b, o, hb, hthread, hf, hso, hom, hget⟩ := h
  exact ⟨u, b, o, hb, hthread, hf, hso, hom.trans hr, hget⟩

/-- The resolution of a submission whose submitter has returned is seen by every later read. -/
theorem Seen.resolved {f b : ThreadFeedback} {u : τ} (hclients : Clients scope op)
    (hseen : Seen F scope op retired t s m f) (hb : (op u).submission? = some b)
    (hid : f.feedbackId = b.feedbackId) (hu : retired u) (hs : Resolved F.toFormat scope b s) :
    f.resolved = true := by
  obtain ⟨u', b', o, hb', hthread, hf, hso, -, hget⟩ := hseen
  obtain rfl : u' = u := hclients.distinct u' u b' b hb' hb (hf.feedbackId.symm.trans hid)
  obtain rfl : b' = b := Option.some.inj (hb'.symm.trans hb)
  obtain ⟨-, g, -, hresolved, hget'⟩ := hs.kept hb hu hso
  have hkey : f.key scope = b'.key scope := hf.record_key
  rw [hkey, hget'] at hget
  have hfg : g = f := toValue_injective (F.render_injective (Option.some.inj hget))
  rw [← hfg, hresolved]

/-- A stored submission stays stored. -/
theorem present_kept {b : ThreadFeedback} {u : τ} (hclients : Clients scope op)
    (hb : (op u).submission? = some b) (hthread : SafeSegment b.threadId)
    (hr : (feedbackPromises F scope op).Rely retired t s m)
    (hs : (s.get (b.key scope)).isSome = true) : (m.get (b.key scope)).isSome = true := by
  obtain ⟨hin, hrecord⟩ := inFeedback_record hclients hb hthread
  refine Promises.Rely.keeps (S := fun o => (o.get (b.key scope)).isSome = true)
    (fun v a a' _ _ _ _ hg ha => ?_) hr hs
  exact hg.present _ hin hrecord ha

theorem respects_loadKeys (keys : List String)
    (hin : ∀ key ∈ keys, InFeedback scope key)
    (hs : (feedbackPromises F scope op).Rely retired t s m) :
    (feedbackPromises F scope op).Respects retired t
      (fun r m' => (feedbackPromises F scope op).Rely retired t m m' ∧
        ∀ fs, r = .ok fs → fs.map (ThreadFeedback.key scope) = keys.filter isRecordKey ∧
          ∀ f ∈ fs, Seen F scope op retired t s m' f)
      (ThreadFeedbackStore.loadKeys ⟨direct, scope⟩ keys) m := by
  induction keys generalizing m with
  | nil =>
    refine Promises.Respects.ret fun m' hm _ => ⟨hm, fun fs hfs => ?_⟩
    cases hfs
    exact ⟨rfl, fun f hf => nomatch hf⟩
  | cons key keys ih =>
    have hrest := fun k hk => hin k (List.mem_cons_of_mem _ hk)
    rw [ThreadFeedbackStore.loadKeys]
    split_ifs with hrecord
    · refine Promises.Respects.andThen
        (respects_read (c := .getJson key) rfl (Respectful.refl t) m) ?_ ?_
      · rintro v m₁ - ⟨hm₁, hv⟩
        obtain ⟨o, hmo, hom₁, hkept, hv⟩ := hv v rfl
        obtain ⟨u, b, f, hb, hthread, hkey, hf, hget, rfl⟩ :=
          get_record hkept (hin key List.mem_cons_self) hrecord hv
        rw [ThreadFeedback.fromValue_toValue]
        refine Promises.Respects.andThen (ih hrest (hs.trans hm₁)) ?_ ?_
        · rintro fs m₂ - ⟨hm₂, hfs⟩
          refine Promises.Respects.ret fun m₃ hm₃ _ => ⟨(hm₁.trans hm₂).trans hm₃, fun gs hgs => ?_⟩
          cases hgs
          obtain ⟨hkeys, hseen⟩ := hfs fs rfl
          refine ⟨by rw [List.filter_cons_of_pos hrecord, List.map_cons, hkeys, hkey], ?_⟩
          rw [List.forall_mem_cons]
          exact ⟨⟨u, b, o, hb, hthread, hf, hs.trans hmo, (hom₁.trans hm₂).trans hm₃,
            hkey ▸ hget⟩, fun g hg => (hseen g hg).later hm₃⟩
        · rintro e m₂ - ⟨hm₂, -⟩
          exact Promises.Respects.ret fun m₃ hm₃ _ => ⟨(hm₁.trans hm₂).trans hm₃, fun gs hgs => nomatch hgs⟩
      · rintro e m₁ - ⟨hm₁, -⟩
        exact Promises.Respects.ret fun m₂ hm₂ _ => ⟨hm₁.trans hm₂, fun gs hgs => nomatch hgs⟩
    · rw [List.filter_cons_of_neg (by simpa using hrecord)]
      exact ih hrest hs

/-- A listing of the keys below a prefix. -/
theorem listing_of_seen {belongs : ThreadFeedback → Prop} {pre : String} {o : Objects B}
    {fs : List ThreadFeedback} (hclients : Clients scope op)
    (hbelongs : ∀ u b, (op u).submission? = some b → SafeSegment b.threadId →
      (pre.toList <+: (b.key scope).toList ↔ belongs b))
    (hso : (feedbackPromises F scope op).Rely retired t s o)
    (hkeys : fs.map (ThreadFeedback.key scope) = (o.keys.filter pre.isPrefixOf).filter isRecordKey)
    (hseen : ∀ f ∈ fs, Seen F scope op retired t s m f) :
    Listing F.toFormat scope op retired belongs s fs := by
  have hmem {key : String} : key ∈ fs.map (ThreadFeedback.key scope) ↔
      (o.get key).isSome ∧ pre.toList <+: key.toList ∧ isRecordKey key = true := by
    rw [hkeys, List.mem_filter, List.mem_filter, SortedMap.mem_keys, String.isPrefixOf,
      String.startsWith_string_iff, and_assoc]
  refine ⟨fun f hf => ?_, ?_, fun u b hb hthread hbel hsome => ?_⟩
  · obtain ⟨u, b, -, hb, hthread, hversion, -⟩ := hseen f hf
    have hkey : f.key scope = b.key scope := hversion.record_key
    have hpre := (hmem.mp (List.mem_map_of_mem hf)).2.1
    rw [hkey] at hpre
    exact ⟨u, b, hb, hthread, hversion, (hbelongs u b hb hthread).mp hpre, fun hu hresolved =>
      (hseen f hf).resolved hclients hb hversion.feedbackId hu hresolved⟩
  · have hnodup : (fs.map (ThreadFeedback.key scope)).Nodup :=
      hkeys ▸ ((o.nodup_keys.filter _).filter _)
    rw [List.Nodup, List.pairwise_map] at hnodup ⊢
    refine hnodup.imp_of_mem fun hf hg hne hid => hne ?_
    obtain ⟨u, b, -, hb, -, hbf, -⟩ := hseen _ hf
    obtain ⟨v, c, -, hc, -, hcg, -⟩ := hseen _ hg
    obtain rfl : u = v := hclients.distinct u v b c hb hc
      (hbf.feedbackId.symm.trans (hid.trans hcg.feedbackId))
    obtain rfl : b = c := Option.some.inj (hb.symm.trans hc)
    exact hbf.record_key.trans hcg.record_key.symm
  · have hstored : (o.get (b.key scope)).isSome := present_kept hclients hb hthread hso hsome
    obtain ⟨f, hf, hkey⟩ := List.mem_map.mp (hmem.mpr ⟨hstored,
      (hbelongs u b hb hthread).mpr hbel, (inFeedback_record hclients hb hthread).2⟩)
    obtain ⟨v, c, -, hc, hcthread, hversion, -⟩ := hseen f hf
    obtain ⟨rfl, rfl⟩ := submission_of_key hclients hb hc hthread hcthread
      (hkey.symm.trans hversion.record_key)
    exact ⟨f, hf, hversion⟩

end ReactRuntime.Feedback
