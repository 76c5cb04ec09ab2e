import ReactRuntime.Session.ReportRecord
import ReactRuntime.Session.Writers

/-!
# A report from its look to its push

The look of a report reads a log that the object held after the call began, or a
read of it failed. So when the report comes to be written, it was looked for, and
the write keeps every other write looked for.
-/
namespace ReactRuntime.Session
open Library Serde ReactRuntime.Core Storage

variable {τ B E : Type} [DecidableEq τ] [DecidableEq E] {F : ExactFormat B E} {site : τ → Site}
  {step : τ → ThreadStep} {base : Option ThreadLog} {key : String} {t : τ} {s m : Watched τ B E}

theorem watch_local {c : KernelCall B E} (hc : c.isLocal)
    (hobjects : ∀ k : Kernel B E, (k.perform F (site t) c).1.objects = k.objects)
    (hlogs : ∀ m, Ongoing t s m → Faithful F step base key m → ∀ owner entry,
      (m.1.perform F (site t) c).1.logs owner key = some entry →
      Snapshot F.tag (watchedDocuments step base m) entry.etag entry.log.toValue) :
    (reportProtocol F step base key site).Meets t (fun _ m => s.2.commits <+: m.2.commits)
      c.issue s := by
  apply watch_issue
  · intro m i m' a hm hi he
    obtain ⟨hkernel, -⟩ := watched_exec_local hc he
    have hwritten : c.isWritten a = false := by
      cases c with
      | storage c => cases hc
      | _ => rfl
    obtain ⟨hi', hcommits⟩ := hi.exec he hwritten (by rw [hkernel, hobjects])
      (by rw [hkernel]; exact hlogs m hm hi)
    exact ⟨hi', hcommits ▸ hm.grown⟩
  · exact fun _ b d hd h => h.trans hd.grown

theorem watch_cacheGet (s : Watched τ B E) : (reportProtocol F step base key site).Meets t
    (fun r m => s.2.commits <+: m.2.commits ∧ ∀ entry, r = some entry →
      Snapshot F.tag (watchedDocuments step base m) entry.etag entry.log.toValue)
    (KernelCall.cacheGet key).issue s := by
  apply watch_issue
  · intro m i m' a hm hi he
    obtain ⟨hkernel, rfl⟩ := watched_exec_local rfl he
    obtain ⟨hi', hcommits⟩ := hi.exec he rfl (by rw [hkernel]; rfl) (by rw [hkernel]; exact hi.logs)
    refine ⟨hi', hcommits ▸ hm.grown, fun entry hentry => ?_⟩
    rw [watchedDocuments, hcommits]
    exact hi.logs (site t).store entry hentry
  · exact fun r b d hd h => ⟨h.1.trans hd.grown, fun entry hentry =>
      (h.2 entry hentry).grow (watchedDocuments_isPrefix step base hd.grown)⟩

theorem watch_rememberLog {threadKey : String → Except String String} {log : ThreadLog} {etag : E}
    (h : Snapshot F.tag (watchedDocuments step base s) etag log.toValue) :
    (reportProtocol F step base key site).Meets t (fun _ m => s.2.commits <+: m.2.commits)
      ((ThreadStore.over backend threadKey).rememberLog key log etag) s := by
  apply watch_local (c := .cacheInsert key ⟨log, etag⟩) rfl fun _ => rfl
  intro m hm hi
  apply forall_updateAt hi.logs
  rintro entry ⟨⟩
  exact h.grow (watchedDocuments_isPrefix step base hm.grown)

theorem watch_cacheRemove (s : Watched τ B E) : (reportProtocol F step base key site).Meets t
    (fun _ m => s.2.commits <+: m.2.commits) (KernelCall.cacheRemove key).issue s := by
  apply watch_local rfl fun _ => rfl
  intro m hm hi
  apply forall_updateAt hi.logs
  rintro entry ⟨⟩

theorem watch_lock (s : Watched τ B E) (k : String) :
    (reportProtocol F step base key site).Meets t (fun _ m => s.2.commits <+: m.2.commits)
      (KernelCall.lock k).issue s :=
  watch_local rfl (fun _ => rfl) fun _ _ hi => hi.logs

theorem watch_unlock (s : Watched τ B E) (k : String) :
    (reportProtocol F step base key site).Meets t (fun _ m => s.2.commits <+: m.2.commits)
      (KernelCall.unlock k).issue s :=
  watch_local rfl (fun _ => rfl) fun _ _ hi => hi.logs

theorem watch_lookupLog (threadKey : String → Except String String) (x : Option E)
    (s : Watched τ B E) : (reportProtocol F step base key site).Meets t
      (fun r m => s.2.commits <+: m.2.commits ∧ ∀ entry, r = some entry → ∃ e, x = some e ∧
        Snapshot F.tag (watchedDocuments step base m) e entry.log.toValue)
      ((ThreadStore.over backend threadKey).lookupLog key x) s := by
  cases x with
  | none => exact watch_ret fun m hm => ⟨hm.grown, fun _ h => nomatch h⟩
  | some e =>
    apply Protocol.Meets.bind
    apply (watch_cacheGet s).mono
    rintro entry m - ⟨hm, hentry⟩
    refine watch_ret fun d hd => ⟨hm.trans hd.grown, fun found hf => ?_⟩
    obtain ⟨rfl, he⟩ := Option.filter_eq_some_iff.mp hf
    have hsnap := (hentry found rfl).grow (watchedDocuments_isPrefix step base hd.grown)
    rw [of_decide_eq_true he] at hsnap
    exact ⟨e, rfl, hsnap⟩

omit [DecidableEq τ] [DecidableEq E] in
/-- A document of the object reads back as a log with that document. -/
theorem toValue_of_watched {n : Nat} {v : Json} {log : ThreadLog}
    (h : HeldFrom n (watchedDocuments step base m) v)
    (hp : ThreadStore.parseThreadLog v = .ok log) : log.toValue = v := by
  obtain ⟨j, -, hj⟩ := h
  obtain ⟨front, written, -, -, rfl, -⟩ := pushedDocuments_getElem? hj
  exact parseThreadLog_toValue hp

section Look
variable {threadKey : String → Except String String} {threadId : String}

/-- A reader returns a log that the object held meanwhile, or a read of its call failed. -/
theorem watch_get (htag : Function.Injective F.tag) (hkey : threadKey threadId = .ok key) {n : Nat}
    (hn : n ≤ (watchedDocuments step base s).length) :
    (reportProtocol F step base key site).Meets t (LogFound step base t n)
      ((ThreadStore.over backend threadKey).get threadId) s := by
  simp only [ThreadStore.get, key_over hkey]
  apply Protocol.Meets.andThen (watch_retryHead hn)
  · rintro head m - ⟨hm, hhead⟩
    apply Protocol.Meets.bind
    apply (watch_lookupLog threadKey head m).mono
    rintro cached d - ⟨hd, hcached⟩
    have hmd := watchedDocuments_isPrefix step base hd
    cases cached with
    | some entry =>
      obtain ⟨e, rfl, hsnap⟩ := hcached entry rfl
      obtain ⟨y, hy, hye⟩ := hhead e rfl
      refine watch_ret fun d' hd' => ?_
      have hp := watchedDocuments_isPrefix step base hd'.grown
      exact (hsnap.grow hp).heldFrom noReturn_pushedDocuments htag
        ((hy.grow hmd).grow hp) hye
    | none =>
      apply Protocol.Meets.bind
      apply (watch_grown (watch_retryGet le_rfl)).mono
      rintro r u - ⟨⟨-, hread⟩, hu⟩
      cases r with
      | error err => exact watch_ret fun d' hd' => hread.grow hd'
      | ok v =>
        obtain ⟨hv, hfailed⟩ := hread
        dsimp only
        cases hp : ThreadStore.parseThreadLog v with
        | error err => exact watch_ret fun d' hd' => (hfailed (by rw [unreadable, hp])).grow hd'
        | ok log =>
          dsimp only
          cases hschema : ThreadStore.ensureThreadLogSchema log with
          | error err =>
            have hun : unreadable v = true := by
              simp [unreadable, hp, hschema, Except.isOk, Except.toBool]
            exact watch_ret fun d' hd' => (hfailed hun).grow hd'
          | ok _ =>
            have hlog := toValue_of_watched hv hp
            have hheld : HeldFrom n (watchedDocuments step base u) log.toValue := by
              rw [hlog]
              exact hv.weaken (hm.trans hmd.length_le)
            cases head with
            | none =>
              exact watch_ret fun d' hd' =>
                hheld.grow (watchedDocuments_isPrefix step base hd'.grown)
            | some e =>
              obtain ⟨y, ⟨j, -, hj⟩, hye⟩ := hhead e rfl
              have hsnap : Snapshot F.tag (watchedDocuments step base u) e log.toValue := by
                rw [hlog]
                exact Snapshot.of_reads (hmd.subset (List.mem_of_getElem? hj)) hye
                  (watchedDocuments_isPrefix step base hu) hv
              apply Protocol.Meets.bind
              apply (watch_rememberLog hsnap).mono
              exact fun _ d' _ hd' => watch_ret fun d'' hd'' =>
                hheld.grow (watchedDocuments_isPrefix step base (hd'.trans hd''.grown))
  · exact fun err m _ hm => watch_ret fun d hd => hm.2.grow hd

omit [DecidableEq τ] in
/-- The first call of a reader is a HEAD. -/
theorem get_eq_call (hkey : threadKey threadId = .ok key) : ∃ k,
    (ThreadStore.over (backend (B := B) (E := E)) threadKey).get threadId =
      .call (.storage (.headEtag key)) k := by
  simp only [ThreadStore.get, key_over hkey]
  exact ⟨_, rfl⟩

omit [DecidableEq τ] [DecidableEq E] in
/-- A log that was held after `since` was pushed has all of its reports. -/
theorem hasReport_of_held {since : List τ} {log : ThreadLog} (hsince : since <+: m.2.commits)
    (hheld : HeldFrom (pushedDocuments base (since.map step)).length
      (watchedDocuments step base m) log.toValue) {report : ReportKey} {u : τ} (hu : u ∈ since)
    (hreport : (step u).reportKey = some report) : log.hasReport report = true := by
  obtain ⟨j, hj, hx⟩ := hheld
  obtain ⟨front, written, hfront, hwritten, hvalue, hlength⟩ := pushedDocuments_getElem? hx
  rw [pushedDocuments_length] at hj
  have hall : since.map step <+: front :=
    List.prefix_of_prefix_length_le (hsince.map step) hfront (by omega)
  have hsteps : written.steps = (base.getD ThreadLog.default).steps ++ front := by
    rw [← pushed_steps, hwritten, Option.getD_some]
  rw [← (ThreadLog.alike_iff.mp hvalue).hasReport, ThreadLog.hasReport_iff]
  refine ⟨step u, ?_, hreport⟩
  rw [hsteps]
  exact List.mem_append_right _ (hall.subset (List.mem_map_of_mem hu))

/-- The call began when `n` pushes were written. -/
def Began (t : τ) (n : Nat) (s : Watched τ B E) : Prop :=
  ∃ look, s.2.looks t = some look ∧ look.since = n

/-- The first call of a task notes when it began. -/
theorem Began.first {i : Option CoreError} {c : KernelCall B E} {a : c.Answer} {m' : Watched τ B E}
    (h : (watchedWorld F site).exec t i c m = some (m', a)) (hnone : m.2.looks t = none) :
    Began t m.2.commits.length m' := by
  rw [Began, (watched_exec h).1, note_looks]
  refine ⟨_, rfl, ?_⟩
  rw [Record.look, hnone]
  rfl

theorem Began.exec {i : Option CoreError} {c : KernelCall B E} {a : c.Answer} {n : Nat}
    {m' : Watched τ B E} (h : (watchedWorld F site).exec t i c m = some (m', a))
    (hm : Began t n m) : Began t n m' := by
  obtain ⟨look, hl, hsince⟩ := hm
  rw [Began, (watched_exec h).1, note_looks]
  refine ⟨_, rfl, ?_⟩
  rw [Record.look, hl]
  exact hsince

theorem watch_began {α : Type} {Q : α → Watched τ B E → Prop}
    {p : Program (KernelCall B E) KernelCall.Answer α} {n : Nat}
    (h : (reportProtocol F step base key site).Meets t Q p s) (hs : Began t n s) :
    (reportProtocol F step base key site).Meets t (fun r m => Q r m ∧ Began t n m) p s := by
  apply h.carry hs
  · rintro _ _ hd ⟨look, hl, hsince⟩
    exact ⟨look, hd.look.trans hl, hsince⟩
  · exact fun _ _ _ _ _ he hs => hs.exec he

omit [DecidableEq τ] [DecidableEq E] in
/-- What a look that found nothing says about the reports there were when it began. -/
theorem clearedFor_of_look {since : List τ} {r : Except CoreError ThreadLog} {report : ReportKey}
    (hreport : (step t).reportKey = some report) (hbegan : Began t since.length m)
    (hsince : since <+: m.2.commits)
    (hfound : LogFound step base t (pushedDocuments base (since.map step)).length r m)
    (hnone : (r.toOption.map fun log => log.hasReport report).getD false = false) :
    ClearedFor step t m := by
  intro other hother
  obtain rfl : report = other := Option.some.inj (hreport.symm.trans hother)
  obtain ⟨look, hl, hlook⟩ := hbegan
  refine ⟨look, hl, hlook ▸ hsince.length_le, ?_⟩
  cases r with
  | error e =>
    obtain ⟨look', hl', hfailed⟩ := hfound
    cases hl.symm.trans hl'
    exact .inl hfailed
  | ok log =>
    refine .inr fun u hu hsame => ?_
    rw [hlook, ← List.prefix_iff_eq_take.mp hsince] at hu
    rw [Except.toOption, Option.map_some, Option.getD_some,
      hasReport_of_held hsince hfound hu hsame] at hnone
    cases hnone

/-- A report whose look found nothing was looked for. -/
theorem watch_isDup (htag : Function.Injective F.tag) (hkey : threadKey threadId = .ok key)
    (hlook : s.2.looks t = none) : (reportProtocol F step base key site).Meets t
      (fun found m => found = false → ClearedFor step t m)
      ((ThreadStore.over backend threadKey).isDup threadId (step t)) s := by
  rw [ThreadStore.isDup]
  cases hreport : (step t).reportKey with
  | none =>
    refine watch_ret fun m _ _ report h => ?_
    rw [hreport] at h
    cases h
  | some report =>
    apply Protocol.Meets.bind
    obtain ⟨k, hget⟩ := get_eq_call (B := B) (E := E) hkey
    rw [hget]
    intro m hm hi _ i m' a he
    -- What the look returns was held from its first call on.
    have hlook' : (reportProtocol F step base key site).Meets t (LogFound step base t _)
        ((ThreadStore.over backend threadKey).get threadId) m := watch_get htag hkey le_rfl
    rw [hget] at hlook'
    obtain ⟨hi', hrest⟩ := hlook' m ⟨List.prefix_refl _, rfl⟩ hi trivial i m' a he
    have hbegan : Began t m.2.commits.length m' := .first he (hm.look.trans hlook)
    refine ⟨hi', (watch_grown (watch_began hrest hbegan)).mono ?_⟩
    rintro r d - ⟨⟨hfound, hbegan'⟩, hgrown⟩
    have hsince := (watched_commits_isPrefix he).trans hgrown
    refine watch_ret fun d' hd' hnone => ClearedFor.grow hd' ?_
    exact clearedFor_of_look hreport hbegan' hsince hfound hnone

end Look

section Push
variable (F step base) (t : τ)

/-- What a writer has in hand after loading: the empty log for a missing object, and a snapshot
otherwise. -/
def Loaded (r : Except CoreError (LoadState E ThreadLog)) (m : Watched τ B E) : Prop :=
  ∀ loaded, r = .ok loaded → match ThreadStore.expectedEtagOf loaded with
    | none => ThreadStore.logOf loaded = ThreadLog.default
    | some e => Snapshot F.tag (watchedDocuments step base m) e (ThreadStore.logOf loaded).toValue

/-- The document to be written is the push of a log that was read after its etag. -/
def PushReady (v : Json) (expected : Option E) (s : Watched τ B E) : Prop :=
  ∃ log : ThreadLog, v = (log.push (step t)).toValue ∧ match expected with
    | none => log = ThreadLog.default
    | some e => Snapshot F.tag (watchedDocuments step base s) e log.toValue

variable {F step base t}

omit [DecidableEq τ] [DecidableEq E] in
theorem PushReady.grow {v : Json} {expected : Option E} {d : Watched τ B E}
    (h : PushReady F step base t v expected m) (hd : m.2.commits <+: d.2.commits) :
    PushReady F step base t v expected d := by
  obtain ⟨log, hv, hexp⟩ := h
  refine ⟨log, hv, ?_⟩
  cases expected with
  | none => exact hexp
  | some e => exact hexp.grow (watchedDocuments_isPrefix step base hd)

omit [DecidableEq τ] [DecidableEq E] in
/-- Once the expected etag is the current one, the push of the log in hand is that of the stored
one. -/
theorem PushReady.current {v : Json} {expected : Option E} (htag : Function.Injective F.tag)
    (h : PushReady F step base t v expected m) (hi : Faithful F step base key m)
    (he : F.headOf m.1.objects key = expected) :
    v = (((pushed base (m.2.commits.map step)).getD ThreadLog.default).push (step t)).toValue := by
  obtain ⟨log, rfl, hexp⟩ := h
  have halike : ThreadLog.Alike log
      ((pushed base (m.2.commits.map step)).getD ThreadLog.default) := by
    cases expected with
    | none =>
      rw [Format.headOf, Option.map_eq_none_iff, hi.object, Option.map_eq_none_iff] at he
      rw [he, hexp]
      exact .refl _
    | some e =>
      rw [Format.headOf, hi.object, Option.map_map, Option.map_eq_some_iff] at he
      obtain ⟨current, hcurrent, hce⟩ := he
      have hlast : (watchedDocuments step base m).getLast? = some current.toValue := by
        rw [watchedDocuments, pushedDocuments_getLast?, hcurrent]
        rfl
      have hvalue := hexp.current noReturn_pushedDocuments htag hlast hce
      rw [hcurrent]
      exact ThreadLog.alike_iff.mp hvalue
  exact ThreadLog.alike_iff.mpr (halike.push (step t))

/-- A conditional put of the push of a loaded log, for a step that is no report or was looked for. -/
theorem watch_put (htag : Function.Injective F.tag) {v : Json} {expected : Option E}
    (hready : PushReady F step base t v expected s) (hclear : ClearedFor step t s) :
    (reportProtocol F step base key site).Meets t
      (fun r m => s.2.commits <+: m.2.commits ∧ ∀ e, r = .ok (.written e) →
        Snapshot F.tag (watchedDocuments step base m) e v)
      (KernelCall.storage (.putJsonIfEtagMatches key v expected)).issue s := by
  apply watch_issue
  · intro m i m' a hm hi he
    have hgrown := hm.grown.trans (watched_commits_isPrefix he)
    rcases watched_exec_storage he with ⟨hkernel, e, -, rfl⟩ | ⟨-, hkernel, rfl⟩
    · obtain ⟨hi', -⟩ := hi.exec he rfl (by rw [hkernel]) (by rw [hkernel]; exact hi.logs)
      exact ⟨hi', hgrown, fun _ h => nomatch h⟩
    · by_cases hmatch : F.headOf m.1.objects key = expected
      · have hv := (hready.grow hm.grown).current htag hi hmatch
        have hserve : F.serve m.1.objects (.putJsonIfEtagMatches key v expected) =
            (m.1.objects.insert key (F.render v), .ok (.written (F.tag v))) := if_pos hmatch
        have hcommits : m'.2.commits = m.2.commits ++ [t] := by
          rw [(watched_exec he).1, Record.note, hserve]
          rfl
        have hpushed : (pushed base (m'.2.commits.map step)).map ThreadLog.toValue = some v := by
          rw [hcommits, List.map_append, List.map_singleton, pushed_concat, hv]
          rfl
        have hlast : (watchedDocuments step base m').getLast? = some v := by
          rw [watchedDocuments, pushedDocuments_getLast?, hpushed]
        have hp := watchedDocuments_isPrefix step base
          (watched_commits_isPrefix he)
        refine ⟨⟨?_, ?_, fun u hu => ?_⟩, hgrown, fun e hwritten => ?_⟩
        · have hobject : m'.1.objects.get key = some (F.render v) := by
            rw [hkernel, hserve]
            simp
          have hmap : (pushed base (m'.2.commits.map step)).map (fun log => F.render log.toValue) =
              ((pushed base (m'.2.commits.map step)).map ThreadLog.toValue).map F.render := by
            rw [Option.map_map]
            rfl
          rw [hobject, hmap, hpushed]
          rfl
        · rw [hkernel]
          exact fun owner entry hentry => (hi.logs owner entry hentry).grow hp
        · rw [hcommits, List.mem_append, List.mem_singleton] at hu
          rcases hu with hu | rfl
          · exact (hi.cleared u hu).exec he
          · exact (hclear.grow hm).exec he
        · rw [hserve] at hwritten
          cases hwritten
          exact Snapshot.of_getLast? hlast
      · have hserve : F.serve m.1.objects (.putJsonIfEtagMatches key v expected) =
            (m.1.objects, .ok (.conflict (F.headOf m.1.objects key))) := if_neg hmatch
        obtain ⟨hi', -⟩ := hi.exec he (by rw [hserve]; rfl) (by rw [hkernel, hserve])
          (by rw [hkernel]; exact hi.logs)
        refine ⟨hi', hgrown, fun e hwritten => ?_⟩
        rw [hserve] at hwritten
        cases hwritten
  · exact fun r b d hd h => ⟨h.1.trans hd.grown, fun e he =>
      (h.2 e he).grow (watchedDocuments_isPrefix step base hd.grown)⟩

theorem watch_retryPut (htag : Function.Injective F.tag) {v : Json} {expected : Option E}
    (hready : PushReady F step base t v expected s) (hclear : ClearedFor step t s) :
    (reportProtocol F step base key site).Meets t
      (fun r m => PushReady F step base t v expected m ∧ ClearedFor step t m ∧
        ∀ e, r = .ok (.written e) → Snapshot F.tag (watchedDocuments step base m) e v)
      (retryPutJsonIfEtagMatches backend key v expected) s := by
  apply meets_retryClassified
    (I := fun m => PushReady F step base t v expected m ∧ ClearedFor step t m)
  · rintro m ⟨hready, hclear⟩
    refine (watch_cleared (watch_put htag hready hclear) hclear).mono ?_
    rintro r d - ⟨⟨hgrown, hwritten⟩, hclear'⟩
    exact ⟨hready.grow hgrown, hclear', hwritten⟩
  · exact fun _ _ _ h => ⟨h.1, h.2.1⟩
  · exact fun r b d hd _ h => ⟨h.1.grow hd.grown, h.2.1.grow hd, fun e he =>
      (h.2.2 e he).grow (watchedDocuments_isPrefix step base hd.grown)⟩
  · exact ⟨hready, hclear⟩

end Push

section Operations
variable {threadKey : String → Except String String} {showEtag : Option E → String}
  {threadId : String}

theorem watch_fetchLog {e : E} (hy : ∃ y ∈ watchedDocuments step base s, F.tag y = e) :
    (reportProtocol F step base key site).Meets t
      (fun r m => ∀ log, r = .ok log →
        Snapshot F.tag (watchedDocuments step base m) e log.toValue)
      ((ThreadStore.over backend threadKey).fetchLog key e) s := by
  apply Protocol.Meets.bind
  apply (watch_lookupLog threadKey (some e) s).mono
  rintro cached m - ⟨hm, hcached⟩
  cases cached with
  | some entry =>
    obtain ⟨e', he', hsnap⟩ := hcached entry rfl
    cases he'
    refine watch_ret fun d hd log hlog => ?_
    cases hlog
    exact hsnap.grow (watchedDocuments_isPrefix step base hd.grown)
  | none =>
    apply Protocol.Meets.andThen (watch_grown (watch_retryGet le_rfl))
    · rintro v u - ⟨⟨-, hv, -⟩, hu⟩
      cases hp : ThreadStore.parseThreadLog v with
      | error err => exact watch_ret fun _ _ _ hlog => nomatch hlog
      | ok log =>
        have hsnap : Snapshot F.tag (watchedDocuments step base u) e log.toValue := by
          rw [toValue_of_watched hv hp]
          obtain ⟨y, hmem, hye⟩ := hy
          exact Snapshot.of_reads ((watchedDocuments_isPrefix step base hm).subset hmem) hye
            (watchedDocuments_isPrefix step base hu) hv
        apply Protocol.Meets.bind
        apply (watch_rememberLog hsnap).mono
        intro _ d _ hd
        refine watch_ret fun d' hd' l hl => ?_
        cases hl
        exact hsnap.grow (watchedDocuments_isPrefix step base (hd.trans hd'.grown))
    · exact fun err u _ _ => watch_ret fun _ _ _ hlog => nomatch hlog

theorem watch_loadThreadLogForWrite (s : Watched τ B E) :
    (reportProtocol F step base key site).Meets t (Loaded F step base)
      ((ThreadStore.over backend threadKey).loadThreadLogForWrite key) s := by
  apply Protocol.Meets.andThen (watch_retryHead le_rfl)
  · rintro head m - ⟨-, hhead⟩
    cases head with
    | none =>
      refine watch_ret fun d hd loaded hl => ?_
      cases hl
      rfl
    | some e =>
      obtain ⟨y, ⟨j, -, hj⟩, hye⟩ := hhead e rfl
      apply Protocol.Meets.andThen
        (watch_fetchLog ⟨y, List.mem_of_getElem? hj, hye⟩)
      · intro log d _ hlog
        cases ThreadStore.ensureThreadLogSchema log with
        | error err => exact watch_ret fun _ _ _ hl => nomatch hl
        | ok _ =>
          refine watch_ret fun d' hd' loaded hl => ?_
          cases hl
          exact (hlog log rfl).grow (watchedDocuments_isPrefix step base hd'.grown)
      · exact fun err d _ _ => watch_ret fun _ _ _ hl => nomatch hl
  · exact fun err m _ _ => watch_ret fun _ _ _ hl => nomatch hl

theorem watch_commitLog (htag : Function.Injective F.tag) {log : ThreadLog} {expected : Option E}
    (hready : PushReady F step base t log.toValue expected s) (hclear : ClearedFor step t s) :
    (reportProtocol F step base key site).Meets t (fun _ _ => True)
      ((ThreadStore.over backend threadKey).commitLog showEtag threadId key log expected) s := by
  have hsave : (reportProtocol F step base key site).Meets t
      (fun r m => ∀ e, r = .ok e → Snapshot F.tag (watchedDocuments step base m) e log.toValue)
      ((ThreadStore.over backend threadKey).saveThreadLogIfEtagMatches showEtag threadId key log
        expected) s := by
    apply Protocol.Meets.andThen (watch_retryPut htag hready hclear)
    · rintro status m - ⟨-, -, hwritten⟩
      cases status with
      | written e =>
        refine watch_ret fun d hd e' he' => ?_
        cases he'
        exact (hwritten e rfl).grow (watchedDocuments_isPrefix step base hd.grown)
      | conflict current => exact watch_ret fun _ _ _ h => nomatch h
    · exact fun err m _ _ => watch_ret fun _ _ _ h => nomatch h
  apply hsave.andThen
  · intro e m _ hsnap
    apply Protocol.Meets.bind
    apply (watch_rememberLog (hsnap e rfl)).mono
    exact fun _ _ _ _ => watch_ret fun _ _ => trivial
  · exact fun err m _ _ => watch_ret fun _ _ => trivial

theorem watch_appendStepLocked (htag : Function.Injective F.tag) (hclear : ClearedFor step t s) :
    (reportProtocol F step base key site).Meets t (fun _ m => ClearedFor step t m)
      ((ThreadStore.over backend threadKey).appendStepLocked showEtag key threadId (step t)) s := by
  have happend : (reportProtocol F step base key site).Meets t (fun _ _ => True)
      ((ThreadStore.over backend threadKey).appendStepLocked showEtag key threadId (step t)) s := by
    apply Protocol.Meets.andThen (watch_cleared (watch_loadThreadLogForWrite s) hclear)
    · rintro loaded m - ⟨hloaded, hclear'⟩
      exact watch_commitLog htag ⟨_, rfl, hloaded loaded rfl⟩ hclear'
    · exact fun err m _ _ => watch_ret fun _ _ => trivial
  exact (watch_cleared happend hclear).mono fun _ _ _ h => h.2

theorem watch_appendAttempts (htag : Function.Injective F.tag) (n : Nat)
    (hclear : ClearedFor step t s) : (reportProtocol F step base key site).Meets t
      (fun _ _ => True)
      ((ThreadStore.over backend threadKey).appendAttempts showEtag key threadId (step t) n) s := by
  induction n generalizing s with
  | zero => exact watch_ret fun _ _ => trivial
  | succ n ih =>
    apply Protocol.Meets.bind
    apply (watch_appendStepLocked htag hclear).mono
    intro r m _ hm
    cases r with
    | ok _ => exact watch_ret fun _ _ => trivial
    | error err =>
      cases err with
      | auditConflict msg =>
        apply Protocol.Meets.bind
        apply (watch_cleared (watch_cacheRemove m) hm).mono
        exact fun _ d _ hd => ih hd.2
      | _ => exact watch_ret fun _ _ => trivial

theorem watch_appendStep (htag : Function.Injective F.tag) (hkey : threadKey threadId = .ok key)
    (hclear : ClearedFor step t s) : (reportProtocol F step base key site).Meets t
      (fun _ _ => True)
      ((ThreadStore.over backend threadKey).appendStep showEtag threadId (step t)) s := by
  simp only [ThreadStore.appendStep, key_over hkey]
  apply Protocol.Meets.bind
  apply (watch_cleared (watch_lock s key) hclear).mono
  rintro _ m - ⟨-, hm⟩
  apply Protocol.Meets.bind
  apply (watch_appendAttempts htag _ hm).mono
  intro r d _ _
  apply Protocol.Meets.bind
  apply (watch_unlock d key).mono
  exact fun _ _ _ _ => watch_ret fun _ _ => trivial

/-- Whatever the others do, a report that is written was looked for. -/
theorem watch_appendStepIfNew (htag : Function.Injective F.tag)
    (hkey : threadKey threadId = .ok key) (hlook : s.2.looks t = none) :
    (reportProtocol F step base key site).Meets t (fun _ _ => True)
      ((ThreadStore.over backend threadKey).appendStepIfNew showEtag threadId (step t)) s := by
  apply Protocol.Meets.bind
  apply (watch_isDup htag hkey hlook).mono
  intro found m _ hm
  cases found with
  | true => exact watch_ret fun _ _ => trivial
  | false => exact watch_appendStep htag hkey (hm rfl)

end Operations
end ReactRuntime.Session
