import ReactRuntime.Session.Outcomes

/-!
# The keys that a call touches

A call of a thread store works on the key of its thread alone. What belongs to
other keys stays as it is, and the answers depend on nothing else.
-/
namespace ReactRuntime.Session
open Library Serde ReactRuntime.Core Storage

variable {B E : Type}

/-- The key of a call, if it is about one key. -/
def KernelCall.key? : KernelCall B E → Option String
  | .storage c => c.key?
  | .readEntry key | .writeEntry key _ | .invalidateEntry key | .cacheGet key
  | .cacheInsert key _ | .cacheRemove key | .lock key | .unlock key => some key

/-- A call about this key. -/
def KernelCall.OnKey (key : String) (c : KernelCall B E) : Prop := c.key? = some key

theorem KernelCall.makes_issue {c : KernelCall B E} {key : String} (hc : c.OnKey key) :
    c.issue.Makes (KernelCall.OnKey key) := Program.Makes.perform hc

theorem makes_retryStorageCall {c : StorageCall B E} {key : String}
    (hc : c.key? = some key) :
    (retryStorageCall backend c).Makes (KernelCall.OnKey key) :=
  makes_retryClassified (KernelCall.makes_issue (c := .storage c) hc) SAFE_STORAGE_RETRY_DELAYS_MS

section Makes
variable [DecidableEq E] (cl : Client E) {key threadId : String}

theorem makes_lookupLog (etag : Option E) :
    (cl.self (B := B).lookupLog key etag).Makes (KernelCall.OnKey key) := by
  cases etag with
  | none => exact Program.Makes.ret
  | some e => exact (KernelCall.makes_issue (c := .cacheGet key) rfl).bind fun _ => Program.Makes.ret

omit [DecidableEq E] in
theorem makes_rememberLog (log : ThreadLog) (etag : E) :
    (cl.self (B := B).rememberLog key log etag).Makes (KernelCall.OnKey key) :=
  KernelCall.makes_issue (c := .cacheInsert key ⟨log, etag⟩) rfl

theorem makes_fetchLog (etag : E) :
    (cl.self (B := B).fetchLog key etag).Makes (KernelCall.OnKey key) := by
  refine (makes_lookupLog cl (some etag)).bind fun cached => ?_
  cases cached with
  | some entry => exact Program.Makes.ret
  | none =>
    refine (makes_retryStorageCall rfl).andThen fun v => ?_
    cases ThreadStore.parseThreadLog v with
    | error e => exact Program.Makes.ret
    | ok log => exact (makes_rememberLog cl log etag).bind fun _ => Program.Makes.ret

theorem makes_loadThreadLogForWrite :
    (cl.self (B := B).loadThreadLogForWrite key).Makes (KernelCall.OnKey key) := by
  refine (makes_retryStorageCall rfl).andThen fun etag => ?_
  cases etag with
  | none => exact Program.Makes.ret
  | some e =>
    refine (makes_fetchLog cl e).andThen fun log => ?_
    cases ThreadStore.ensureThreadLogSchema log with
    | error e => exact Program.Makes.ret
    | ok _ => exact Program.Makes.ret

omit [DecidableEq E] in
theorem makes_commitLog (log : ThreadLog) (expected : Option E) :
    (cl.self (B := B).commitLog cl.showEtag threadId key log expected).Makes
      (KernelCall.OnKey key) := by
  have hsave : (cl.self (B := B).saveThreadLogIfEtagMatches cl.showEtag threadId key log
      expected).Makes (KernelCall.OnKey key) := by
    refine (makes_retryStorageCall rfl).andThen fun status => ?_
    cases status <;> exact Program.Makes.ret
  exact hsave.andThen fun etag => (makes_rememberLog cl log etag).bind fun _ => Program.Makes.ret

theorem makes_appendAttempts (step : ThreadStep) (n : Nat) :
    (cl.self (B := B).appendAttempts cl.showEtag key threadId step n).Makes
      (KernelCall.OnKey key) := by
  induction n with
  | zero => exact Program.Makes.ret
  | succ n ih =>
    have hattempt : (cl.self (B := B).appendStepLocked cl.showEtag key threadId step).Makes
        (KernelCall.OnKey key) :=
      (makes_loadThreadLogForWrite cl).andThen fun loaded => makes_commitLog cl _ _
    refine hattempt.bind fun r => ?_
    cases r with
    | ok _ => exact Program.Makes.ret
    | error e =>
      cases e with
      | auditConflict msg =>
        exact (KernelCall.makes_issue (c := .cacheRemove key) rfl).bind fun _ => ih
      | _ => exact Program.Makes.ret

theorem makes_appendStep (hkey : cl.threadKey threadId = .ok key) (step : ThreadStep) :
    (cl.self (B := B).appendStep cl.showEtag threadId step).Makes (KernelCall.OnKey key) := by
  rw [ThreadStore.appendStep, cl.key_self hkey]
  refine (KernelCall.makes_issue (c := .lock key) rfl).bind fun _ => ?_
  refine (makes_appendAttempts cl step _).bind fun _ => ?_
  exact (KernelCall.makes_issue (c := .unlock key) rfl).bind fun _ => Program.Makes.ret

theorem makes_get (hkey : cl.threadKey threadId = .ok key) :
    (cl.self (B := B).get threadId).Makes (KernelCall.OnKey key) := by
  rw [ThreadStore.get, cl.key_self hkey]
  refine (makes_retryStorageCall rfl).andThen fun etag => ?_
  refine (makes_lookupLog cl etag).bind fun cached => ?_
  cases cached with
  | some entry => exact Program.Makes.ret
  | none =>
    refine (makes_retryStorageCall (c := .getJson key) rfl).bind fun r => ?_
    cases r with
    | error e => exact Program.Makes.ret
    | ok v =>
      dsimp only
      cases ThreadStore.parseThreadLog v with
      | error e => exact Program.Makes.ret
      | ok log =>
        dsimp only
        cases ThreadStore.ensureThreadLogSchema log with
        | error e => exact Program.Makes.ret
        | ok _ =>
          cases etag with
          | none => exact Program.Makes.ret
          | some e => exact (makes_rememberLog cl log e).bind fun _ => Program.Makes.ret

end Makes

section Frame
variable [DecidableEq E] {F : Format B E} (cl : Client E) {key : String}

/-- The object and the cached logs of a key are the same in both states. -/
structure Unmoved (key : String) (s s' : Solo B E) : Prop where
  object : s'.kernel.objects.get key = s.kernel.objects.get key
  logs : ∀ owner, s'.kernel.logs owner key = s.kernel.logs owner key

omit [DecidableEq E] in
theorem Unmoved.refl (key : String) (s : Solo B E) : Unmoved key s s := ⟨rfl, fun _ => rfl⟩

omit [DecidableEq E] in
theorem Unmoved.holds {c : Option ThreadLog} {s s' : Solo B E} (h : Unmoved key s s')
    (hs : Holds F key c s) : Holds F key c s' :=
  ⟨h.object.trans hs.object, fun owner entry hentry =>
    hs.caches owner entry ((h.logs owner).symm.trans hentry)⟩

theorem serve_get_of_ne (objects : Objects B) {c : StorageCall B E} {k : String}
    (hc : c.key? = some key) (hk : k ≠ key) :
    (F.serve objects c).1.get k = objects.get k := by
  cases c with
  | putJson | putBytes | deleteObject =>
    cases hc
    simp [Format.serve, hk]
  | putJsonIfEtagMatches =>
    cases hc
    rw [Format.serve]
    split_ifs <;> simp [hk]
  | _ => rfl

/-- A call about a key is answered from the object of that key. -/
theorem serve_eq_of_get_eq {objects objects' : Objects B} {c : StorageCall B E}
    (hc : c.key? = some key) (h : objects.get key = objects'.get key) :
    (F.serve objects c).1.get key = (F.serve objects' c).1.get key ∧
      (F.serve objects c).2 = (F.serve objects' c).2 := by
  cases c with
  | listPrefix => cases hc
  | putJsonIfEtagMatches key' v expected =>
    cases hc
    by_cases hmatch : (objects'.get key).map F.etagOf = expected <;>
      simp [Format.serve, Format.headOf, h, hmatch]
  | _ =>
    cases hc
    simp [Format.serve, Format.headOf, h]

/-- A call about one key moves nothing of another. -/
theorem unmoved_handle {c : KernelCall B E} {k : String} (hc : c.OnKey key) (hk : k ≠ key)
    {s s' : Solo B E} (h : Unmoved k s s') : Unmoved k s (cl.handle F c s').1 := by
  have hperform : Unmoved k s
      ⟨(s'.kernel.perform F (Solo.site cl.store) c).1, s'.puts⟩ := by
    cases c with
    | storage c =>
      exact ⟨(serve_get_of_ne s'.kernel.objects hc hk).trans h.object, h.logs⟩
    | cacheInsert | cacheRemove =>
      cases hc
      refine ⟨h.object, fun owner => ?_⟩
      exact (updateAt_apply ..).trans ((if_neg fun hsame => hk hsame.2).trans (h.logs owner))
    | _ => exact ⟨h.object, h.logs⟩
  cases c with
  | storage c =>
    cases c with
    | putJsonIfEtagMatches key' v expected =>
      simp only [Client.handle, Solo.handle]
      cases cl.faults s'.puts with
      | drop e => exact ⟨h.object, h.logs⟩
      | _ => exact ⟨hperform.object, hperform.logs⟩
    | _ => exact hperform
  | _ => exact hperform

/-- An append moves nothing of another key. -/
theorem unmoved_appendStep {threadId k : String} (hkey : cl.threadKey threadId = .ok key)
    (hk : k ≠ key) (step : ThreadStep) (s : Solo B E) :
    Unmoved k s ((cl.self.appendStep cl.showEtag threadId step).eval (cl.handle F) s).1 :=
  (makes_appendStep cl hkey step).keeps (fun _ hc _ hm => unmoved_handle cl hc hk hm) s
    (Unmoved.refl k s)

/-- What the calls of a store about a key depend on. -/
structure SameView (store : Nat) (key : String) (s s' : Solo B E) : Prop where
  object : s.kernel.objects.get key = s'.kernel.objects.get key
  entry : s.kernel.entries 0 key = s'.kernel.entries 0 key
  log : s.kernel.logs store key = s'.kernel.logs store key

/-- Calls about a key are answered from what the store sees of it. -/
theorem sameView_handle (hf : cl.Answered) {c : KernelCall B E} (hc : c.OnKey key)
    {s s' : Solo B E} (h : SameView cl.store key s s') :
    SameView cl.store key (cl.handle F c s).1 (cl.handle F c s').1 ∧
      (cl.handle F c s).2 = (cl.handle F c s').2 := by
  obtain ⟨hobject, hentry, hlog⟩ := h
  have hserve (c : StorageCall B E) (hc : c.key? = some key) :=
    serve_eq_of_get_eq (F := F) hc hobject
  cases c with
  | storage c =>
    obtain ⟨hget, hanswer⟩ := hserve c hc
    cases c with
    | putJsonIfEtagMatches key' v expected =>
      simp only [Client.handle, Solo.handle, hf s.puts, hf s'.puts]
      exact ⟨⟨hget, hentry, hlog⟩, hanswer⟩
    | _ => exact ⟨⟨hget, hentry, hlog⟩, hanswer⟩
  | readEntry =>
    cases hc
    exact ⟨⟨hobject, hentry, hlog⟩, hentry⟩
  | cacheGet =>
    cases hc
    exact ⟨⟨hobject, hentry, hlog⟩, hlog⟩
  | writeEntry | invalidateEntry =>
    cases hc
    refine ⟨⟨hobject, ?_, hlog⟩, rfl⟩
    simp [Client.handle, Solo.handle, Kernel.perform, Solo.site, updateAt_apply]
  | cacheInsert | cacheRemove =>
    cases hc
    refine ⟨⟨hobject, hentry, ?_⟩, rfl⟩
    simp [Client.handle, Solo.handle, Kernel.perform, Solo.site, updateAt_apply]
  | lock | unlock => exact ⟨⟨hobject, hentry, hlog⟩, rfl⟩

/-- A reader that sees the same reads the same. -/
theorem get_eq_of_sameView (hf : cl.Answered) {threadId : String}
    (hkey : cl.threadKey threadId = .ok key) {s s' : Solo B E}
    (h : SameView cl.store key s s') :
    ((cl.self.get threadId).eval (cl.handle F) s).2 =
      ((cl.self.get threadId).eval (cl.handle F) s').2 :=
  ((makes_get cl hkey).eval_eq (fun _ hc _ _ hm => sameView_handle cl hf hc hm) h).2

end Frame
end ReactRuntime.Session
