import ReactRuntime.Storage.S3Listing

/-!
# S3 as the backend

Where the service answers every request, a call of the S3 adapter that runs alone does what the call
of the backend does: it leaves the same objects, and answers the same up to the text of an error.
-/
namespace ReactRuntime.Storage
open Library Serde ReactRuntime.Core

variable {B E Tok : Type}

/-- The calls of the trait. A listing has fuel for its pages. -/
def S3StorageAdapter.serve (self : S3StorageAdapter B) (fuel : Nat) :
    (c : StorageCall B E) → Program (S3Call B E Tok) S3Call.Answer (Option c.Answer)
  | .getJson key => (self.getJson key).bind fun r => .ret (some r)
  | .putJson key value => (self.putJson key value).bind fun r => .ret (some r)
  | .putJsonIfEtagMatches key value expectedEtag =>
    (self.putJsonIfEtagMatches key value expectedEtag).bind fun r => .ret (some r)
  | .getBytes key => (self.getBytes key).bind fun r => .ret (some r)
  | .putBytes key bytes contentType =>
    (self.putBytes key bytes contentType).bind fun r => .ret (some r)
  | .deleteObject key => (self.deleteObject key).bind fun r => .ret (some r)
  | .headEtag key => (self.headEtag key).bind fun r => .ret (some r)
  | .listPrefix pre => self.listPrefix fuel pre

/-- The adapter to a bucket, with the text format of its documents. -/
def Format.s3 (F : Format B E) (bucket : String) (hasCredentialsProvider : Bool) :
    S3StorageAdapter B :=
  ⟨bucket, hasCredentialsProvider, F.render, F.parse⟩

/-- The same answer, or two errors that differ in their text. -/
def SameAnswer {α : Type} (a b : Except CoreError α) : Prop :=
  a = b ∨ ∃ e e', a = .error (.storage (.other e)) ∧ b = .error (.storage (.other e'))

section
variable [DecidableEq E] {etagOf : B → E} {continuation : Continuation Tok} {size : Nat}

theorem exec_answered (etagOf : B → E) (continuation : Continuation Tok) (size : Nat)
    (c : S3Call B E Tok) (s : S3State Unit B E) :
    (s.exec etagOf continuation () (.answered size) c).isSome = true := by
  cases c with
  | putObject key body contentType condition =>
    rw [S3State.exec]
    split_ifs <;> rfl
  | _ => rfl

variable (etagOf continuation size) in
/-- A service that answers one request after the other. -/
def answerAll (c : S3Call B E Tok) (s : S3State Unit B E) : S3State Unit B E × c.Answer :=
  (s.exec etagOf continuation () (.answered size) c).get (exec_answered etagOf continuation size c s)

variable {self : S3StorageAdapter B} {s s' : S3State Unit B E}

theorem answerAll_putObject (key : String) (body : B) (contentType : String)
    (condition : PutCondition E) :
    answerAll etagOf continuation size (.putObject key body contentType condition) s =
      if condition.holds (s.etag etagOf key) then
        (s.land etagOf () key (some body), .ok (some (etagOf body)))
      else (s, .error (.serviceError (some "PreconditionFailed") "")) := by
  simp only [answerAll, S3State.exec]
  split_ifs <;> rfl

/-- The credentials are good, so that a request is made once. -/
theorem eval_requestWithRefresh {α : Type}
    {request : Program (S3Call B E Tok) S3Call.Answer (Except CoreError α)} {r : Except CoreError α}
    (h : request.eval (answerAll etagOf continuation size) s = (s', r))
    (hr : ∀ e, r = .error e → isExpiredTokenError e = false) :
    (self.requestWithRefresh request).eval (answerAll etagOf continuation size) s = (s', r) := by
  rw [S3StorageAdapter.requestWithRefresh, Program.eval_bind_of h]
  cases r with
  | ok a => rfl
  | error e => simp [hr e rfl]

theorem eval_getBytes (key : String) :
    (self.getBytes key).eval (answerAll etagOf continuation size) s =
      (s, match s.objects.get key with
        | some bytes => .ok bytes
        | none => .error (.storage (.notFound key))) := by
  have hrequest : (self.requestWithRefresh (S3Call.send (E := E) (.getObject key) fun answer =>
      answer.mapError (namedError key))).eval (answerAll etagOf continuation size) s =
      (s, match s.objects.get key with
        | some bytes => .ok (.ok bytes)
        | none => .error (.storage (.notFound key))) := by
    apply eval_requestWithRefresh
    · cases hbytes : s.objects.get key <;>
        simp [S3Call.send, answerAll, S3State.exec, hbytes, Except.mapError, namedError, mapSdkError]
    · intro e he
      cases hbytes : s.objects.get key <;> simp [hbytes] at he
      exact he ▸ rfl
  rw [S3StorageAdapter.getBytes]
  cases hbytes : s.objects.get key with
  | some bytes =>
    simp only [hbytes] at hrequest
    rw [Program.eval_andThen_ok hrequest]
    rfl
  | none =>
    simp only [hbytes] at hrequest
    rw [Program.eval_andThen_error hrequest]

theorem eval_putBytes (key : String) (bytes : B) (contentType : String) :
    (self.putBytes key bytes contentType).eval (answerAll etagOf continuation size) s =
      (s.land etagOf () key (some bytes), .ok ()) := by
  apply eval_requestWithRefresh _ (by simp)
  rw [S3Call.send, Program.eval_call, answerAll_putObject]
  rfl

theorem eval_deleteObject (key : String) :
    (self.deleteObject key).eval (answerAll etagOf continuation size) s =
      (s.land etagOf () key none, .ok ()) :=
  eval_requestWithRefresh rfl (by simp)

theorem eval_headEtag (key : String) :
    (self.headEtag key).eval (answerAll etagOf continuation size) s =
      (s, .ok (s.etag etagOf key)) := by
  have hrequest : (self.requestWithRefresh (S3Call.send (B := B) (.headObject key) fun answer =>
      answer.mapError (namedError key))).eval (answerAll etagOf continuation size) s =
      (s, match s.etag etagOf key with
        | some etag => .ok (some etag)
        | none => .error (.storage (.notFound key))) := by
    apply eval_requestWithRefresh
    · cases hetag : s.etag etagOf key <;>
        simp [S3Call.send, answerAll, S3State.exec, hetag, Except.mapError, namedError, mapSdkError]
    · intro e he
      cases hetag : s.etag etagOf key <;> simp [hetag] at he
      exact he ▸ rfl
  rw [S3StorageAdapter.headEtag, Program.eval_bind_of hrequest]
  cases s.etag etagOf key <;> rfl

theorem eval_putJsonIfEtagMatches (key : String) (value : Json) (expectedEtag : Option E) :
    (self.putJsonIfEtagMatches key value expectedEtag).eval (answerAll etagOf continuation size) s =
      if s.etag etagOf key = expectedEtag then
        (s.land etagOf () key (some (self.toVec value)), .ok (.written (etagOf (self.toVec value))))
      else (s, .ok (.conflict (s.etag etagOf key))) := by
  rw [S3StorageAdapter.putJsonIfEtagMatches]
  split_ifs with hcondition
  · have hput : (self.requestWithRefresh (self.conditionalPut key value expectedEtag)).eval
        (answerAll etagOf continuation size) s =
        (s.land etagOf () key (some (self.toVec value)), .ok (etagOf (self.toVec value))) := by
      apply eval_requestWithRefresh _ (by simp)
      rw [S3StorageAdapter.conditionalPut, S3Call.send, Program.eval_call, answerAll_putObject,
        if_pos (holds_conditionOf.mpr hcondition)]
      rfl
    rw [Program.eval_bind_of hput]
    rfl
  · have hput : (self.requestWithRefresh (self.conditionalPut key value expectedEtag)).eval
        (answerAll etagOf continuation size) s =
        (s, .error (.storage (.conflict "PreconditionFailed"))) := by
      apply eval_requestWithRefresh
      · rw [S3StorageAdapter.conditionalPut, S3Call.send, Program.eval_call, answerAll_putObject,
          if_neg (mt holds_conditionOf.mp hcondition)]
        rfl
      · rintro e ⟨⟩
        rfl
    rw [Program.eval_bind_of hput]
    exact Program.eval_andThen_ok (eval_headEtag key)

omit [DecidableEq E] in
/-- What is left after a page. -/
theorem remaining_next {pre : String} {token : Option Tok} {next : Tok} {n : Nat}
    (hlast : ((s.remaining continuation pre token).take n).getLast? =
      some (continuation.position next)) :
    s.remaining continuation pre (some next) = (s.remaining continuation pre token).drop n := by
  have hsorted : (s.remaining continuation pre token).Pairwise (· < ·) :=
    List.Pairwise.filter _ (List.pairwise_map.mpr s.objects.sorted)
  have hbeyond : ∀ after ∈ token, continuation.position after < continuation.position next := by
    rintro after ⟨⟩
    have hmem := List.mem_of_mem_take (List.mem_of_getLast? hlast)
    have hnext := (List.mem_filter.mp hmem).2
    simpa using (Bool.and_eq_true_iff.mp hnext).2
  rw [← filter_last_lt hsorted hlast, S3State.remaining, S3State.remaining, List.filter_filter]
  apply List.filter_congr
  intro key _
  rw [Bool.eq_iff_iff]
  simp only [Option.all_some, Bool.and_eq_true, decide_eq_true_eq, Option.all_eq_true]
  constructor
  · rintro ⟨hpre, hkey⟩
    exact ⟨hkey, hpre, fun after h => (hbeyond after h).trans hkey⟩
  · rintro ⟨hkey, hpre, -⟩
    exact ⟨hpre, hkey⟩

/-- One page after the other, until the service has no further token. -/
theorem eval_listPages {pre : String} {fuel : Nat} {token : Option Tok} {out : List String}
    (hfuel : (s.remaining continuation pre token).length < fuel) :
    (self.listPages pre fuel token out).eval (answerAll etagOf continuation size) s =
      (s, some (.ok (out ++ s.remaining continuation pre token))) := by
  induction fuel generalizing token out with
  | zero => omega
  | succ fuel ih =>
    have hpage : (self.requestWithRefresh (S3Call.send (B := B) (E := E) (.listObjectsV2 pre 1000 token)
        fun answer => answer.mapError (namedError pre))).eval (answerAll etagOf continuation size) s =
        (s, .ok (S3State.page continuation (s.remaining continuation pre token)
          (min (max size 1) 1000))) := eval_requestWithRefresh rfl (by simp)
    rw [S3StorageAdapter.listPages, Program.eval_bind_of hpage]
    simp only [page_contents]
    cases htoken : (S3State.page continuation (s.remaining continuation pre token)
        (min (max size 1) 1000)).nextContinuationToken with
    | none =>
      rw [List.take_of_length_le (page_last (by omega) htoken)]
      rfl
    | some next =>
      obtain ⟨hlast, hlength⟩ := page_token htoken
      have hrest := remaining_next hlast
      have hshorter := congrArg List.length hrest
      rw [List.length_drop] at hshorter
      rw [List.length_take] at hlength
      have hfuel' : (s.remaining continuation pre (some next)).length < fuel := by omega
      simp only [ih hfuel', hrest, List.append_assoc, List.take_append_drop]

/-- A document that cannot be read is refused with another text. -/
theorem eval_getJson (F : Format B E) (bucket : String) (hasCredentialsProvider : Bool)
    (continuation : Continuation Tok) (size : Nat) (s : S3State Unit B E) (key : String) :
    ∃ answer, ((F.s3 bucket hasCredentialsProvider).getJson key).eval
        (answerAll F.etagOf continuation size) s = (s, answer) ∧
      SameAnswer answer (F.serve s.objects (.getJson key)).2 := by
  have hbytes : ((F.s3 bucket hasCredentialsProvider).getBytes key).eval
      (answerAll F.etagOf continuation size) s = _ := eval_getBytes key
  cases hobject : s.objects.get key with
  | none =>
    rw [hobject] at hbytes
    have hjson := Program.eval_andThen_error (f := fun bytes =>
      .ret ((F.parse bytes).mapError fun e => .storage (.other e))) hbytes
    exact ⟨_, hjson, .inl (by simp [Format.serve, hobject])⟩
  | some bytes =>
    rw [hobject] at hbytes
    have hjson := Program.eval_andThen_ok (f := fun bytes =>
      .ret ((F.parse bytes).mapError fun e => .storage (.other e))) hbytes
    refine ⟨_, hjson, ?_⟩
    simp only [Format.serve, hobject, Format.parseJson]
    cases F.parse bytes with
    | ok v => exact .inl rfl
    | error e => exact .inr ⟨_, _, rfl, rfl⟩

/-- A call with more fuel than there are keys ends, with the objects and the answer of the backend. -/
theorem eval_serve (F : Format B E) (bucket : String) (hasCredentialsProvider : Bool)
    (continuation : Continuation Tok) (size : Nat) {fuel : Nat} {s : S3State Unit B E}
    (hfuel : s.objects.keys.length < fuel) (c : StorageCall B E) :
    ∃ s' answer, ((F.s3 bucket hasCredentialsProvider).serve fuel c).eval
        (answerAll F.etagOf continuation size) s = (s', some answer) ∧
      s'.objects = (F.serve s.objects c).1 ∧ SameAnswer answer (F.serve s.objects c).2 := by
  cases c with
  | getJson key =>
    obtain ⟨answer, hjson, hsame⟩ :=
      eval_getJson F bucket hasCredentialsProvider continuation size s key
    exact ⟨s, answer, Program.eval_bind_of hjson, rfl, hsame⟩
  | putJson key value =>
    exact ⟨_, _, Program.eval_bind_of (eval_putBytes key _ _), rfl, .inl rfl⟩
  | putJsonIfEtagMatches key value expectedEtag =>
    have hput : ((F.s3 bucket hasCredentialsProvider).putJsonIfEtagMatches key value
        expectedEtag).eval (answerAll F.etagOf continuation size) s =
        if F.headOf s.objects key = expectedEtag then
          (s.land F.etagOf () key (some (F.render value)), .ok (.written (F.tag value)))
        else (s, .ok (.conflict (F.headOf s.objects key))) :=
      eval_putJsonIfEtagMatches key value expectedEtag
    rw [Format.serve]
    split_ifs at hput ⊢ with hcondition
    · exact ⟨_, _, Program.eval_bind_of hput, rfl, .inl rfl⟩
    · exact ⟨_, _, Program.eval_bind_of hput, rfl, .inl rfl⟩
  | getBytes key => exact ⟨_, _, Program.eval_bind_of (eval_getBytes key), rfl, .inl rfl⟩
  | putBytes key bytes contentType =>
    exact ⟨_, _, Program.eval_bind_of (eval_putBytes key bytes contentType), rfl, .inl rfl⟩
  | deleteObject key =>
    exact ⟨_, _, Program.eval_bind_of (eval_deleteObject key), rfl, .inl rfl⟩
  | headEtag key => exact ⟨_, _, Program.eval_bind_of (eval_headEtag key), rfl, .inl rfl⟩
  | listPrefix pre =>
    have hall : s.remaining continuation pre none = s.objects.keys.filter pre.isPrefixOf := by
      simp [S3State.remaining]
    have hfew : (s.remaining continuation pre none).length < fuel := by
      rw [hall]
      exact (List.length_filter_le _ _).trans_lt hfuel
    refine ⟨s, _, eval_listPages hfew, rfl, .inl ?_⟩
    rw [hall]
    rfl

end
end ReactRuntime.Storage
