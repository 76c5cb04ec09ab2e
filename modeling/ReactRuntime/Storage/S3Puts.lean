import ReactRuntime.Storage.S3
import ReactRuntime.Core.Retry

/-!
# Conditional puts on S3

However often a writer sends its conditional put again, and whichever of its answers are lost, it
replaces the object at most once, and does if it is told `Written`. Of the writers that expect the
same object at most one replaces it.
-/
namespace ReactRuntime.Storage
open Library Serde ReactRuntime.Core

variable {τ B E Tok : Type} [DecidableEq τ] [DecidableEq E] {etagOf : B → E}
  {continuation : Continuation Tok} {t : τ} {s s' : S3State τ B E}

omit [DecidableEq E] in
@[simp] theorem S3State.landed_land (key : String) (body : Option B) :
    (s.land etagOf t key body).landed t = s.landed t ++ [⟨key, s.etag etagOf key, body⟩] := by
  simp [S3State.land]

omit [DecidableEq E] in
theorem S3State.landed_land_of_ne {u : τ} (hu : u ≠ t) (key : String) (body : Option B) :
    (s.land etagOf t key body).landed u = s.landed u := by
  simp [S3State.land, hu]

omit [DecidableEq E] in
theorem S3State.etag_land (key k : String) (body : Option B) :
    (s.land etagOf t key body).etag etagOf k =
      if k = key then body.map etagOf else s.etag etagOf k := by
  cases body with
  | none =>
    simp only [S3State.land, S3State.etag, SortedMap.get_erase]
    split_ifs <;> rfl
  | some bytes =>
    simp only [S3State.land, S3State.etag, SortedMap.get_insert]
    split_ifs <;> rfl

omit [DecidableEq τ] in
theorem holds_conditionOf {current expected : Option E} :
    (S3StorageAdapter.conditionOf expected).holds current = true ↔ current = expected := by
  cases expected <;> simp [S3StorageAdapter.conditionOf, PutCondition.holds]

/-- A put lands under its condition or not at all. -/
theorem S3State.exec_put {d : S3Delivery} {key : String} {body : B} {contentType : String}
    {condition : PutCondition E} {a : Except SdkError (Option E)}
    (h : s.exec etagOf continuation t d (.putObject key body contentType condition) =
      some (s', a)) :
    (s' = s ∧ ∃ e, a = .error e) ∨
      (condition.holds (s.etag etagOf key) = true ∧ s' = s.land etagOf t key (some body) ∧
        ∀ etag, a = .ok (some etag) → etag = etagOf body) := by
  cases d with
  | answered size =>
    simp only [S3State.exec] at h
    split_ifs at h with hc
    · cases h
      refine .inr ⟨hc, rfl, fun etag ha => ?_⟩
      cases ha
      rfl
    · cases h
      exact .inl ⟨rfl, _, rfl⟩
  | untagged =>
    simp only [S3State.exec] at h
    split_ifs at h with hc
    cases h
    exact .inr ⟨hc, rfl, nofun⟩
  | failed e =>
    cases h
    exact .inl ⟨rfl, e, rfl⟩
  | lost e =>
    simp only [S3State.exec] at h
    split_ifs at h with hc
    cases h
    exact .inr ⟨hc, rfl, nofun⟩

/-- The object that a request may replace, and by what, or remove. -/
def S3Call.effect? : S3Call B E Tok → Option (String × Option B)
  | .putObject key body _ _ => some (key, some body)
  | .deleteObject key => some (key, none)
  | .getObject _ | .headObject _ | .listObjectsV2 _ _ _ | .s3Credentials => none

/-- Only a put or a delete changes anything, and only in the name of its own party. -/
theorem S3State.exec_cases {d : S3Delivery} {c : S3Call B E Tok} {a : c.Answer}
    (h : s.exec etagOf continuation t d c = some (s', a)) :
    s' = s ∨ ∃ key body, c.effect? = some (key, body) ∧ s' = s.land etagOf t key body := by
  cases c with
  | putObject key body contentType condition =>
    rcases S3State.exec_put h with ⟨rfl, -⟩ | ⟨-, rfl, -⟩
    · exact .inl rfl
    · exact .inr ⟨key, some body, rfl, rfl⟩
  | deleteObject key =>
    cases d with
    | answered size =>
      cases h
      exact .inr ⟨key, none, rfl, rfl⟩
    | untagged => cases h
    | failed e =>
      cases h
      exact .inl rfl
    | lost e =>
      cases h
      exact .inr ⟨key, none, rfl, rfl⟩
  | getObject key =>
    left
    cases d with
    | answered size => cases h; rfl
    | untagged => cases h
    | failed e => cases h; rfl
    | lost e => cases e <;> cases h; rfl
  | headObject key =>
    left
    cases d <;> cases h <;> rfl
  | listObjectsV2 pre maxKeys token =>
    left
    cases d <;> cases h <;> rfl
  | s3Credentials =>
    left
    cases d with
    | answered size => cases h; rfl
    | untagged => cases h
    | failed e => cases e <;> cases h; rfl
    | lost e => cases h

section Refresh
variable {P : Promises (s3World τ etagOf continuation)} {retired : τ → Prop}
  {self : S3StorageAdapter B}

omit [DecidableEq E] in
theorem makes_requestWithRefresh {α : Type} {allowed : S3Call B E Tok → Prop}
    {request : Program (S3Call B E Tok) S3Call.Answer (Except CoreError α)}
    (hreads : ∀ c, c.effect? = none → allowed c) (hrequest : request.Makes allowed) :
    (self.requestWithRefresh request).Makes allowed := by
  apply hrequest.bind
  intro first
  cases first with
  | ok a => trivial
  | error e =>
    simp only
    split_ifs
    · unfold S3StorageAdapter.refreshClient
      split_ifs
      · refine ⟨hreads _ rfl, fun answer => ?_⟩
        cases answer with
        | ok u => exact hrequest
        | error e => trivial
      · exact hrequest
    · trivial

omit [DecidableEq E] in
theorem makes_headEtag {key : String} :
    (self.headEtag key : Program (S3Call B E Tok) S3Call.Answer _).Makes
      fun c => c.effect? = none := by
  apply Program.Makes.bind
  · exact makes_requestWithRefresh (fun _ hc => hc) ⟨rfl, fun _ => trivial⟩
  · intro resp
    cases resp with
    | ok etag => trivial
    | error e =>
      simp only
      split_ifs <;> trivial

/-- What one request ensures from every state that it may begin in, a request with one renewal of
the credentials ensures. -/
theorem respects_requestWithRefresh {α : Type} {I : S3State τ B E → Prop}
    {Q : Except CoreError α → S3State τ B E → Prop}
    {request : Program (S3Call B E Tok) S3Call.Answer (Except CoreError α)}
    (hreads : ∀ m, P.guarantee t m m)
    (hI : ∀ a b, P.Rely retired t a b → P.inv b → I a → I b)
    (hQ : ∀ r a b, P.Rely retired t a b → P.inv b → Q r a → Q r b)
    (herror : ∀ e m, I m → Q (.error e) m) (hready : ∀ e m, Q (.error e) m → I m)
    (hreq : ∀ m, I m → P.Respects retired t Q request m) {m : S3State τ B E} (hm : I m) :
    P.Respects retired t Q (self.requestWithRefresh request) m := by
  have hret (r : Except CoreError α) (m : S3State τ B E) (h : Q r m) :
      P.Respects retired t Q (.ret r) m :=
    Promises.Respects.ret fun m' hr hi => hQ r m m' hr hi h
  apply Promises.Respects.bind
  refine (hreq m hm).mono fun r m _ hr => ?_
  cases r with
  | ok a => exact hret _ m hr
  | error e =>
    simp only
    split_ifs
    · have hrefresh : P.Respects retired t (fun _ m => I m) self.refreshClient m := by
        have hready' := hready e m hr
        unfold S3StorageAdapter.refreshClient
        split_ifs
        · rw [S3Call.send, Promises.respects_call]
          intro a ha hi d b r he
          have hIa := hI _ _ ha hi hready'
          obtain rfl : b = a := by
            rcases S3State.exec_cases he with rfl | ⟨key, body, heffect, -⟩
            · rfl
            · cases heffect
          exact ⟨hi, hreads b, Promises.Respects.ret fun b' hb hi' => hI _ _ hb hi' hIa⟩
        · exact Promises.Respects.ret fun a ha hi => hI _ _ ha hi hready'
      refine hrefresh.andThen (fun _ m _ h => hreq m h) fun e m _ h => ?_
      exact hret _ m (herror e m h)
    · exact hret _ m hr

end Refresh

/-- A process that makes one conditional put, sent again after each failure that asks for it, or
any other process. -/
inductive S3Client (B E Tok : Type) where
  | writer (key : String) (value : Json) (expected : Option E)
  | other (program : Program (S3Call B E Tok) S3Call.Answer Unit)

abbrev WriteAnswer (E : Type) := Option (Except CoreError (ConditionalWriteStatus E))

def S3Client.program (self : S3StorageAdapter B) :
    S3Client B E Tok → Program (S3Call B E Tok) S3Call.Answer (WriteAnswer E)
  | .writer key value expected =>
    (retryClassified SAFE_STORAGE_RETRY_DELAYS_MS
      (self.putJsonIfEtagMatches key value expected)).bind fun r => .ret (some r)
  | .other program => program.bind fun _ => .ret none

section Writers
variable (adapter : S3StorageAdapter B) (etagOf : B → E) (rank : Option E → Nat)
  (client : τ → S3Client B E Tok)

/-- Every writer writes a later version than it expects, and the other processes stay away from the
objects of the writers. -/
structure Contest : Prop where
  later : ∀ t key v x, client t = .writer key v x → rank x < rank (some (etagOf (adapter.toVec v)))
  apart : ∀ u program, client u = .other program → program.Makes fun c => ∀ t key v x,
    client t = .writer key v x → ∀ body, c.effect? ≠ some (key, body)

/-- A writer has done nothing, or has replaced the object it expected by a later version, and there
has been none but later ones since. -/
structure Exclusive (s : S3State τ B E) : Prop where
  own : ∀ t key v x, client t = .writer key v x → s.landed t = [] ∨
    (s.landed t = [⟨key, x, some (adapter.toVec v)⟩] ∧ rank x < rank (s.etag etagOf key))
  single : ∀ t u key v v' x, client t = .writer key v x → client u = .writer key v' x → t ≠ u →
    s.landed t = [] ∨ s.landed u = []

variable {adapter etagOf rank client}

omit [DecidableEq E] in
/-- A put under the condition of its writer. -/
theorem Exclusive.land (h : Exclusive adapter etagOf rank client s)
    (hcontest : Contest adapter etagOf rank client) {key : String} {v : Json} {x : Option E}
    (ht : client t = .writer key v x) (hx : s.etag etagOf key = x) :
    Exclusive adapter etagOf rank client (s.land etagOf t key (some (adapter.toVec v))) := by
  have hnone (u : τ) (v' : Json) (hu : client u = .writer key v' x) : s.landed u = [] := by
    rcases h.own u key v' x hu with hempty | ⟨-, hgone⟩
    · exact hempty
    · rw [hx] at hgone
      exact absurd hgone (Nat.lt_irrefl _)
  have hlater := hcontest.later t key v x ht
  refine ⟨fun u k v' x' hu => ?_, fun u w k v' v'' x' hu hw hne => ?_⟩
  · by_cases hut : u = t
    · subst hut
      cases ht.symm.trans hu
      right
      rw [S3State.landed_land, hnone u v ht, hx, S3State.etag_land, if_pos rfl]
      exact ⟨rfl, hlater⟩
    · rw [S3State.landed_land_of_ne hut, S3State.etag_land]
      rcases h.own u k v' x' hu with hempty | ⟨hlanded, hgone⟩
      · exact .inl hempty
      · right
        refine ⟨hlanded, ?_⟩
        split_ifs with hk
        · rw [hk, hx] at hgone
          exact hgone.trans hlater
        · exact hgone
  · -- The writers that lose are those with the key and the expectation of the one that lands.
    by_cases hut : u = t
    · subst hut
      cases ht.symm.trans hu
      right
      rw [S3State.landed_land_of_ne hne.symm, hnone w v'' hw]
    · rw [S3State.landed_land_of_ne hut]
      by_cases hwt : w = t
      · subst hwt
        cases ht.symm.trans hw
        left
        exact hnone u v' hu
      · rw [S3State.landed_land_of_ne hwt]
        exact h.single u w k v' v'' x' hu hw hne

omit [DecidableEq E] in
/-- Another process changes no object of a writer. -/
theorem Exclusive.land_other (h : Exclusive adapter etagOf rank client s)
    {program : Program (S3Call B E Tok) S3Call.Answer Unit} (ht : client t = .other program)
    {k : String} {body : Option B}
    (hk : ∀ u key v x, client u = .writer key v x → key ≠ k) :
    Exclusive adapter etagOf rank client (s.land etagOf t k body) := by
  have hne (u : τ) (key : String) (v : Json) (x : Option E) (hu : client u = .writer key v x) :
      u ≠ t := by
    rintro rfl
    cases ht.symm.trans hu
  refine ⟨fun u key v x hu => ?_, fun u w key v v' x hu hw huw => ?_⟩
  · rw [S3State.landed_land_of_ne (hne u key v x hu), S3State.etag_land,
      if_neg (hk u key v x hu)]
    exact h.own u key v x hu
  · rw [S3State.landed_land_of_ne (hne u key v x hu), S3State.landed_land_of_ne (hne w key v' x hw)]
    exact h.single u w key v v' x hu hw huw

variable (adapter etagOf rank client) (continuation : Continuation Tok)

/-- A party acts in its own name only. -/
def writerPromises : Promises (s3World τ etagOf continuation) where
  inv := Exclusive adapter etagOf rank client
  guarantee t s s' := ∀ u, u ≠ t → s'.landed u = s.landed u

variable {adapter etagOf rank client continuation} {key : String} {v : Json} {x : Option E}

/-- What a writer that is told `Written` can be sure of. -/
def Told (adapter : S3StorageAdapter B) (etagOf : B → E) (t : τ) (v : Json) (etag : E)
    (s : S3State τ B E) : Prop :=
  s.landed t ≠ [] ∧ etag = etagOf (adapter.toVec v)

theorem told_of_rely {etag : E} {a b : S3State τ B E}
    (h : (writerPromises adapter etagOf rank client continuation).Rely (fun _ => False) t a b)
    (ha : Told adapter etagOf t v etag a) : Told adapter etagOf t v etag b := by
  refine h.keeps (S := Told adapter etagOf t v etag) (fun u a b hu _ _ _ hg ha => ?_) ha
  rw [Told, hg t hu.symm]
  exact ha

theorem respects_conditionalPut (hcontest : Contest adapter etagOf rank client)
    (ht : client t = .writer key v x) (m : S3State τ B E) :
    (writerPromises adapter etagOf rank client continuation).Respects (fun _ => False) t
      (fun r m => ∀ etag, r = .ok etag → Told adapter etagOf t v etag m)
      (adapter.conditionalPut key v x) m := by
  rw [S3StorageAdapter.conditionalPut, S3Call.send, Promises.respects_call]
  intro a _ hi d b r he
  rcases S3State.exec_put he with ⟨rfl, e, rfl⟩ | ⟨hc, rfl, hanswer⟩
  · exact ⟨hi, fun _ _ => rfl, Promises.Respects.ret fun _ _ _ => nofun⟩
  · refine ⟨hi.land hcontest ht (holds_conditionOf.mp hc),
      fun u hu => S3State.landed_land_of_ne hu _ _, Promises.Respects.ret fun b hb _ etag hr => ?_⟩
    refine told_of_rely hb ⟨by simp, ?_⟩
    match r, hr with
    | .ok (some etag'), hr =>
      cases hr
      exact hanswer etag rfl

theorem respects_reads {α : Type} {program : Program (S3Call B E Tok) S3Call.Answer α}
    (hprogram : program.Makes fun c => c.effect? = none) (m : S3State τ B E) :
    (writerPromises adapter etagOf rank client continuation).Respects (fun _ => False) t
      (fun _ _ => True) program m := by
  refine Promises.Respects.of_makes hprogram (fun c hc a d b r hi he => ?_) m
  rcases S3State.exec_cases he with rfl | ⟨k, body, hk, -⟩
  · exact ⟨hi, fun _ _ => rfl⟩
  · exact nomatch hc.symm.trans hk

theorem respects_putJsonIfEtagMatches (hcontest : Contest adapter etagOf rank client)
    (ht : client t = .writer key v x) (m : S3State τ B E) :
    (writerPromises adapter etagOf rank client continuation).Respects (fun _ => False) t
      (fun r m => ∀ etag, r = .ok (.written etag) → Told adapter etagOf t v etag m)
      (adapter.putJsonIfEtagMatches key v x) m := by
  have hput : (writerPromises adapter etagOf rank client continuation).Respects (fun _ => False) t
      (fun r m => ∀ etag, r = .ok etag → Told adapter etagOf t v etag m)
      (adapter.requestWithRefresh (adapter.conditionalPut key v x)) m := by
    refine respects_requestWithRefresh (I := fun _ => True) (fun _ _ _ => rfl)
      (fun _ _ _ _ _ => trivial) (fun r a b hab _ ha etag hr => told_of_rely hab (ha etag hr)) ?_
      (fun _ _ _ => trivial) (fun m _ => respects_conditionalPut hcontest ht m) trivial
    exact fun e m _ etag h => nomatch h
  apply Promises.Respects.bind
  refine hput.mono fun r m _ hr => ?_
  cases r with
  | ok etag =>
    refine Promises.Respects.ret fun m' hm _ etag' h => ?_
    cases h
    exact told_of_rely hm (hr etag rfl)
  | error e =>
    simp only
    split_ifs
    · refine (respects_reads makes_headEtag m).andThen (fun current m _ _ => ?_) fun e m _ _ => ?_
      · exact Promises.Respects.ret fun _ _ _ _ => nofun
      · exact Promises.Respects.ret fun _ _ _ _ => nofun
    · exact Promises.Respects.ret fun _ _ _ _ => nofun

/-- Every party, whatever it is. -/
theorem respects_client (hcontest : Contest adapter etagOf rank client) (m : S3State τ B E) :
    (writerPromises adapter etagOf rank client continuation).Respects (fun _ => False) t
      (fun r m => ∀ key v x etag, client t = .writer key v x → r = some (.ok (.written etag)) →
        Told adapter etagOf t v etag m)
      ((client t).program adapter) m := by
  cases ht : client t with
  | writer key v x =>
    have hretry : (writerPromises adapter etagOf rank client continuation).Respects
        (fun _ => False) t (fun r m => ∀ etag, r = .ok (.written etag) → Told adapter etagOf t v etag m)
        (retryClassified SAFE_STORAGE_RETRY_DELAYS_MS (adapter.putJsonIfEtagMatches key v x)) m :=
      respects_retryClassified (I := fun _ => True)
        (fun m _ => respects_putJsonIfEtagMatches hcontest ht m) (fun _ _ _ _ => trivial)
        (fun r a b hab _ ha etag hr => told_of_rely hab (ha etag hr)) _ trivial
    apply Promises.Respects.bind
    refine hretry.mono fun r m _ hr => Promises.Respects.ret fun m' hm _ key' v' x' etag hc h => ?_
    cases hc
    cases h
    exact told_of_rely hm (hr etag rfl)
  | other program =>
    have hprogram : (writerPromises adapter etagOf rank client continuation).Respects
        (fun _ => False) t (fun _ _ => True) program m := by
      refine Promises.Respects.of_makes (hcontest.apart t program ht) (fun c hc a d b r hi he => ?_) m
      rcases S3State.exec_cases he with rfl | ⟨k, body, hk, rfl⟩
      · exact ⟨hi, fun _ _ => rfl⟩
      · refine ⟨hi.land_other ht fun u key v x hu heq => ?_, fun u hu => ?_⟩
        · exact hc u key v x hu body (heq ▸ hk)
        · exact S3State.landed_land_of_ne hu k body
    apply Promises.Respects.bind
    exact hprogram.mono fun _ m _ _ => Promises.Respects.ret fun _ _ _ _ _ _ _ hc => nomatch hc

/-- The parties at their beginning. -/
def clientPool (adapter : S3StorageAdapter B) (client : τ → S3Client B E Tok) (objects : Objects B) :
    Pool τ (S3State τ B E) (S3Call B E Tok) S3Call.Answer (WriteAnswer E) :=
  ⟨⟨objects, fun _ => []⟩, fun t => (client t).program adapter⟩

/-- Whatever fails and whatever is sent again: a writer replaces its object at most once and only
where it expected it, of the writers with one expectation at most one does, and one that is told
`Written` has. -/
theorem conditional_put_exclusive (hcontest : Contest adapter etagOf rank client) {objects : Objects B}
    {ls : List (τ × S3Delivery)}
    {p : Pool τ (S3State τ B E) (S3Call B E Tok) S3Call.Answer (WriteAnswer E)}
    (hrun : ((s3World τ etagOf continuation).machine (WriteAnswer E)).run
      (clientPool adapter client objects) ls = some p) :
    Exclusive adapter etagOf rank client p.shared ∧
      ∀ t key v x etag, client t = .writer key v x →
        p.task t = .ret (some (.ok (.written etag))) →
        p.shared.landed t = [⟨key, x, some (adapter.toVec v)⟩] ∧ etag = etagOf (adapter.toVec v) := by
  have hstart : (writerPromises adapter etagOf rank client continuation).Sound (fun _ => False)
      (fun t r m => ∀ key v x etag, client t = .writer key v x → r = some (.ok (.written etag)) →
        Told adapter etagOf t v etag m) (clientPool adapter client objects) := by
    refine ⟨⟨fun _ _ _ _ _ => .inl rfl, fun _ _ _ _ _ _ _ _ _ => .inl rfl⟩, fun t => ?_, nofun⟩
    exact respects_client hcontest _
  have hend := hstart.run hrun
  refine ⟨hend.inv, fun t key v x etag ht hret => ?_⟩
  obtain ⟨hlanded, hetag⟩ := hend.post hret key v x etag ht rfl
  rcases hend.inv.own t key v x ht with hempty | ⟨hone, -⟩
  · exact absurd hempty hlanded
  · exact ⟨hone, hetag⟩

/-! A first writer whose answer is lost, one that loses against it, and one that goes on from what
the first one wrote, on concrete documents. -/

def plainS3 : S3StorageAdapter Json := ⟨"bucket", true, id, .ok⟩

def keyToken : Continuation String := ⟨id, id, fun _ => rfl⟩

def contestant : Fin 3 → S3Client Json Json String
  | 0 => .writer "k" (.str "first") none
  | 1 => .writer "k" (.str "late") none
  | 2 => .writer "k" (.str "second") (some (.str "first"))

/-- The documents in the order in which they may follow each other. -/
def contestantRank (etag : Option Json) : Nat :=
  if etag = none then 0 else if etag = some (.str "second") then 2 else 1

theorem contestant_contest : Contest plainS3 id contestantRank contestant := by
  refine ⟨fun t key v x ht => ?_, fun u program hu => ?_⟩
  · match t, ht with
    | 0, ht | 1, ht | 2, ht =>
      cases ht
      decide +kernel
  · match u, hu with
    | 0, hu | 1, hu | 2, hu => cases hu

theorem conditional_put_exclusive_contestant :
    ∃ p : Pool (Fin 3) (S3State (Fin 3) Json Json) (S3Call Json Json String) S3Call.Answer
        (WriteAnswer Json),
      Exclusive plainS3 id contestantRank contestant p.shared ∧
        p.shared.landed 2 = [⟨"k", some (.str "first"), some (.str "second")⟩] := by
  have hrun : (((s3World (Fin 3) id keyToken).machine (WriteAnswer Json)).run
      (clientPool plainS3 contestant SortedMap.empty)
      [(0, .lost (.timeoutError "no answer")), (2, .answered 1), (1, .answered 1),
        (0, .answered 1)]).any (fun p =>
      (p.task 2).returned? = some (some (.ok (.written (.str "second"))))) = true := by
    decide +kernel
  obtain ⟨p, hp, hwritten⟩ := (Option.any_eq_true _ _).mp hrun
  obtain ⟨hexclusive, htold⟩ := conditional_put_exclusive contestant_contest hp
  exact ⟨p, hexclusive, (htold 2 "k" (.str "second") (some (.str "first")) (.str "second") rfl
    (Program.returned?_eq_some.mp (of_decide_eq_true hwritten))).1⟩

end Writers
end ReactRuntime.Storage
