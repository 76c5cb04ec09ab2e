import Mathlib.Data.Finset.Card
import ReactRuntime.Library.Paging
import ReactRuntime.Storage.S3Puts

/-!
# Listings on S3

A listing is read page by page while other processes put and delete objects. Objects that are there
all the time are listed, and no key is listed twice, whatever the sizes of the pages.
-/
namespace ReactRuntime.Storage
open Library Serde ReactRuntime.Core

variable {τ B E Tok : Type} [DecidableEq τ] [DecidableEq E] {etagOf : B → E}
  {continuation : Continuation Tok} {t : τ} {s s' : S3State τ B E}

section Pages
variable {stays : String → Prop} {known : Finset String} {pre : String}

/-- The objects that are there all the time, and those that are there at any time. -/
structure Holds (stays : String → Prop) (known : Finset String) (s : S3State τ B E) : Prop where
  stays : ∀ key, stays key → key ∈ s.objects.keys
  known : ∀ key ∈ s.objects.keys, key ∈ known

omit [DecidableEq τ] [DecidableEq E] in
theorem Holds.beyond (h : Holds stays known s) (token : Option Tok) :
    Beyond (fun key => stays key ∧ pre.isPrefixOf key = true)
      (fun key => key ∈ known.filter fun key => pre.isPrefixOf key = true)
      (token.map continuation.position) (s.remaining continuation pre token) := by
  have hmem (key : String) : key ∈ s.remaining continuation pre token ↔ key ∈ s.objects.keys ∧
      pre.isPrefixOf key = true ∧ ∀ a, token.map continuation.position = some a → a < key := by
    cases token <;> simp [S3State.remaining]
  refine ⟨?_, fun key hk a ha => ((hmem key).mp hk).2.2 a ha, fun key hk => ?_, ?_⟩
  · exact List.Pairwise.filter _ (List.pairwise_map.mpr s.objects.sorted)
  · obtain ⟨hin, hpre, -⟩ := (hmem key).mp hk
    exact Finset.mem_filter.mpr ⟨h.known key hin, hpre⟩
  · exact fun key hk hafter => (hmem key).mpr ⟨h.stays key hk.1, hk.2, hafter⟩

/-- Which requests keep what stays and bring nothing unknown. -/
def S3Call.Leaves (stays : String → Prop) (known : Finset String) (c : S3Call B E Tok) : Prop :=
  ∀ key body, c.effect? = some (key, body) → match body with
    | some _ => key ∈ known
    | none => ¬ stays key

omit [DecidableEq E] in
theorem S3Call.leaves_of_reads {c : S3Call B E Tok} (hc : c.effect? = none) :
    c.Leaves stays known :=
  fun _ _ h => nomatch hc.symm.trans h

theorem Holds.exec (h : Holds stays known s) {d : S3Delivery} {c : S3Call B E Tok} {a : c.Answer}
    (hc : c.Leaves stays known) (he : s.exec etagOf continuation t d c = some (s', a)) :
    Holds stays known s' := by
  rcases S3State.exec_cases he with rfl | ⟨key, body, heffect, rfl⟩
  · exact h
  · have hallowed := hc key body heffect
    cases body with
    | some bytes =>
      refine ⟨fun k hk => ?_, fun k hk => ?_⟩
      · have hold := SortedMap.mem_keys.mp (h.stays k hk)
        rw [SortedMap.mem_keys, S3State.land, SortedMap.get_insert]
        split_ifs
        · rfl
        · exact hold
      · rw [SortedMap.mem_keys, S3State.land, SortedMap.get_insert] at hk
        split_ifs at hk with hkey
        · exact hkey ▸ hallowed
        · exact h.known k (SortedMap.mem_keys.mpr hk)
    | none =>
      refine ⟨fun k hk => ?_, fun k hk => ?_⟩
      · have hne : k ≠ key := fun heq => hallowed (heq ▸ hk)
        rw [SortedMap.mem_keys, S3State.land, SortedMap.get_erase, if_neg hne]
        exact SortedMap.mem_keys.mp (h.stays k hk)
      · rw [SortedMap.mem_keys, S3State.land, SortedMap.get_erase] at hk
        split_ifs at hk
        · cases hk
        · exact h.known k (SortedMap.mem_keys.mpr hk)

def listingPromises (τ : Type) [DecidableEq τ] (etagOf : B → E) (continuation : Continuation Tok)
    (stays : String → Prop) (known : Finset String) : Promises (s3World τ etagOf continuation) where
  inv := Holds stays known
  guarantee _ _ _ := True

/-- A page is that of some moment. -/
def IsPage (continuation : Continuation Tok) (stays : String → Prop) (known : Finset String)
    (pre : String) (token : Option Tok) (page : ListPage Tok) : Prop :=
  ∃ keys n, Beyond (fun key => stays key ∧ pre.isPrefixOf key = true)
    (fun key => key ∈ known.filter fun key => pre.isPrefixOf key = true)
    (token.map continuation.position) keys ∧ 0 < n ∧ page = S3State.page continuation keys n

/-- A listing that has come to its end. -/
structure Listed (stays : String → Prop) (known : Finset String) (pre : String)
    (out : List String) : Prop where
  sorted : out.Pairwise (· < ·)
  known : ∀ key ∈ out, key ∈ known ∧ pre.isPrefixOf key = true
  complete : ∀ key, stays key → pre.isPrefixOf key = true → key ∈ out

variable {adapter : S3StorageAdapter B} {retired : τ → Prop}

theorem respects_page (token : Option Tok) (m : S3State τ B E) :
    (listingPromises τ etagOf continuation stays known).Respects retired t
      (fun r _ => ∀ page, r = .ok page → IsPage continuation stays known pre token page)
      (adapter.requestWithRefresh (S3Call.send (.listObjectsV2 pre 1000 token) fun answer =>
        answer.mapError (namedError pre))) m := by
  refine respects_requestWithRefresh (I := fun _ => True) (fun _ => trivial)
    (fun _ _ _ _ _ => trivial) (fun _ _ _ _ _ h => h) ?_ (fun _ _ _ => trivial) (fun m _ => ?_)
    trivial
  · rintro e m - page h
    cases h
  rw [S3Call.send, Promises.respects_call]
  intro a _ hi d b r he
  have hb : Holds stays known b := hi.exec (S3Call.leaves_of_reads rfl) he
  refine ⟨hb, trivial, Promises.Respects.ret fun _ _ _ page hr => ?_⟩
  cases d with
  | answered size =>
    cases he
    cases hr
    exact ⟨_, min (max size 1) 1000, hi.beyond token, by omega, rfl⟩
  | untagged => cases he
  | failed e =>
    cases he
    cases hr
  | lost e => cases he

theorem page_contents (continuation : Continuation Tok) (keys : List String) (n : Nat) :
    (S3State.page continuation keys n).contents.filterMap id = keys.take n := by
  rw [S3State.page, List.filterMap_map]
  exact List.filterMap_some

/-- The next page begins after the last key of this one. -/
theorem page_token {keys : List String} {n : Nat} {token : Tok}
    (h : (S3State.page continuation keys n).nextContinuationToken = some token) :
    (keys.take n).getLast? = some (continuation.position token) ∧ (keys.take n).length = n := by
  simp only [S3State.page] at h
  split_ifs at h with hlen
  obtain ⟨last, hlast, rfl⟩ := Option.map_eq_some_iff.mp h
  rw [continuation.position_token, List.length_take]
  exact ⟨hlast, by omega⟩

theorem page_last {keys : List String} {n : Nat} (hn : 0 < n)
    (h : (S3State.page continuation keys n).nextContinuationToken = none) : keys.length ≤ n := by
  simp only [S3State.page] at h
  split_ifs at h with hlen
  · exact hlen
  · have hempty := Option.map_eq_none_iff.mp h
    rw [List.getLast?_eq_none_iff, List.take_eq_nil_iff] at hempty
    rcases hempty with hzero | rfl
    · omega
    · simp at hlen

/-- The rest of a listing, from what has been read so far; every page but the last brings at least
one key, so that the pages come to an end. -/
theorem respects_listPages {fuel : Nat} {token : Option Tok} {out : List String}
    (hout : Paged (fun key => stays key ∧ pre.isPrefixOf key = true)
      (fun key => key ∈ known.filter fun key => pre.isPrefixOf key = true)
      (token.map continuation.position) out)
    (hfuel : (known.filter fun key => pre.isPrefixOf key = true).card < out.length + fuel)
    (m : S3State τ B E) :
    (listingPromises τ etagOf continuation stays known).Respects retired t
      (fun r _ => r ≠ none ∧ ∀ out, r = some (.ok out) → Listed stays known pre out)
      (adapter.listPages pre fuel token out) m := by
  induction fuel generalizing token out m with
  | zero =>
    have hnodup : out.Nodup := hout.sorted.imp ne_of_lt
    have hcard := Finset.card_le_card (s := out.toFinset)
      fun key hk => hout.known key (List.mem_toFinset.mp hk)
    rw [List.toFinset_card_of_nodup hnodup] at hcard
    omega
  | succ fuel ih =>
    rw [S3StorageAdapter.listPages]
    apply Promises.Respects.bind
    refine (respects_page token m).mono fun r m _ hr => ?_
    cases r with
    | error e => exact Promises.Respects.ret fun _ _ _ => ⟨nofun, nofun⟩
    | ok page =>
      obtain ⟨keys, n, hkeys, hn, rfl⟩ := hr page rfl
      simp only [page_contents]
      cases htoken : (S3State.page continuation keys n).nextContinuationToken with
      | none =>
        refine Promises.Respects.ret fun _ _ _ => ⟨nofun, fun out' h => ?_⟩
        cases h
        refine ⟨hout.sorted_append hkeys n, fun key hk => ?_, fun key hstays hpre => ?_⟩
        · exact Finset.mem_filter.mp (hout.known_append hkeys n key hk)
        · exact hout.finish hkeys (page_last hn htoken) key ⟨hstays, hpre⟩
      | some next =>
        obtain ⟨hlast, hlength⟩ := page_token htoken
        have hnext : Paged (fun key => stays key ∧ pre.isPrefixOf key = true)
            (fun key => key ∈ known.filter fun key => pre.isPrefixOf key = true)
            ((some next).map continuation.position) (out ++ keys.take n) := hout.next hkeys hlast
        refine ih hnext ?_ m
        rw [List.length_append, hlength]
        omega

end Pages

/-- Every listing that ends without an error, among processes that delete nothing of what stays and
put only known keys, is sorted, has each key once, and has all that stays below its prefix. With
more fuel than there are known keys it does not run out of pages. -/
theorem s3_listing_complete (adapter : S3StorageAdapter B) (lister : τ → Option String)
    {stays : String → Prop} {known : Finset String} {objects : Objects B}
    {op : τ → Program (S3Call B E Tok) S3Call.Answer (Option (Except CoreError (List String)))}
    (hstays : ∀ key, stays key → key ∈ objects.keys) (hknown : ∀ key ∈ objects.keys, key ∈ known)
    {fuel : Nat} (hfuel : known.card < fuel)
    (hlister : ∀ t pre, lister t = some pre → op t = adapter.listPrefix fuel pre)
    (hother : ∀ t, lister t = none → (op t).Makes (S3Call.Leaves stays known))
    {ls : List (τ × S3Delivery)}
    {p : Pool τ (S3State τ B E) (S3Call B E Tok) S3Call.Answer
      (Option (Except CoreError (List String)))}
    (hrun : ((s3World τ etagOf continuation).machine _).run ⟨⟨objects, fun _ => []⟩, op⟩ ls = some p)
    {t : τ} {pre : String} {r : Option (Except CoreError (List String))}
    (ht : lister t = some pre) (hret : p.task t = .ret r) :
    r ≠ none ∧ ∀ out, r = some (.ok out) → Listed stays known pre out := by
  have hstart : (listingPromises τ etagOf continuation stays known).Sound (fun _ => False)
      (fun t r _ => ∀ pre, lister t = some pre →
        r ≠ none ∧ ∀ out, r = some (.ok out) → Listed stays known pre out)
      ⟨⟨objects, fun _ => []⟩, op⟩ := by
    refine ⟨⟨hstays, hknown⟩, fun u => ?_, nofun⟩
    cases hu : lister u with
    | none =>
      refine (Promises.Respects.of_makes (hother u hu) (fun c hc a d b r hi he => ?_) _).mono ?_
      · exact ⟨Holds.exec hi hc he, trivial⟩
      · exact fun _ _ _ _ _ hpre => nomatch hpre
    | some pre =>
      simp only [hlister u pre hu]
      have hcard := (Finset.card_filter_le known fun key => pre.isPrefixOf key = true).trans_lt hfuel
      refine (respects_listPages Paged.start (by simpa using hcard) _).mono ?_
      rintro r m - hr pre' hpre
      cases hpre
      exact hr
  exact (hstart.run hrun).post hret pre ht

/-! A listing in pages of two keys, while one object is deleted and another one is put. -/

def threeKeys : Objects Json :=
  ((SortedMap.empty.insert "p/a" (.str "a")).insert "p/b" (.str "b")).insert "p/c" (.str "c")

def besideListing : Fin 2 → Program (S3Call Json Json String) S3Call.Answer
    (Option (Except CoreError (List String)))
  | 0 => plainS3.listPrefix 5 "p/"
  | 1 => .call (.deleteObject "p/a") fun _ =>
      .call (.putObject "p/d" (.str "d") "application/json" .always) fun _ => .ret none

theorem s3_listing_complete_threeKeys :
    Listed (· ∈ ["p/b", "p/c"]) {"p/a", "p/b", "p/c", "p/d"} "p/" ["p/a", "p/b", "p/c", "p/d"] := by
  have hrun : (((s3World (Fin 2) id keyToken).machine _).run
      ⟨⟨threeKeys, fun _ => []⟩, besideListing⟩
      [(0, .answered 2), (1, .answered 1), (1, .answered 1), (0, .answered 2)]).any (fun p =>
      (p.task 0).returned? = some (some (.ok ["p/a", "p/b", "p/c", "p/d"]))) = true := by
    decide +kernel
  obtain ⟨p, hp, hlisted⟩ := (Option.any_eq_true _ _).mp hrun
  have hfuel : Finset.card {"p/a", "p/b", "p/c", "p/d"} < 5 := by decide
  refine (s3_listing_complete plainS3 (fun t => if t = 0 then some "p/" else none) ?_ ?_ hfuel
    ?_ ?_ hp rfl (Program.returned?_eq_some.mp (of_decide_eq_true hlisted))).2 _ rfl
  · decide +kernel
  · decide +kernel
  · intro t pre ht
    match t, ht with
    | 0, ht =>
      cases ht
      rfl
  · intro t ht
    match t, ht with
    | 1, _ =>
      refine ⟨fun key body h => ?_, fun _ => ⟨fun key body h => ?_, fun _ => trivial⟩⟩
      · cases h
        decide
      · cases h
        decide

end ReactRuntime.Storage
