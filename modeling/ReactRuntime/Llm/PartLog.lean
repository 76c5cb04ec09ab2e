import Mathlib.Data.Finset.Card
import Mathlib.Data.List.Nodup
import ReactRuntime.Library.RelyGuarantee
import ReactRuntime.Llm.PromptParts

/-!
# What the log of the calls keeps

Any number of calls print their prompts at once. Every reference to a chunk is to one that some call
prints, so that the prompts can be read off the log as a whole, and as long as the chunks are not too
many none is printed twice.
-/
namespace ReactRuntime.Llm
open Library ReactRuntime.Core Kb

variable {τ : Type} (sha256HexStr : String → String) (U : LowerTable)

/-- The pieces of a part, and the keys of those that are printed in full. What is left out has been
inserted by a call before. -/
inductive Rendering (first : τ → List String) (threadId name : String) :
    List String → List String → List String → Prop
  | nil : Rendering first threadId name [] [] []
  | full {chunk text chunks pieces keys} : redactCommonSecrets U chunk = some text →
      Rendering first threadId name chunks pieces keys →
      Rendering first threadId name (chunk :: chunks) (fullChunk (sha256HexStr chunk) text :: pieces)
        (chunkSeenKey sha256HexStr threadId name chunk :: keys)
  | unchanged {chunk chunks pieces keys} :
      (∃ u, chunkSeenKey sha256HexStr threadId name chunk ∈ first u) →
      Rendering first threadId name chunks pieces keys →
      Rendering first threadId name (chunk :: chunks) (unchangedChunk (sha256HexStr chunk) :: pieces)
        keys

inductive PartsRendering (first : τ → List String) (threadId : String) :
    List PartInput → List Part → List String → Prop
  | nil : PartsRendering first threadId [] [] []
  | cons {p ps pieces parts keys keys'} :
      Rendering sha256HexStr U first threadId (trim p.name) (paragraphs p.text) pieces keys →
      PartsRendering first threadId ps parts keys' →
      PartsRendering first threadId (p :: ps)
        (⟨trim p.name, sha256HexStr p.text, joinBlank pieces⟩ :: parts) (keys ++ keys')

variable {sha256HexStr U} {first first' : τ → List String} {threadId name : String}

theorem Rendering.mono (hgrows : ∀ u, first u <+: first' u) {chunks pieces keys : List String}
    (h : Rendering sha256HexStr U first threadId name chunks pieces keys) :
    Rendering sha256HexStr U first' threadId name chunks pieces keys := by
  induction h with
  | nil => exact .nil
  | full hredact _ ih => exact .full hredact ih
  | unchanged hseen _ ih =>
    obtain ⟨u, hu⟩ := hseen
    exact .unchanged ⟨u, (hgrows u).subset hu⟩ ih

theorem PartsRendering.mono (hgrows : ∀ u, first u <+: first' u) {ps : List PartInput}
    {parts : List Part} {keys : List String}
    (h : PartsRendering sha256HexStr U first threadId ps parts keys) :
    PartsRendering sha256HexStr U first' threadId ps parts keys := by
  induction h with
  | nil => exact .nil
  | cons hpart _ ih => exact .cons (hpart.mono hgrows) ih

/-- No key has been inserted twice, since the set has never been cleared. -/
structure Once (keys : Finset String) (s : SeenState τ) : Prop where
  kept : ∀ u, ∀ key ∈ s.first u, key ∈ s.seen
  nodup : ∀ u, (s.first u).Nodup
  apart : ∀ u v, u ≠ v → List.Disjoint (s.first u) (s.first v)
  distinct : s.seen.Nodup
  known : ∀ key ∈ s.seen, key ∈ keys

structure Recorded (few : Prop) (keys : Finset String) (s : SeenState τ) : Prop where
  inserted : ∀ key ∈ s.seen, ∃ u, key ∈ s.first u
  once : few → Once keys s

variable [DecidableEq τ] {few : Prop} {keys : Finset String} {s s' : SeenState τ} {t : τ}

/-- A call inserts keys in its own name only. -/
def partPromises (τ : Type) [DecidableEq τ] (few : Prop) (keys : Finset String) :
    Promises (partWorld τ) where
  inv := Recorded few keys
  guarantee t s s' := s.first t <+: s'.first t ∧ ∀ u, u ≠ t → s'.first u = s.first u

theorem first_grows {u : τ} (h : (partPromises τ few keys).guarantee u s s') (v : τ) :
    s.first v <+: s'.first v := by
  by_cases hv : v = u
  · exact hv ▸ h.1
  · exact h.2 v hv ▸ List.prefix_refl _

/-- What the others do leaves one's own insertions and all that has been inserted. -/
theorem rely_first {retired : τ → Prop} {a b : SeenState τ}
    (h : (partPromises τ few keys).Rely retired t a b) :
    b.first t = a.first t ∧ ∀ u, a.first u <+: b.first u := by
  refine h.keeps (S := fun m => m.first t = a.first t ∧ ∀ u, a.first u <+: m.first u) ?_
    ⟨rfl, fun _ => List.prefix_refl _⟩
  rintro u m m' hu - - - hg ⟨hown, hgrow⟩
  exact ⟨(hg.2 t hu.symm).trans hown, fun v => (hgrow v).trans (first_grows hg v)⟩

theorem Recorded.insert {key : String} (h : Recorded few keys s) (hfresh : key ∉ s.seen)
    (hkey : few → key ∈ keys) : Recorded few keys (s.insert t key) := by
  refine ⟨fun k hk => ?_, fun hfew => ?_⟩
  · rcases List.mem_cons.mp hk with rfl | hk
    · exact ⟨t, SeenState.mem_first_insert.mpr (.inr ⟨rfl, rfl⟩)⟩
    · obtain ⟨u, hu⟩ := h.inserted k hk
      exact ⟨u, SeenState.mem_first_insert.mpr (.inl hu)⟩
  · have hold := h.once hfew
    have hnew (u : τ) : key ∉ s.first u := fun hin => hfresh (hold.kept u key hin)
    refine ⟨fun u k hk => ?_, fun u => ?_, fun u v huv k hu hv => ?_,
      List.nodup_cons.mpr ⟨hfresh, hold.distinct⟩, fun k hk => ?_⟩
    · rcases SeenState.mem_first_insert.mp hk with hk | ⟨-, rfl⟩
      · exact List.mem_cons_of_mem _ (hold.kept u k hk)
      · exact List.mem_cons_self
    · by_cases hu : u = t
      · subst hu
        rw [SeenState.first_insert, ← List.concat_eq_append]
        exact (hold.nodup u).concat (hnew u)
      · rw [SeenState.first_insert_of_ne hu]
        exact hold.nodup u
    · rcases SeenState.mem_first_insert.mp hu with hin | ⟨rfl, rfl⟩
      · rcases SeenState.mem_first_insert.mp hv with hin' | ⟨-, rfl⟩
        · exact hold.apart u v huv hin hin'
        · exact hnew u hin
      · rcases SeenState.mem_first_insert.mp hv with hin' | ⟨rfl, -⟩
        · exact hnew v hin'
        · exact huv rfl
    · rcases List.mem_cons.mp hk with rfl | hk
      · exact hkey hfew
      · exact hold.known k hk

omit [DecidableEq τ] in
theorem recorded_start : Recorded few keys (⟨[], fun _ => []⟩ : SeenState τ) := by
  refine ⟨fun key hkey => ?_, fun _ => ⟨fun u key hkey => ?_, fun u => List.nodup_nil,
    fun u v _ => List.disjoint_nil_left _, List.nodup_nil, fun key hkey => ?_⟩⟩ <;> cases hkey

section Contracts
variable {retired : τ → Prop} {α : Type}

/-- The set is cleared only where it has more keys than there are chunks to print. -/
theorem respects_evict {I : SeenState τ → Prop} {Q : α → SeenState τ → Prop}
    {rest : Program PartCall PartCall.Answer α} (hsmall : few → keys.card ≤ MAX_PART_SEEN_ENTRIES)
    (hI : ∀ a b, (∀ u, a.first u <+: b.first u) → b.first t = a.first t → I a → I b)
    (hrest : ∀ m, I m → (partPromises τ few keys).Respects retired t Q rest m) {m : SeenState τ}
    (hm : I m) :
    (partPromises τ few keys).Respects retired t Q (evictPartSeenCacheIfFull rest) m := by
  have hstable {a b : SeenState τ} (h : (partPromises τ few keys).Rely retired t a b) (ha : I a) :
      I b := hI a b (rely_first h).2 (rely_first h).1 ha
  rw [evictPartSeenCacheIfFull, Promises.respects_call]
  intro a ha hi d b n he
  obtain ⟨rfl, rfl⟩ : a = b ∧ a.seen.length = n := by
    cases he
    exact ⟨rfl, rfl⟩
  refine ⟨hi, ⟨List.prefix_refl _, fun _ _ => rfl⟩, ?_⟩
  split_ifs with hfull
  · rw [Promises.respects_call]
    intro c hc hi' d' c' u he'
    obtain rfl : c' = { c with seen := [] } := by
      cases he'
      rfl
    refine ⟨⟨nofun, fun hfew => ?_⟩, ⟨List.prefix_refl _, fun _ _ => rfl⟩, ?_⟩
    · -- With few chunks the set is never that large.
      have honce := hi.once hfew
      have hcard := Finset.card_le_card (s := a.seen.toFinset)
        fun key hk => honce.known key (List.mem_toFinset.mp hk)
      rw [List.toFinset_card_of_nodup honce.distinct] at hcard
      exact absurd (hcard.trans (hsmall hfew)) (not_le.mpr hfull)
    · exact hrest _ (hI c _ (fun _ => List.prefix_refl _) rfl (hstable hc (hstable ha hm)))
  · exact hrest _ (hstable ha hm)

/-- What a call has inserted before is kept apart from what it inserts for these chunks. -/
theorem respects_renderChunks {chunks : List String}
    (hsmall : few → keys.card ≤ MAX_PART_SEEN_ENTRIES)
    (hkeys : few → ∀ chunk ∈ chunks, chunkSeenKey sha256HexStr threadId name chunk ∈ keys)
    {before : List String} {m : SeenState τ} (hm : m.first t = before) :
    (partPromises τ few keys).Respects retired t
      (fun r m => ∀ pieces, r = some pieces → ∃ printed, m.first t = before ++ printed ∧
        Rendering sha256HexStr U m.first threadId name chunks pieces printed)
      (renderChunks sha256HexStr U threadId name chunks) m := by
  induction chunks generalizing before m with
  | nil =>
    refine Promises.Respects.ret fun m' hm' _ pieces h => ?_
    cases h
    exact ⟨[], by rw [(rely_first hm').1, hm, List.append_nil], .nil⟩
  | cons chunk chunks ih =>
    have htail (hfew : few) : ∀ c ∈ chunks, chunkSeenKey sha256HexStr threadId name c ∈ keys :=
      fun c hc => hkeys hfew c (List.mem_cons_of_mem _ hc)
    have hhead (hfew : few) := hkeys hfew chunk List.mem_cons_self
    rw [renderChunks, Promises.respects_call]
    intro a ha hi d b inserted he
    have hfirst : a.first t = before := (rely_first ha).1.trans hm
    by_cases hseen : chunkSeenKey sha256HexStr threadId name chunk ∈ a.seen
    · obtain ⟨rfl, rfl⟩ : a = b ∧ false = inserted := by
        simp only [partWorld, if_pos hseen] at he
        cases he
        exact ⟨rfl, rfl⟩
      refine ⟨hi, ⟨List.prefix_refl _, fun _ _ => rfl⟩, ?_⟩
      refine respects_evict (I := fun m => m.first t = before ∧
        ∃ u, chunkSeenKey sha256HexStr threadId name chunk ∈ m.first u) hsmall ?_ ?_
        ⟨hfirst, hi.inserted _ hseen⟩
      · rintro x y hgrows hown ⟨hx, u, hu⟩
        exact ⟨hown.trans hx, u, (hgrows u).subset hu⟩
      · rintro c ⟨hc, u, hu⟩
        simp only [Bool.false_eq_true, if_false]
        apply Promises.Respects.bind
        have hframe := (ih htail hc).frame
          (S := fun m => chunkSeenKey sha256HexStr threadId name chunk ∈ m.first u)
          (fun _ _ _ _ _ hg hx => (first_grows hg u).subset hx) hu
        refine hframe.mono fun r m' _ hr => Promises.Respects.ret fun m'' hm'' _ pieces h => ?_
        obtain ⟨rest, hrest, rfl⟩ := Option.map_eq_some_iff.mp h
        obtain ⟨printed, hown, hrendering⟩ := hr.1 rest hrest
        obtain ⟨hsame, hgrows⟩ := rely_first hm''
        refine ⟨printed, hsame.trans hown, ?_⟩
        exact .unchanged ⟨u, (hgrows u).subset hr.2⟩ (hrendering.mono hgrows)
    · obtain ⟨rfl, rfl⟩ : a.insert t (chunkSeenKey sha256HexStr threadId name chunk) = b ∧
          true = inserted := by
        simp only [partWorld, if_neg hseen] at he
        cases he
        exact ⟨rfl, rfl⟩
      refine ⟨hi.insert hseen hhead, ⟨by simp, fun u hu => SeenState.first_insert_of_ne hu _⟩, ?_⟩
      refine respects_evict
        (I := fun m => m.first t = before ++ [chunkSeenKey sha256HexStr threadId name chunk])
        hsmall (fun x y _ hown hx => hown.trans hx) ?_ (by rw [SeenState.first_insert, hfirst])
      intro c hc
      simp only [if_true]
      cases hredact : redactCommonSecrets U chunk with
      | none => exact Promises.Respects.ret fun _ _ _ _ => nofun
      | some text =>
        simp only [Option.map_some]
        apply Promises.Respects.bind
        refine (ih htail hc).mono fun r m' _ hr => Promises.Respects.ret fun m'' hm'' _ pieces h => ?_
        obtain ⟨rest, hrest, rfl⟩ := Option.map_eq_some_iff.mp h
        obtain ⟨printed, hown, hrendering⟩ := hr rest hrest
        obtain ⟨hsame, hgrows⟩ := rely_first hm''
        refine ⟨_ :: printed, ?_, .full hredact (hrendering.mono hgrows)⟩
        rw [hsame, hown, List.append_assoc, List.singleton_append]

/-- The keys of a part of a prompt. -/
def partKeys (sha256HexStr : String → String) (threadId : String) (p : PartInput) : List String :=
  (paragraphs p.text).map (chunkSeenKey sha256HexStr threadId (trim p.name))

theorem respects_buildParts {ps : List PartInput}
    (hsmall : few → keys.card ≤ MAX_PART_SEEN_ENTRIES)
    (hkeys : few → ∀ p ∈ ps, ∀ key ∈ partKeys sha256HexStr threadId p, key ∈ keys)
    {before : List String} {m : SeenState τ} (hm : m.first t = before) :
    (partPromises τ few keys).Respects retired t
      (fun r m => ∀ parts, r = some parts → ∃ printed, m.first t = before ++ printed ∧
        PartsRendering sha256HexStr U m.first threadId ps parts printed)
      (buildParts sha256HexStr U threadId ps) m := by
  induction ps generalizing before m with
  | nil =>
    refine Promises.Respects.ret fun m' hm' _ parts h => ?_
    cases h
    exact ⟨[], by rw [(rely_first hm').1, hm, List.append_nil], .nil⟩
  | cons p ps ih =>
    have hhead (hfew : few) : ∀ chunk ∈ paragraphs p.text,
        chunkSeenKey sha256HexStr threadId (trim p.name) chunk ∈ keys :=
      fun chunk hchunk => hkeys hfew p List.mem_cons_self _ (List.mem_map_of_mem hchunk)
    have htail (hfew : few) : ∀ q ∈ ps, ∀ key ∈ partKeys sha256HexStr threadId q, key ∈ keys :=
      fun q hq => hkeys hfew q (List.mem_cons_of_mem _ hq)
    apply Promises.Respects.bind
    apply Promises.Respects.bind
    refine (respects_renderChunks hsmall hhead hm).mono fun r a _ hr => Promises.Respects.ret ?_
    intro b hb _
    cases r with
    | none => exact Promises.Respects.ret fun _ _ _ _ => nofun
    | some pieces =>
      obtain ⟨printed, hown, hpart⟩ := hr pieces rfl
      obtain ⟨hsame, hgrows⟩ := rely_first hb
      apply Promises.Respects.bind
      have hframe := (ih htail (hsame.trans hown)).frame
        (S := fun m => Rendering sha256HexStr U m.first threadId (trim p.name) (paragraphs p.text)
          pieces printed)
        (fun _ _ _ _ _ hg hx => hx.mono (first_grows hg)) (hpart.mono hgrows)
      refine hframe.mono fun rs c _ hrs => Promises.Respects.ret fun d hd _ parts h => ?_
      obtain ⟨rest, hrest, rfl⟩ := Option.map_eq_some_iff.mp h
      obtain ⟨printed', hown', hrest'⟩ := hrs.1 rest hrest
      obtain ⟨hsame', hgrows'⟩ := rely_first hd
      refine ⟨printed ++ printed', ?_, .cons (hrs.2.mono hgrows') (hrest'.mono hgrows')⟩
      rw [hsame', hown', List.append_assoc]

end Contracts

/-- A call that prints its prompt. -/
structure PromptCall where
  threadId : String
  parts : List PartInput

section Runs
variable (sha256HexStr U) (call : τ → PromptCall)

def partPool : Pool τ (SeenState τ) PartCall PartCall.Answer (Option BuiltParts) :=
  ⟨⟨[], fun _ => []⟩, fun t => buildPartsForThread sha256HexStr U (call t).threadId (call t).parts⟩

/-- Everything that a call that has returned has printed, and whose first printing it refers to. -/
def Printed (out : BuiltParts) (t : τ) (s : SeenState τ) : Prop :=
  PartsRendering sha256HexStr U s.first (call t).threadId (call t).parts out.parts (s.first t)

variable {sha256HexStr U call} {ls : List (τ × Unit)}
  {p : Pool τ (SeenState τ) PartCall PartCall.Answer (Option BuiltParts)}

theorem partPool_sound (few : Prop) (keys : Finset String)
    (hsmall : few → keys.card ≤ MAX_PART_SEEN_ENTRIES)
    (hkeys : few → ∀ t, ∀ q ∈ (call t).parts, ∀ key ∈ partKeys sha256HexStr (call t).threadId q,
      key ∈ keys) :
    (partPromises τ few keys).Sound (fun _ => False)
      (fun t r m => ∀ out, r = some out → Printed sha256HexStr U call out t m)
      (partPool sha256HexStr U call) := by
  refine ⟨recorded_start, fun t => ?_, nofun⟩
  apply Promises.Respects.bind
  refine (respects_buildParts hsmall (fun hfew => hkeys hfew t) rfl).mono fun r a _ hr => ?_
  refine Promises.Respects.ret fun b hb _ out hout => ?_
  obtain ⟨parts, hparts, rfl⟩ := Option.map_eq_some_iff.mp hout
  obtain ⟨printed, hown, hrendering⟩ := hr parts hparts
  obtain ⟨hsame, hgrows⟩ := rely_first hb
  have hfirst : b.first t = printed := hsame.trans (hown.trans (List.nil_append _))
  rw [Printed, hfirst]
  exact hrendering.mono hgrows

/-! Two calls of one thread that begin with the same chunk, with a text that is made longer in the
place of its hash. -/

def paddedText (s : String) : String :=
  .ofList (s.toList.take 64 ++ List.replicate (64 - (s.toList.take 64).length) '0')

theorem length_paddedText (s : String) : (paddedText s).toList.length = 64 := by
  simp only [paddedText, String.toList_ofList, List.length_append, List.length_replicate,
    List.length_take]
  omega

def pairCall : Fin 2 → PromptCall
  | 0 => ⟨"t1", [⟨"user", "rules\n\nhello"⟩]⟩
  | 1 => ⟨"t1", [⟨"user", "rules\n\nbye"⟩]⟩

def pairKeys : Finset String :=
  ((partKeys paddedText "t1" ⟨"user", "rules\n\nhello"⟩) ++
    partKeys paddedText "t1" ⟨"user", "rules\n\nbye"⟩).toFinset

def pairRun : List (Fin 2 × Unit) :=
  [(0, ()), (1, ()), (1, ()), (0, ()), (0, ()), (0, ()), (1, ()), (1, ())]

/-- As long as the calls have not more different chunks than the set may hold, no chunk is printed
twice for the same thread and part, by whichever calls. -/
theorem part_printed_once (hsmall : keys.card ≤ MAX_PART_SEEN_ENTRIES)
    (hkeys : ∀ t, ∀ q ∈ (call t).parts, ∀ key ∈ partKeys sha256HexStr (call t).threadId q,
      key ∈ keys)
    (hrun : ((partWorld τ).machine (Option BuiltParts)).run (partPool sha256HexStr U call) ls =
      some p) :
    (∀ t out, p.task t = .ret (some out) → Printed sha256HexStr U call out t p.shared) ∧
      (∀ t, (p.shared.first t).Nodup) ∧
      ∀ t u, t ≠ u → List.Disjoint (p.shared.first t) (p.shared.first u) := by
  have hend := (partPool_sound True _ (fun _ => hsmall) fun _ => hkeys).run hrun
  have honce := hend.inv.once trivial
  exact ⟨fun t out ht => hend.post ht out rfl, honce.nodup, honce.apart⟩

theorem part_printed_once_pair :
    ∃ p, ((partWorld (Fin 2)).machine (Option BuiltParts)).run
        (partPool paddedText asciiTable pairCall) pairRun = some p ∧
      ∀ t, (p.shared.first t).Nodup := by
  have hrun : (((partWorld (Fin 2)).machine (Option BuiltParts)).run
      (partPool paddedText asciiTable pairCall) pairRun).isSome = true := by
    decide +kernel
  obtain ⟨p, hp⟩ := Option.isSome_iff_exists.mp hrun
  have hkeys : ∀ t, ∀ q ∈ (pairCall t).parts,
      ∀ key ∈ partKeys paddedText (pairCall t).threadId q, key ∈ pairKeys := by
    intro t q hq key hkey
    match t, hq with
    | 0, hq =>
      obtain rfl := List.mem_singleton.mp hq
      exact List.mem_toFinset.mpr (List.mem_append_left _ hkey)
    | 1, hq =>
      obtain rfl := List.mem_singleton.mp hq
      exact List.mem_toFinset.mpr (List.mem_append_right _ hkey)
  have hsmall : pairKeys.card ≤ MAX_PART_SEEN_ENTRIES :=
    (List.toFinset_card_le _).trans (by decide +kernel)
  exact ⟨p, hp, (part_printed_once hsmall hkeys hp).2.1⟩

/-- A piece of some part of what has been printed. -/
def HasPiece (parts : List Part) (piece : String) : Prop :=
  ∃ part ∈ parts, ∃ pieces, part.text = joinBlank pieces ∧ piece ∈ pieces

omit [DecidableEq τ] in
theorem Rendering.printed {chunks pieces printed : List String}
    (h : Rendering sha256HexStr U first threadId name chunks pieces printed) {key : String}
    (hkey : key ∈ printed) :
    ∃ chunk ∈ chunks, ∃ text, redactCommonSecrets U chunk = some text ∧
      key = chunkSeenKey sha256HexStr threadId name chunk ∧
      fullChunk (sha256HexStr chunk) text ∈ pieces := by
  induction h with
  | nil => cases hkey
  | full hredact _ ih =>
    rcases List.mem_cons.mp hkey with rfl | hkey
    · exact ⟨_, List.mem_cons_self, _, hredact, rfl, List.mem_cons_self⟩
    · obtain ⟨chunk, hchunk, text, htext, heq, hpiece⟩ := ih hkey
      exact ⟨chunk, List.mem_cons_of_mem _ hchunk, text, htext, heq, List.mem_cons_of_mem _ hpiece⟩
  | unchanged _ _ ih =>
    obtain ⟨chunk, hchunk, text, htext, heq, hpiece⟩ := ih hkey
    exact ⟨chunk, List.mem_cons_of_mem _ hchunk, text, htext, heq, List.mem_cons_of_mem _ hpiece⟩

omit [DecidableEq τ] in
theorem PartsRendering.printed {ps : List PartInput} {parts : List Part} {printed : List String}
    (h : PartsRendering sha256HexStr U first threadId ps parts printed) {key : String}
    (hkey : key ∈ printed) :
    ∃ q ∈ ps, ∃ chunk ∈ paragraphs q.text, ∃ text, redactCommonSecrets U chunk = some text ∧
      key = chunkSeenKey sha256HexStr threadId (trim q.name) chunk ∧
      HasPiece parts (fullChunk (sha256HexStr chunk) text) := by
  induction h with
  | nil => cases hkey
  | cons hpart _ ih =>
    rcases List.mem_append.mp hkey with hkey | hkey
    · obtain ⟨chunk, hchunk, text, htext, heq, hpiece⟩ := hpart.printed hkey
      exact ⟨_, List.mem_cons_self, chunk, hchunk, text, htext, heq, _, List.mem_cons_self, _, rfl,
        hpiece⟩
    · obtain ⟨q, hq, chunk, hchunk, text, htext, heq, part, hpart, hpiece⟩ := ih hkey
      exact ⟨q, List.mem_cons_of_mem _ hq, chunk, hchunk, text, htext, heq, part,
        List.mem_cons_of_mem _ hpart, hpiece⟩

omit [DecidableEq τ] in
/-- A key ends with the hash of its chunk. -/
theorem hash_eq_of_chunkSeenKey_eq (hlength : ∀ s, (sha256HexStr s).toList.length = 64)
    {threadId' name' chunk chunk' : String} (h : chunkSeenKey sha256HexStr threadId name chunk =
      chunkSeenKey sha256HexStr threadId' name' chunk') :
    sha256HexStr chunk = sha256HexStr chunk' := by
  have hlists := congrArg String.toList h
  simp only [chunkSeenKey, String.toList_append] at hlists
  have hend := List.append_inj_right' hlists (by rw [hlength, hlength])
  exact String.toList_inj.mp hend

/-- A chunk and what is printed in its place: itself, or a reference to a piece of the log. -/
def Legible (sha256HexStr : String → String) (U : LowerTable) (log : String → Prop)
    (chunk piece : String) : Prop :=
  ∃ text, redactCommonSecrets U chunk = some text ∧ (piece = fullChunk (sha256HexStr chunk) text ∨
    piece = unchangedChunk (sha256HexStr chunk) ∧ log (fullChunk (sha256HexStr chunk) text))

omit [DecidableEq τ] in
theorem Rendering.legible {log : String → Prop} {chunks pieces printed : List String}
    (h : Rendering sha256HexStr U first threadId name chunks pieces printed)
    (hlog : ∀ chunk ∈ chunks, (∃ u, chunkSeenKey sha256HexStr threadId name chunk ∈ first u) →
      ∃ text, redactCommonSecrets U chunk = some text ∧ log (fullChunk (sha256HexStr chunk) text)) :
    List.Forall₂ (Legible sha256HexStr U log) chunks pieces := by
  induction h with
  | nil => exact .nil
  | full hredact _ ih =>
    exact .cons ⟨_, hredact, .inl rfl⟩ (ih fun c hc => hlog c (List.mem_cons_of_mem _ hc))
  | unchanged hseen _ ih =>
    obtain ⟨text, hredact, hpiece⟩ := hlog _ List.mem_cons_self hseen
    exact .cons ⟨text, hredact, .inr ⟨rfl, hpiece⟩⟩
      (ih fun c hc => hlog c (List.mem_cons_of_mem _ hc))

omit [DecidableEq τ] in
theorem PartsRendering.legible {log : String → Prop} {ps : List PartInput} {parts : List Part}
    {printed : List String} (h : PartsRendering sha256HexStr U first threadId ps parts printed)
    (hlog : ∀ q ∈ ps, ∀ chunk ∈ paragraphs q.text,
      (∃ u, chunkSeenKey sha256HexStr threadId (trim q.name) chunk ∈ first u) →
      ∃ text, redactCommonSecrets U chunk = some text ∧ log (fullChunk (sha256HexStr chunk) text)) :
    List.Forall₂ (fun q part => ∃ pieces, part.text = joinBlank pieces ∧
      List.Forall₂ (Legible sha256HexStr U log) (paragraphs q.text) pieces) ps parts := by
  induction h with
  | nil => exact .nil
  | cons hpart _ ih =>
    exact .cons ⟨_, rfl, hpart.legible (hlog _ List.mem_cons_self)⟩
      (ih fun q hq => hlog q (List.mem_cons_of_mem _ hq))

/-- When all calls have returned, every chunk of every prompt can be read off the log: it is printed
in its place, or its hash is, and then some call has printed it with that hash. -/
theorem part_log_legible (hlength : ∀ s, (sha256HexStr s).toList.length = 64)
    (hdistinct : ∀ t u, ∀ q ∈ (call t).parts, ∀ q' ∈ (call u).parts, ∀ c ∈ paragraphs q.text,
      ∀ c' ∈ paragraphs q'.text, sha256HexStr c = sha256HexStr c' → c = c')
    (hrun : ((partWorld τ).machine (Option BuiltParts)).run (partPool sha256HexStr U call) ls =
      some p)
    (hreturned : ∀ t, ∃ out, p.task t = .ret (some out)) {t : τ} {out : BuiltParts}
    (ht : p.task t = .ret (some out)) :
    List.Forall₂ (fun q part => ∃ pieces, part.text = joinBlank pieces ∧
      List.Forall₂ (Legible sha256HexStr U fun piece =>
          ∃ u out', p.task u = .ret (some out') ∧ HasPiece out'.parts piece)
        (paragraphs q.text) pieces) (call t).parts out.parts := by
  have hend := (partPool_sound False ∅ nofun nofun).run hrun
  refine (hend.post ht out rfl).legible fun q hq chunk hchunk hseen => ?_
  obtain ⟨u, hu⟩ := hseen
  obtain ⟨out', hout'⟩ := hreturned u
  obtain ⟨q', hq', chunk', hchunk', text, htext, hkey, hpiece⟩ :=
    (hend.post hout' out' rfl).printed hu
  obtain rfl : chunk = chunk' := hdistinct t u q hq q' hq' chunk hchunk chunk' hchunk'
    (hash_eq_of_chunkSeenKey_eq hlength hkey)
  exact ⟨text, htext, u, out', hout', hpiece⟩

theorem part_log_legible_pair :
    ∃ (out : BuiltParts) (part : Part) (pieces : List String), part ∈ out.parts ∧
      part.text = joinBlank pieces ∧
        ∃ log, List.Forall₂ (Legible paddedText asciiTable log) ["rules", "bye"] pieces := by
  have hrun : (((partWorld (Fin 2)).machine (Option BuiltParts)).run
      (partPool paddedText asciiTable pairCall) pairRun).any (fun p =>
        ((p.task 0).returned?.bind id).isSome ∧ ((p.task 1).returned?.bind id).isSome) = true := by
    decide +kernel
  obtain ⟨p, hp, hreturned⟩ := (Option.any_eq_true _ _).mp hrun
  obtain ⟨h0, h1⟩ := of_decide_eq_true hreturned
  have hout {t : Fin 2} (h : ((p.task t).returned?.bind id).isSome = true) :
      ∃ out, p.task t = .ret (some out) := by
    obtain ⟨out, hsome⟩ := Option.isSome_iff_exists.mp h
    obtain ⟨r, hr, rfl⟩ := Option.bind_eq_some_iff.mp hsome
    exact ⟨out, Program.returned?_eq_some.mp hr⟩
  obtain ⟨out, ht⟩ := hout h1
  have hdistinct : ∀ t u, ∀ q ∈ (pairCall t).parts, ∀ q' ∈ (pairCall u).parts,
      ∀ c ∈ paragraphs q.text, ∀ c' ∈ paragraphs q'.text, paddedText c = paddedText c' → c = c' := by
    have hchunks : ∀ t, ∀ q ∈ (pairCall t).parts, ∀ c ∈ paragraphs q.text,
        c ∈ ["rules", "hello", "bye"] := by
      decide +kernel
    have hinj : ∀ c ∈ ["rules", "hello", "bye"], ∀ c' ∈ ["rules", "hello", "bye"],
        paddedText c = paddedText c' → c = c' := by
      decide +kernel
    exact fun t u q hq q' hq' c hc c' hc' => hinj c (hchunks t q hq c hc) c' (hchunks u q' hq' c' hc')
  have hall := part_log_legible length_paddedText hdistinct hp
    (fun t => match t with | 0 => hout h0 | 1 => hout h1) ht
  have hparagraphs : paragraphs "rules\n\nbye" = ["rules", "bye"] := by decide +kernel
  cases hparts : out.parts with
  | nil =>
    rw [hparts] at hall
    cases hall
  | cons part parts =>
    rw [hparts] at hall
    cases hall with
    | cons hpart _ =>
      obtain ⟨pieces, htext, hpieces⟩ := hpart
      rw [hparagraphs] at hpieces
      exact ⟨out, part, pieces, by rw [hparts]; exact List.mem_cons_self, htext, _, hpieces⟩

end Runs
end ReactRuntime.Llm
