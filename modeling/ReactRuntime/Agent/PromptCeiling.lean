import ReactRuntime.Agent.Transcript

/-!
# What one prompt holds

Every message of a prompt is estimated from the length of its text, and the text of an entry is cut
at the entry's share of the ceiling. The head is rendered whole whatever it takes. The tail only
takes what the head leaves: it adds nothing once the head is past the ceiling, and the newest
entry is the first that is dropped then.
-/
namespace ReactRuntime.Agent
open Serde ReactRuntime.Core Session

/-- Length of a text of `n` characters after `truncateEntry`. -/
def clippedLength (maxChars n : Nat) : Nat := if n ≤ maxChars then n else maxChars - 14 + 13

/-- Length of texts joined by one character. -/
def joinedLength (lengths : List Nat) : Nat := lengths.sum + (lengths.length - 1)

def tokensOfLength (n : Nat) : Nat := saturatingAdd (n / 4 % 2 ^ 32) 1

theorem estimateTokens_eq (text : String) :
    estimateTokens text = tokensOfLength text.toList.length := rfl

theorem length_truncateEntry (s : String) (maxChars : Nat) :
    (truncateEntry s maxChars).toList.length = clippedLength maxChars s.toList.length := by
  unfold truncateEntry clippedLength
  split_ifs with h
  · rfl
  · have hcut : min (maxChars - 14) s.toList.length = maxChars - 14 := by omega
    rw [String.toList_append, List.length_append, truncateChars, String.toList_ofList,
      List.length_take, hcut]
    rfl

theorem length_intercalate (sep : Char) (texts : List (List Char)) :
    ([sep].intercalate texts).length = joinedLength (texts.map List.length) := by
  induction texts with
  | nil => rfl
  | cons text rest ih =>
    cases rest with
    | nil => simp [joinedLength]
    | cons next rest =>
      rw [List.intercalate_cons_cons, List.length_append, List.length_append, ih]
      simp only [joinedLength, List.map_cons, List.sum_cons, List.length_cons, List.length_nil]
      omega

/-- Length of one line of the failures. -/
def LedgerEntry.lineLength (e : LedgerEntry) : Nat :=
  e.fingerprint.toList.length + (toString e.count).toList.length + e.excerpt.toList.length + 9

/-- Length of the text of the failures, if there are any. -/
def ErrorLedger.renderLength (self : ErrorLedger) : Option Nat :=
  if self.entries.isEmpty then none
  else some (15 + (self.entries.map LedgerEntry.lineLength).sum)

theorem ErrorLedger.length_lines (entries : List LedgerEntry) (out : String) :
    (entries.foldl (fun out e => out ++ "\n- " ++ e.fingerprint ++ " (" ++
      toString e.count ++ "x): " ++ e.excerpt) out).toList.length =
      out.toList.length + (entries.map LedgerEntry.lineLength).sum := by
  induction entries generalizing out with
  | nil => rfl
  | cons e rest ih =>
    rw [List.foldl_cons, ih, List.map_cons, List.sum_cons, LedgerEntry.lineLength]
    simp only [String.toList_append, List.length_append]
    have h₁ : "\n- ".toList.length = 3 := rfl
    have h₂ : " (".toList.length = 2 := rfl
    have h₃ : "x): ".toList.length = 4 := rfl
    omega

theorem ErrorLedger.length_render (self : ErrorLedger) :
    self.render.map (fun text => text.toList.length) = self.renderLength := by
  unfold render renderLength
  split_ifs with h
  · rfl
  · rw [Option.map_some, length_lines]
    rfl

/-- What an agent starts with. -/
structure Opening where
  system : String
  toolsCard : String
  outputContract : String
  prelude : List Entry
  question : String
deriving DecidableEq

inductive Event where
  | push (e : Entry)
  | recordError (fingerprint excerpt : String)
deriving DecidableEq

namespace Event

def apply (t : Transcript) : Event → Transcript
  | .push e => t.push e
  | .recordError fingerprint excerpt => t.recordError fingerprint excerpt

def entry : Event → Option Entry
  | .push e => some e
  | .recordError _ _ => none

def failure : Event → Option (String × String)
  | .push _ => none
  | .recordError fingerprint excerpt => some (fingerprint, excerpt)

end Event

/-- The failures of a run, as the ledger keeps them. -/
def ledgerOf (events : List Event) : ErrorLedger :=
  (events.filterMap Event.failure).foldl (fun l f => l.record f.1 f.2) .default

section
variable (jsonText : Json → String)

def Opening.transcript (o : Opening) (events : List Event) : Transcript :=
  events.foldl Event.apply
    (.start jsonText o.system o.toolsCard o.outputContract o.prelude o.question)

/-- Lengths of the texts that make up the system message. -/
def Opening.systemLengths (o : Opening) (events : List Event) (perChars : Nat) : List Nat :=
  ((o.system :: o.toolsCard :: o.outputContract :: o.prelude.map (Entry.raw jsonText)).map
    fun text => clippedLength perChars text.toList.length) ++
  ((ledgerOf events).renderLength.map (clippedLength perChars)).toList

/-- Tokens that the head of a prompt takes. -/
def Opening.headTokens (o : Opening) (events : List Event) (perChars : Nat) : Nat :=
  tokensOfLength (joinedLength (o.systemLengths jsonText events perChars)) +
    tokensOfLength (clippedLength perChars o.question.toList.length)

theorem foldl_apply (events : List Event) (t : Transcript) :
    events.foldl Event.apply t =
      ⟨t.head, t.tail ++ events.filterMap Event.entry,
        (events.filterMap Event.failure).foldl (fun l f => l.record f.1 f.2) t.ledger⟩ := by
  induction events generalizing t with
  | nil => simp
  | cons event rest ih =>
    cases event with
    | push e => simp [ih, Event.apply, Event.entry, Event.failure, Transcript.push,
        List.filterMap_cons]
    | recordError fingerprint excerpt =>
      simp [ih, Event.apply, Event.entry, Event.failure, Transcript.recordError,
        List.filterMap_cons]

theorem Opening.transcript_eq (o : Opening) (events : List Event) :
    o.transcript jsonText events =
      ⟨(Transcript.start jsonText o.system o.toolsCard o.outputContract o.prelude
          o.question).head,
        events.filterMap Event.entry, ledgerOf events⟩ := by
  unfold transcript
  rw [foldl_apply]
  rfl

theorem systemPart_start (o : Opening) (perChars : Nat) :
    (Transcript.start jsonText o.system o.toolsCard o.outputContract o.prelude
        o.question).head.filterMap (Transcript.systemPart jsonText perChars) =
      (o.system :: o.toolsCard :: o.outputContract :: o.prelude.map (Entry.raw jsonText)).map
        fun text => truncateEntry text perChars := by
  have hprelude (f : Entry → Entry) (hf : ∀ e, Transcript.systemPart jsonText perChars (f e) =
      some (truncateEntry (e.raw jsonText) perChars)) (entries : List Entry) :
      (entries.map f).filterMap (Transcript.systemPart jsonText perChars) =
        entries.map fun e => truncateEntry (e.raw jsonText) perChars := by
    rw [List.filterMap_map, List.filterMap_eq_map_iff_forall_eq_some]
    exact fun e _ => hf e
  unfold Transcript.start
  rw [List.filterMap_append, List.filterMap_append, hprelude]
  · have huser :
        [Entry.user o.question].filterMap (Transcript.systemPart jsonText perChars) = [] := rfl
    rw [huser, List.append_nil, List.map_cons, List.map_cons, List.map_cons, List.map_map]
    rfl
  · intro e
    cases e <;> rfl

theorem userQuestion_start (o : Opening) (tail : List Entry) (ledger : ErrorLedger)
    (perChars : Nat) :
    Transcript.userQuestion ⟨(Transcript.start jsonText o.system o.toolsCard o.outputContract
      o.prelude o.question).head, tail, ledger⟩ perChars =
      some (truncateEntry o.question perChars) := by
  unfold Transcript.userQuestion Transcript.start
  rw [List.foldl_append]
  rfl

theorem length_ledgerPart (ledger : ErrorLedger) (perChars : Nat) :
    (ledger.render.map fun text => truncateEntry text perChars).toList.map
        (fun text => text.toList.length) =
      (ledger.renderLength.map (clippedLength perChars)).toList := by
  rw [← ErrorLedger.length_render]
  cases ledger.render with
  | none => rfl
  | some text => simp [length_truncateEntry]

/-- The texts that make up the system message. -/
def Opening.systemTexts (o : Opening) (events : List Event) (perChars : Nat) : List String :=
  ((o.system :: o.toolsCard :: o.outputContract :: o.prelude.map (Entry.raw jsonText)).map
    fun text => truncateEntry text perChars) ++
  ((ledgerOf events).render.map fun text => truncateEntry text perChars).toList

def Opening.systemText (o : Opening) (events : List Event) (perChars : Nat) : String :=
  "\n".intercalate (o.systemTexts jsonText events perChars)

theorem Opening.render_transcript_eq (o : Opening) (events : List Event) (budget : PromptBudget) :
    (o.transcript jsonText events).render jsonText budget =
      ⟨.system, o.systemText jsonText events budget.perEntryChars⟩ ::
        ⟨.user, truncateEntry o.question budget.perEntryChars⟩ ::
          (Transcript.takeTail jsonText budget.perEntryChars budget.totalTokens
            ((estimateTokens (o.systemText jsonText events budget.perEntryChars) +
              estimateTokens (truncateEntry o.question budget.perEntryChars)) % 2 ^ 32)
            (events.filterMap Event.entry).reverse).reverse := by
  rw [o.transcript_eq, Transcript.render]
  simp only [systemPart_start, userQuestion_start, Option.map_some, Option.toList_some,
    List.map_cons, List.map_nil, List.sum_cons, List.sum_nil, Nat.add_zero]
  rfl

theorem Opening.length_systemText (o : Opening) (events : List Event) (perChars : Nat) :
    (o.systemText jsonText events perChars).toList.length =
      joinedLength (o.systemLengths jsonText events perChars) := by
  have hlengths : (o.systemTexts jsonText events perChars).map (fun text => text.toList.length) =
      o.systemLengths jsonText events perChars := by
    rw [systemTexts, List.map_append, length_ledgerPart, List.map_map, systemLengths]
    congr 2
    funext text
    exact length_truncateEntry text _
  rw [systemText, String.toList_intercalate, ← hlengths]
  exact (length_intercalate '\n' _).trans (by rw [List.map_map]; rfl)

/-- A prompt is the system message, the question, and what fits of the entries. -/
theorem Opening.render_transcript (o : Opening) (events : List Event) (budget : PromptBudget) :
    ∃ text : String,
      text.toList.length = joinedLength (o.systemLengths jsonText events budget.perEntryChars) ∧
      (o.transcript jsonText events).render jsonText budget =
        ⟨.system, text⟩ :: ⟨.user, truncateEntry o.question budget.perEntryChars⟩ ::
          (Transcript.takeTail jsonText budget.perEntryChars budget.totalTokens
            (o.headTokens jsonText events budget.perEntryChars % 2 ^ 32)
            (events.filterMap Event.entry).reverse).reverse := by
  refine ⟨_, o.length_systemText jsonText events budget.perEntryChars, ?_⟩
  rw [o.render_transcript_eq, headTokens, ← o.length_systemText, estimateTokens_eq,
    estimateTokens_eq, length_truncateEntry]

theorem saturatingAdd_le_iff {a b total : Nat} (h : total < U32_MAX.toNat) :
    saturatingAdd a b ≤ total ↔ a + b ≤ total := by
  unfold saturatingAdd
  omega

theorem saturatingAdd_eq {a b : Nat} (h : saturatingAdd a b < U32_MAX.toNat) :
    saturatingAdd a b = a + b := by
  unfold saturatingAdd at h ⊢
  omega

/-- What the tail adds stays within what is left of the ceiling. -/
theorem sum_takeTail (perChars : Nat) {total used : Nat} (htotal : total < U32_MAX.toNat)
    (hused : used ≤ total) (entries : List Entry) :
    used + ((Transcript.takeTail jsonText perChars total used entries).map
      fun m => estimateTokens m.content).sum ≤ total := by
  induction entries generalizing used with
  | nil => simpa [Transcript.takeTail] using hused
  | cons e older ih =>
    unfold Transcript.takeTail
    dsimp only
    split_ifs with hfull
    · simpa using hused
    · have hfits := Nat.not_lt.mp hfull
      have hrest := ih hfits
      have hsum := saturatingAdd_eq (Nat.lt_of_le_of_lt hfits htotal)
      rw [List.map_cons, List.sum_cons, ← Nat.add_assoc, ← hsum]
      exact hrest

/-- The newest entry is taken exactly if it fits, and if it does not, nothing is taken. -/
theorem getLast?_takeTail (perChars used : Nat) {total : Nat}
    (htotal : total < U32_MAX.toNat)
    (e : Entry) (older : List Entry) :
    (Transcript.takeTail jsonText perChars total used (e :: older)).reverse.getLast? =
      if used + tokensOfLength (clippedLength perChars (e.raw jsonText).toList.length) ≤ total
      then some ⟨e.role, e.content jsonText perChars⟩
      else none := by
  have htokens : estimateTokens (e.content jsonText perChars) =
      tokensOfLength (clippedLength perChars (e.raw jsonText).toList.length) := by
    rw [estimateTokens_eq, Entry.content, length_truncateEntry]
  unfold Transcript.takeTail
  dsimp only
  rw [htokens]
  by_cases hfits : used +
      tokensOfLength (clippedLength perChars (e.raw jsonText).toList.length) ≤ total
  · rw [if_pos hfits, if_neg (Nat.not_lt.mpr ((saturatingAdd_le_iff htotal).mpr hfits))]
    simp
  · rw [if_neg hfits, if_pos (Nat.lt_of_not_le ((saturatingAdd_le_iff htotal).not.mpr hfits))]
    rfl

/-- What a model leaves for a prompt. -/
def ceilingTokens (contextLength maxOutput : Nat) : Nat :=
  max (max contextLength 1024 - max maxOutput 1) 1024

/-- Characters of one entry under a ceiling. -/
def entryChars (ceiling : Nat) : Nat := max (ceiling / 8) 256 * 4

theorem totalTokens_fromModel (contextLength maxOutput : Nat) :
    (PromptBudget.fromModel contextLength maxOutput).totalTokens =
      ceilingTokens contextLength maxOutput := by
  unfold PromptBudget.fromModel ceilingTokens
  dsimp only
  omega

theorem perEntryChars_fromModel (contextLength maxOutput : Nat) :
    (PromptBudget.fromModel contextLength maxOutput).perEntryChars =
      entryChars (ceilingTokens contextLength maxOutput) := by
  rw [← totalTokens_fromModel]
  rfl

theorem ceilingTokens_lt (contextLength maxOutput : UInt32) :
    ceilingTokens contextLength.toNat maxOutput.toNat < U32_MAX.toNat := by
  have hlt := contextLength.toNat_lt
  have hmax : U32_MAX.toNat = 4294967295 := rfl
  unfold ceilingTokens
  omega

/-- The reply fits behind a full prompt exactly if it leaves the smallest ceiling free. -/
theorem ceilingTokens_add_le_iff {contextLength maxOutput : Nat}
    (h : maxOutput < max contextLength 1024) :
    ceilingTokens contextLength maxOutput + maxOutput ≤ max contextLength 1024 ↔
      maxOutput + 1024 ≤ max contextLength 1024 := by
  unfold ceilingTokens
  omega

theorem headTokens_le_sum (o : Opening) (events : List Event) (budget : PromptBudget) :
    o.headTokens jsonText events budget.perEntryChars ≤
      (((o.transcript jsonText events).render jsonText budget).map
        fun m => estimateTokens m.content).sum := by
  obtain ⟨text, htext, hrender⟩ := o.render_transcript jsonText events budget
  rw [hrender, List.map_cons, List.map_cons, List.sum_cons, List.sum_cons, estimateTokens_eq,
    estimateTokens_eq, htext, length_truncateEntry, Opening.headTokens]
  omega

/-- A prompt stays within the ceiling exactly if its head does, and the ceiling leaves room for the
reply exactly if the reply leaves room for the smallest ceiling. -/
theorem prompt_withinCeiling_iff (o : Opening) (events : List Event)
    (contextLength maxOutput : UInt32) :
    ((((o.transcript jsonText events).render jsonText
          (.fromModel contextLength.toNat maxOutput.toNat)).map
        fun m => estimateTokens m.content).sum ≤
          (PromptBudget.fromModel contextLength.toNat maxOutput.toNat).totalTokens ∧
      (maxOutput.toNat < max contextLength.toNat 1024 →
        (PromptBudget.fromModel contextLength.toNat maxOutput.toNat).totalTokens +
          maxOutput.toNat ≤ max contextLength.toNat 1024)) ↔
      o.headTokens jsonText events
          (entryChars (ceilingTokens contextLength.toNat maxOutput.toNat)) ≤
        ceilingTokens contextLength.toNat maxOutput.toNat ∧
      (maxOutput.toNat < max contextLength.toNat 1024 →
        maxOutput.toNat + 1024 ≤ max contextLength.toNat 1024) := by
  have htotal := ceilingTokens_lt contextLength maxOutput
  have hhead := headTokens_le_sum jsonText o events
    (.fromModel contextLength.toNat maxOutput.toNat)
  rw [perEntryChars_fromModel] at hhead
  rw [totalTokens_fromModel]
  refine and_congr ⟨hhead.trans, fun hfits => ?_⟩
    (imp_congr_right fun hbelow => ceilingTokens_add_le_iff hbelow)
  obtain ⟨text, htext, hrender⟩ := o.render_transcript jsonText events
    (.fromModel contextLength.toNat maxOutput.toNat)
  rw [perEntryChars_fromModel, totalTokens_fromModel] at hrender
  rw [perEntryChars_fromModel] at htext
  have hused : o.headTokens jsonText events
      (entryChars (ceilingTokens contextLength.toNat maxOutput.toNat)) % 2 ^ 32 =
      o.headTokens jsonText events
        (entryChars (ceilingTokens contextLength.toNat maxOutput.toNat)) :=
    Nat.mod_eq_of_lt (hfits.trans_lt (htotal.trans (by decide)))
  have htail := sum_takeTail jsonText
    (entryChars (ceilingTokens contextLength.toNat maxOutput.toNat)) htotal hfits
    (events.filterMap Event.entry).reverse
  rw [hrender, hused, List.map_cons, List.map_cons, List.sum_cons, List.sum_cons, List.map_reverse,
    List.sum_reverse, estimateTokens_eq, estimateTokens_eq, htext, length_truncateEntry]
  rw [Opening.headTokens] at htail ⊢
  omega

/-- The last entry that a run pushed. -/
def newestEntry (events : List Event) : Option Entry := (events.filterMap Event.entry).getLast?

/-- A prompt ends with the newest entry exactly if that entry fits on top of the head, or is the
question again. -/
theorem newestEntry_kept_iff (o : Opening) (events : List Event)
    (contextLength maxOutput : UInt32) :
    (∀ e ∈ newestEntry events,
      ((o.transcript jsonText events).render jsonText
          (.fromModel contextLength.toNat maxOutput.toNat)).getLast?.map (·.content) =
        some (e.content jsonText
          (PromptBudget.fromModel contextLength.toNat maxOutput.toNat).perEntryChars)) ↔
      ∀ e ∈ newestEntry events,
        o.headTokens jsonText events
            (entryChars (ceilingTokens contextLength.toNat maxOutput.toNat)) % 2 ^ 32 +
          tokensOfLength
            (clippedLength (entryChars (ceilingTokens contextLength.toNat maxOutput.toNat))
              (e.raw jsonText).toList.length) ≤
            ceilingTokens contextLength.toNat maxOutput.toNat ∨
        truncateEntry o.question
            (entryChars (ceilingTokens contextLength.toNat maxOutput.toNat)) =
          truncateEntry (e.raw jsonText)
            (entryChars (ceilingTokens contextLength.toNat maxOutput.toNat)) := by
  refine forall₂_congr fun e he => ?_
  obtain ⟨older, holder⟩ := List.getLast?_eq_some_iff.mp he
  obtain ⟨text, -, hrender⟩ := o.render_transcript jsonText events
    (.fromModel contextLength.toNat maxOutput.toNat)
  have hnewest := getLast?_takeTail jsonText
    (entryChars (ceilingTokens contextLength.toNat maxOutput.toNat))
    (o.headTokens jsonText events
      (entryChars (ceilingTokens contextLength.toNat maxOutput.toNat)) % 2 ^ 32)
    (ceilingTokens_lt contextLength maxOutput) e older.reverse
  rw [hrender, holder, List.reverse_concat, perEntryChars_fromModel, totalTokens_fromModel,
    List.getLast?_cons, List.getLast?_cons, hnewest, Entry.content]
  split_ifs with hfits
  · exact ⟨fun _ => .inl hfits, fun _ => rfl⟩
  · refine ⟨fun hlast => .inr (Option.some.inj hlast), fun hkept => ?_⟩
    exact congrArg some (hkept.resolve_left hfits)

end

/-! Two runs on concrete texts. -/

/-- A text of `n` characters. -/
def filler (n : Nat) : String := .ofList (.replicate n 'x')

theorem length_filler (n : Nat) : (filler n).toList.length = n := by
  rw [filler, String.toList_ofList, List.length_replicate]

/-- An agent with `n` prelude entries of `k` characters each. -/
def longOpening (n k : Nat) : Opening :=
  ⟨filler 8, filler 8, filler 8, .replicate n (.prelude (filler k)), filler 8⟩

theorem headTokens_longOpening (jsonText : Json → String) {n k perChars : Nat}
    (hchars : 8 ≤ perChars) (hk : k ≤ perChars) (e : Entry) :
    (longOpening n k).headTokens jsonText [.push e] perChars =
      tokensOfLength (joinedLength (8 :: 8 :: 8 :: .replicate n k)) + 3 := by
  have hclip {m : Nat} (hm : m ≤ perChars) : clippedLength perChars m = m := if_pos hm
  have hledger : (ledgerOf [.push e]).renderLength = none := rfl
  have hraw : Entry.raw jsonText (.prelude (filler k)) = filler k := rfl
  have hquestion : tokensOfLength 8 = 3 := rfl
  rw [Opening.headTokens, Opening.systemLengths, hledger, Option.map_none, Option.toList_none,
    List.append_nil, List.map_cons, List.map_cons, List.map_cons, longOpening, List.map_replicate,
    List.map_replicate, hraw, length_filler, length_filler, hclip hk, hclip hchars, hquestion]

/-- Four long prelude entries pass the ceiling of a small model, and the reply does not fit behind
it. -/
theorem prompt_exceedsCeiling_prelude :
    (¬ ∃ jsonText : Json → String,
      ((((longOpening 4 1024).transcript jsonText [.push (.assistant "hi")]).render jsonText
        (.fromModel 1024 512)).map fun m => estimateTokens m.content).sum ≤
        (PromptBudget.fromModel 1024 512).totalTokens) ∧
      512 < max 1024 1024 ∧
      max 1024 1024 < (PromptBudget.fromModel 1024 512).totalTokens + 512 := by
  refine ⟨fun ⟨jsonText, hle⟩ => ?_, by decide, by decide⟩
  have hhead : 1024 < (longOpening 4 1024).headTokens jsonText [.push (.assistant "hi")]
      (PromptBudget.fromModel 1024 512).perEntryChars := by
    rw [headTokens_longOpening jsonText (by decide) (by decide)]
    decide +kernel
  have htotal : (PromptBudget.fromModel 1024 512).totalTokens = 1024 := by decide
  have hsum := headTokens_le_sum jsonText (longOpening 4 1024) [.push (.assistant "hi")]
    (.fromModel 1024 512)
  omega

/-- Eight long prelude entries leave no room for the newest entry under the default model. -/
theorem newestEntry_dropped_prelude :
    newestEntry [.push (.assistant "hi")] = some (.assistant "hi") ∧
    ¬ ∃ jsonText : Json → String,
      (((longOpening 8 2048).transcript jsonText [.push (.assistant "hi")]).render jsonText
        (.fromModel 8192 4096)).getLast?.map (·.content) =
      some (Entry.content jsonText (.assistant "hi")
        (PromptBudget.fromModel 8192 4096).perEntryChars) := by
  refine ⟨rfl, fun ⟨jsonText, hlast⟩ => ?_⟩
  obtain ⟨text, -, hrender⟩ := (longOpening 8 2048).render_transcript jsonText
    [.push (.assistant "hi")] (.fromModel 8192 4096)
  have hhead : 4096 < (longOpening 8 2048).headTokens jsonText [.push (.assistant "hi")]
      (PromptBudget.fromModel 8192 4096).perEntryChars % 2 ^ 32 := by
    rw [headTokens_longOpening jsonText (by decide) (by decide)]
    decide +kernel
  have htail := getLast?_takeTail jsonText (PromptBudget.fromModel 8192 4096).perEntryChars
    ((longOpening 8 2048).headTokens jsonText [.push (.assistant "hi")]
      (PromptBudget.fromModel 8192 4096).perEntryChars % 2 ^ 32)
    (show (PromptBudget.fromModel 8192 4096).totalTokens < U32_MAX.toNat by decide)
    (.assistant "hi") []
  have hentries : ([.push (.assistant "hi")] : List Event).filterMap Event.entry =
      [.assistant "hi"] := rfl
  have htotal : (PromptBudget.fromModel 8192 4096).totalTokens = 4096 := by decide
  rw [if_neg (by omega)] at htail
  rw [hrender, hentries, List.reverse_singleton, List.getLast?_cons, List.getLast?_cons,
    htail] at hlast
  have hlength := congrArg (fun text : String => text.toList.length) (Option.some.inj hlast)
  change (truncateEntry (filler 8) _).toList.length =
    (truncateEntry "hi" _).toList.length at hlength
  rw [length_truncateEntry, length_truncateEntry, length_filler] at hlength
  exact absurd hlength (by decide)

end ReactRuntime.Agent
