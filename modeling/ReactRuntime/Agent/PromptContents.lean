import ReactRuntime.Agent.PromptCeiling

/-!
# The messages of a prompt

A prompt is one system message, the question and the longest end of the pushed entries that fits.
The token counts are `u32` numbers: a head past all of them is counted from zero again, and under
the greatest ceiling nothing is left out.
-/
namespace ReactRuntime.Agent
open Serde ReactRuntime.Core Session

section Fitting
variable {α : Type} (cost : α → Nat)

/-- The first elements that fit on top of what is used. -/
def takeFitting (total : Nat) : (used : Nat) → List α → List α
  | _, [] => []
  | used, x :: xs =>
    if used + cost x ≤ total then x :: takeFitting total (used + cost x) xs else []

/-- An end of a list that fits on top of the head, or is empty, and no longer end fits. -/
structure IsLongestFitting (head total : Nat) (xs kept : List α) : Prop where
  suffix : kept <:+ xs
  fits : kept = [] ∨ head + (kept.map cost).sum ≤ total
  longest : ∀ other, other <:+ xs → head + (other.map cost).sum ≤ total →
    other.length ≤ kept.length

variable {cost}

theorem takeFitting_isPrefix (total used : Nat) (xs : List α) :
    takeFitting cost total used xs <+: xs := by
  induction xs generalizing used with
  | nil => exact List.prefix_rfl
  | cons x xs ih =>
    unfold takeFitting
    split_ifs
    · exact List.cons_prefix_cons.mpr ⟨rfl, ih _⟩
    · exact List.nil_prefix

theorem takeFitting_fits (total used : Nat) (xs : List α) :
    takeFitting cost total used xs = [] ∨
      used + ((takeFitting cost total used xs).map cost).sum ≤ total := by
  induction xs generalizing used with
  | nil => exact .inl rfl
  | cons x xs ih =>
    unfold takeFitting
    split_ifs with hfits
    · right
      rw [List.map_cons, List.sum_cons, ← Nat.add_assoc]
      rcases ih (used + cost x) with hnil | hrest
      · rw [hnil]
        exact hfits
      · exact hrest
    · exact .inl rfl

/-- What fits of the front is taken. -/
theorem isPrefix_takeFitting {total used : Nat} {xs front : List α} (hfront : front <+: xs)
    (hfits : used + (front.map cost).sum ≤ total) :
    front <+: takeFitting cost total used xs := by
  induction front generalizing used xs with
  | nil => exact List.nil_prefix
  | cons x front ih =>
    obtain ⟨rest, rfl⟩ := hfront
    rw [List.map_cons, List.sum_cons, ← Nat.add_assoc] at hfits
    rw [List.cons_append, takeFitting, if_pos (by omega)]
    exact List.cons_prefix_cons.mpr ⟨rfl, ih (List.prefix_append front rest) hfits⟩

theorem isLongestFitting_takeFitting (head total : Nat) (xs : List α) :
    IsLongestFitting cost head total xs (takeFitting cost total head xs.reverse).reverse where
  suffix := by
    rw [← List.reverse_prefix, List.reverse_reverse]
    exact takeFitting_isPrefix total head xs.reverse
  fits := by
    rw [List.reverse_eq_nil_iff, List.map_reverse, List.sum_reverse]
    exact takeFitting_fits total head xs.reverse
  longest other hother hfits := by
    rw [← List.reverse_prefix] at hother
    rw [← List.sum_reverse, ← List.map_reverse] at hfits
    have hle := (isPrefix_takeFitting hother hfits).length_le
    rwa [List.length_reverse] at hle ⊢

/-- Where the head does not fit, nothing is kept. -/
theorem IsLongestFitting.eq_nil {head total : Nat} {xs kept : List α}
    (h : IsLongestFitting cost head total xs kept) (hhead : total < head) : kept = [] :=
  h.fits.resolve_right (by omega)

end Fitting

section
variable (jsonText : Json → String)

def Entry.message (perChars : Nat) (e : Entry) : ChatMessage :=
  ⟨e.role, e.content jsonText perChars⟩

def Entry.tokens (perChars : Nat) (e : Entry) : Nat :=
  estimateTokens (e.content jsonText perChars)

/-- Below the greatest ceiling, saturating sums are the exact ones. -/
theorem takeTail_eq_takeFitting (perChars used : Nat) {total : Nat}
    (htotal : total < U32_MAX.toNat) (entries : List Entry) :
    Transcript.takeTail jsonText perChars total used entries =
      (takeFitting (Entry.tokens jsonText perChars) total used entries).map
        (Entry.message jsonText perChars) := by
  induction entries generalizing used with
  | nil => rfl
  | cons e older ih =>
    have hiff := saturatingAdd_le_iff (a := used) (b := e.tokens jsonText perChars) htotal
    unfold Transcript.takeTail takeFitting
    dsimp only
    rw [← Entry.tokens]
    by_cases hfits : used + e.tokens jsonText perChars ≤ total
    · have hle := hiff.mpr hfits
      rw [if_neg (Nat.not_lt.mpr hle), if_pos hfits, List.map_cons, ih,
        saturatingAdd_eq (Nat.lt_of_le_of_lt hle htotal)]
      rfl
    · rw [if_pos (Nat.lt_of_not_le (hiff.not.mpr hfits)), if_neg hfits]
      rfl

/-- Under the greatest ceiling every entry is taken. -/
theorem takeTail_top (perChars used : Nat) (entries : List Entry) :
    Transcript.takeTail jsonText perChars U32_MAX.toNat used entries =
      entries.map (Entry.message jsonText perChars) := by
  induction entries generalizing used with
  | nil => rfl
  | cons e older ih =>
    have hle : saturatingAdd used (e.tokens jsonText perChars) ≤ U32_MAX.toNat :=
      Nat.min_le_right _ _
    unfold Transcript.takeTail
    dsimp only
    rw [← Entry.tokens, if_neg (Nat.not_lt.mpr hle), List.map_cons, ih]
    rfl

theorem takeTail_eq_nil_iff (perChars total used : Nat) (entries : List Entry) :
    Transcript.takeTail jsonText perChars total used entries = [] ↔
      ∀ e ∈ entries.head?, total < saturatingAdd used (e.tokens jsonText perChars) := by
  cases entries with
  | nil => simp [Transcript.takeTail]
  | cons e older =>
    unfold Transcript.takeTail
    dsimp only
    rw [← Entry.tokens]
    split_ifs with hfull
    · simpa using hfull
    · simpa using hfull

/-- The entries that a run pushed. -/
def pushedEntries (events : List Event) : List Entry := events.filterMap Event.entry

/-- The texts of the system message: those of the opening, and that of the failures if there are
any. -/
def Opening.openingTexts (o : Opening) (events : List Event) (perChars : Nat) : List String :=
  (o.system :: o.toolsCard :: o.outputContract :: o.prelude.map (Entry.raw jsonText)).map
    (fun text => truncateEntry text perChars) ++
  if events.filterMap Event.failure = [] then []
  else [truncateEntry ((ledgerOf events).render.getD "") perChars]

/-- Estimated tokens of the first two messages. -/
def Opening.firstTokens (o : Opening) (events : List Event) (perChars : Nat) : Nat :=
  estimateTokens ("\n".intercalate (o.openingTexts jsonText events perChars)) +
    estimateTokens (truncateEntry o.question perChars)

/-- The prompt is the system message, the question and the longest end of the entries that fits,
and no entry has more than its share. -/
def Characterized (o : Opening) (events : List Event) (budget : PromptBudget) : Prop :=
  (∃ kept, IsLongestFitting (Entry.tokens jsonText budget.perEntryChars)
      (o.firstTokens jsonText events budget.perEntryChars) budget.totalTokens
      (pushedEntries events) kept ∧
    (o.transcript jsonText events).render jsonText budget =
      ⟨.system, "\n".intercalate (o.openingTexts jsonText events budget.perEntryChars)⟩ ::
        ⟨.user, truncateEntry o.question budget.perEntryChars⟩ ::
          kept.map (Entry.message jsonText budget.perEntryChars)) ∧
  ∀ e : Entry,
    (14 ≤ budget.perEntryChars →
      (e.content jsonText budget.perEntryChars).toList.length ≤ budget.perEntryChars) ∧
    ((e.raw jsonText).toList.length ≤ budget.perEntryChars →
      e.content jsonText budget.perEntryChars = e.raw jsonText)

/-- The token counts stay in their range: a head in it is followed by entries that need not
saturate, and a head past it by no entry that fits once more. -/
def CountsInRange (head total : Nat) (costs : List Nat) : Prop :=
  if head < 2 ^ 32 then total < U32_MAX.toNat ∨ head + costs.sum ≤ total
  else ∀ newest ∈ costs.getLast?, total < saturatingAdd (head % 2 ^ 32) newest

instance (head total : Nat) (costs : List Nat) : Decidable (CountsInRange head total costs) :=
  inferInstanceAs (Decidable (if head < 2 ^ 32 then _ else _))

theorem ErrorLedger.record_ne_nil (self : ErrorLedger) (fingerprint excerpt : String) :
    (self.record fingerprint excerpt).entries ≠ [] := by
  unfold record
  cases self.entries.findIdx? fun e => e.fingerprint == fingerprint <;> simp

/-- The ledger is in the prompt exactly if a failure was recorded. -/
theorem render_ledgerOf (events : List Event) : (ledgerOf events).render =
    if events.filterMap Event.failure = [] then none
    else some ((ledgerOf events).render.getD "") := by
  unfold ledgerOf
  induction events.filterMap Event.failure using List.reverseRecOn with
  | nil => rfl
  | append_singleton failures failure _ =>
    rw [if_neg (by simp), List.foldl_append, List.foldl_cons, List.foldl_nil]
    have hne := ErrorLedger.record_ne_nil
      (failures.foldl (fun l f => l.record f.1 f.2) .default) failure.1 failure.2
    rw [ErrorLedger.render, if_neg (by simpa using hne)]
    rfl

theorem Opening.systemTexts_eq (o : Opening) (events : List Event) (perChars : Nat) :
    o.systemTexts jsonText events perChars = o.openingTexts jsonText events perChars := by
  rw [systemTexts, openingTexts, render_ledgerOf]
  congr 1
  split_ifs <;> rfl

/-- An entry keeps within its share, and is whole if it fits. -/
theorem content_bounded (perChars : Nat) (e : Entry) :
    (14 ≤ perChars → (e.content jsonText perChars).toList.length ≤ perChars) ∧
      ((e.raw jsonText).toList.length ≤ perChars → e.content jsonText perChars =
        e.raw jsonText) := by
  refine ⟨fun hmarker => ?_, fun hfits => if_pos hfits⟩
  rw [Entry.content, length_truncateEntry, clippedLength]
  split_ifs <;> omega

/-- The messages that a prompt has behind the first two. -/
theorem render_eq (o : Opening) (events : List Event) (budget : PromptBudget) :
    (o.transcript jsonText events).render jsonText budget =
      ⟨.system, "\n".intercalate (o.openingTexts jsonText events budget.perEntryChars)⟩ ::
        ⟨.user, truncateEntry o.question budget.perEntryChars⟩ ::
          (Transcript.takeTail jsonText budget.perEntryChars budget.totalTokens
            (o.firstTokens jsonText events budget.perEntryChars % 2 ^ 32)
            (pushedEntries events).reverse).reverse := by
  rw [o.render_transcript_eq, Opening.firstTokens, Opening.systemText, o.systemTexts_eq]
  rfl

/-- The loop keeps the longest fitting end exactly if its counts stay in their range. -/
theorem takeTail_longest_iff (perChars head : Nat) {total : Nat} (htotal : total < 2 ^ 32)
    (entries : List Entry) :
    (∃ kept, IsLongestFitting (Entry.tokens jsonText perChars) head total entries kept ∧
      (Transcript.takeTail jsonText perChars total (head % 2 ^ 32) entries.reverse).reverse =
        kept.map (Entry.message jsonText perChars)) ↔
      CountsInRange head total (entries.map (Entry.tokens jsonText perChars)) := by
  unfold CountsInRange
  by_cases hhead : head < 2 ^ 32
  · rw [if_pos hhead, Nat.mod_eq_of_lt hhead]
    by_cases htop : total < U32_MAX.toNat
    · refine ⟨fun _ => .inl htop, fun _ => ⟨_, isLongestFitting_takeFitting head total entries, ?_⟩⟩
      rw [takeTail_eq_takeFitting jsonText perChars head htop, List.map_reverse]
    · have hmax : U32_MAX.toNat = 4294967295 := rfl
      obtain rfl : total = U32_MAX.toNat := by omega
      rw [takeTail_top, List.map_reverse, List.reverse_reverse]
      constructor
      · rintro ⟨kept, hkept, heq⟩
        have hlength : kept.length = entries.length := by
          have hlengths := congrArg List.length heq
          rwa [List.length_map, List.length_map, eq_comm] at hlengths
        obtain rfl := hkept.suffix.eq_of_length hlength
        rcases hkept.fits with hnil | hfits
        · rw [hnil]
          exact .inr (by simp; omega)
        · exact .inr hfits
      · intro hrange
        have hfits := hrange.resolve_left htop
        exact ⟨entries, ⟨List.suffix_rfl, .inr hfits, fun other hother _ => hother.length_le⟩, rfl⟩
  · rw [if_neg hhead]
    have hover : total < head := by omega
    have hnewest : (∀ newest ∈ (entries.map (Entry.tokens jsonText perChars)).getLast?,
        total < saturatingAdd (head % 2 ^ 32) newest) ↔
        Transcript.takeTail jsonText perChars total (head % 2 ^ 32) entries.reverse = [] := by
      rw [takeTail_eq_nil_iff, List.head?_reverse, List.getLast?_map]
      cases entries.getLast? <;> simp
    rw [hnewest]
    constructor
    · rintro ⟨kept, hkept, heq⟩
      rw [hkept.eq_nil hover, List.map_nil, List.reverse_eq_nil_iff] at heq
      exact heq
    · intro hnil
      refine ⟨[], ⟨List.nil_suffix, .inl rfl, fun other _ hfits => by omega⟩, ?_⟩
      rw [hnil]
      rfl

/-- A prompt is what its budget says exactly if the token counts stay in their range. -/
theorem render_characterized_iff (o : Opening) (events : List Event) (budget : PromptBudget)
    (htotal : budget.totalTokens < 2 ^ 32) :
    Characterized jsonText o events budget ↔
      CountsInRange (o.firstTokens jsonText events budget.perEntryChars) budget.totalTokens
        ((pushedEntries events).map (Entry.tokens jsonText budget.perEntryChars)) := by
  rw [← takeTail_longest_iff jsonText budget.perEntryChars _ htotal, Characterized, render_eq,
    and_iff_left (content_bounded jsonText budget.perEntryChars)]
  refine exists_congr fun kept => and_congr_right fun _ => ?_
  rw [List.cons.injEq, List.cons.injEq]
  exact ⟨fun h => h.2.2, fun h => ⟨rfl, rfl, h⟩⟩

end

/-! Two runs on concrete texts. -/

def shortOpening : Opening := ⟨"system", "tools", "contract", [], "question"⟩

/-- Under a small ceiling a pushed text is in the prompt. -/
theorem render_characterized_short :
    Characterized (fun _ => "") shortOpening [.push (.assistant "hi")] (.fromModel 1024 512) :=
  (render_characterized_iff (fun _ => "") shortOpening [.push (.assistant "hi")]
    (.fromModel 1024 512) (by decide)).mpr (by decide +kernel)

/-- The greatest ceilings. -/
def topBudget : PromptBudget := ⟨2 ^ 32 - 1, 2 ^ 32 - 1, by decide, by decide⟩

/-- Two long texts. -/
def longEvents : List Event :=
  [.push (.assistant (filler (2 ^ 33))), .push (.assistant (filler (2 ^ 33)))]

theorem tokens_filler (jsonText : Json → String) (perChars n : Nat) :
    (Entry.assistant (filler n)).tokens jsonText perChars =
      tokensOfLength (clippedLength perChars n) := by
  have hraw : (Entry.assistant (filler n)).raw jsonText = filler n := rfl
  rw [Entry.tokens, estimateTokens_eq, Entry.content, length_truncateEntry, hraw, length_filler]

/-- Two texts that are together past the greatest ceiling are both in the prompt. -/
theorem render_past_topBudget :
    ¬ Characterized (fun _ => "") shortOpening longEvents topBudget := by
  rw [Characterized, render_eq]
  rintro ⟨⟨kept, hkept, heq⟩, -⟩
  rw [List.cons.injEq, List.cons.injEq] at heq
  have hrange := (takeTail_longest_iff (fun _ => "") topBudget.perEntryChars
    (shortOpening.firstTokens (fun _ => "") longEvents topBudget.perEntryChars)
    (by decide) (pushedEntries longEvents)).mp ⟨kept, hkept, heq.2.2⟩
  have hcosts : (pushedEntries longEvents).map
      (Entry.tokens (fun _ => "") topBudget.perEntryChars) = [2 ^ 31 + 1, 2 ^ 31 + 1] := by
    have hentries : pushedEntries longEvents =
        [.assistant (filler (2 ^ 33)), .assistant (filler (2 ^ 33))] := rfl
    have hcost : tokensOfLength (clippedLength topBudget.perEntryChars (2 ^ 33)) =
        2 ^ 31 + 1 := by decide
    rw [hentries, List.map_cons, List.map_singleton, tokens_filler, hcost]
  have hfirst : shortOpening.firstTokens (fun _ => "") longEvents topBudget.perEntryChars = 9 := by
    decide +kernel
  rw [hcosts, hfirst] at hrange
  exact absurd hrange (by decide)

end ReactRuntime.Agent
