import Mathlib.Data.List.Infix

/-!
# Reports that keep others back

Items are looked at one after the other, and each is reported unless a report that is already there
keeps it back.
-/
namespace ReactRuntime.Library
variable {α β : Type} (blocks : β → α → Bool) (report : α → β)

def sift (reports : List β) (x : α) : List β :=
  if reports.any fun r => blocks r x then reports else reports ++ [report x]

def siftAll (xs : List α) : List β := xs.foldl (sift blocks report) []

section
variable {blocks : β → α → Bool} {report : α → β} {before after : List α} {x : α} {r : β}

theorem siftAll_append (before after : List α) :
    siftAll blocks report (before ++ after) =
      after.foldl (sift blocks report) (siftAll blocks report before) := List.foldl_append

theorem siftAll_concat (before : List α) (x : α) :
    siftAll blocks report (before ++ [x]) = sift blocks report (siftAll blocks report before) x :=
  siftAll_append before [x]

theorem mem_sift {reports : List β} (h : r ∈ reports) (x : α) : r ∈ sift blocks report reports x := by
  unfold sift
  split_ifs
  · exact h
  · exact List.mem_append_left _ h

/-- The reports are those of the items that are left when items keep each other back. -/
theorem siftAll_eq_map (xs : List α) :
    siftAll blocks report xs = (siftAll (fun y x => blocks (report y) x) id xs).map report := by
  induction xs using List.reverseRecOn with
  | nil => rfl
  | append_singleton xs x ih =>
    rw [siftAll_concat, siftAll_concat, ih, sift, sift, List.any_map]
    split_ifs with hreports hitems hitems
    · rfl
    · exact absurd hreports hitems
    · exact absurd hitems hreports
    · rw [List.map_append]
      rfl

/-- A report stays. -/
theorem mem_siftAll_append (h : r ∈ siftAll blocks report before) (after : List α) :
    r ∈ siftAll blocks report (before ++ after) := by
  induction after using List.reverseRecOn with
  | nil => simpa using h
  | append_singleton after x ih =>
    rw [← List.append_assoc, siftAll_concat]
    exact mem_sift ih x

/-- What is reported was an item that no report kept back. -/
theorem mem_siftAll {xs : List α} : r ∈ siftAll blocks report xs ↔
    ∃ before x after, xs = before ++ x :: after ∧ r = report x ∧
      ∀ q ∈ siftAll blocks report before, blocks q x = false := by
  constructor
  · induction xs using List.reverseRecOn with
    | nil => simp [siftAll]
    | append_singleton xs last ih =>
      intro hr
      rw [siftAll_concat, sift] at hr
      split_ifs at hr with hblocked
      · obtain ⟨before, x, after, rfl, hreport, hfree⟩ := ih hr
        exact ⟨before, x, after ++ [last], by simp, hreport, hfree⟩
      · rcases List.mem_append.mp hr with hr | hr
        · obtain ⟨before, x, after, rfl, hreport, hfree⟩ := ih hr
          exact ⟨before, x, after ++ [last], by simp, hreport, hfree⟩
        · exact ⟨xs, last, [], rfl, List.mem_singleton.mp hr, by simpa using hblocked⟩
  · rintro ⟨before, x, after, rfl, rfl, hfree⟩
    rw [← List.singleton_append, ← List.append_assoc]
    apply mem_siftAll_append
    rw [siftAll_concat, sift, if_neg (by simpa using hfree)]
    exact List.mem_concat_self

/-- A good report is there exactly if there is an item whose report would be good and which only good
reports can keep back. -/
theorem exists_mem_siftAll {xs : List α} (good : β → Prop) :
    (∃ r ∈ siftAll blocks report xs, good r) ↔
      ∃ before x after, xs = before ++ x :: after ∧ good (report x) ∧
        ∀ q ∈ siftAll blocks report before, blocks q x = true → good q := by
  constructor
  · rintro ⟨r, hr, hgood⟩
    obtain ⟨before, x, after, hxs, rfl, hfree⟩ := mem_siftAll.mp hr
    exact ⟨before, x, after, hxs, hgood, fun q hq hblocks => by simp [hfree q hq] at hblocks⟩
  · rintro ⟨before, x, after, rfl, hgood, hblockers⟩
    by_cases hfree : ∀ q ∈ siftAll blocks report before, blocks q x = false
    · exact ⟨report x, mem_siftAll.mpr ⟨before, x, after, rfl, rfl, hfree⟩, hgood⟩
    · push Not at hfree
      obtain ⟨q, hq, hblocks⟩ := hfree
      exact ⟨q, mem_siftAll_append hq _, hblockers q hq (by simpa using hblocks)⟩

end
end ReactRuntime.Library
