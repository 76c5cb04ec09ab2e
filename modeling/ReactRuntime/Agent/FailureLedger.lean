import ReactRuntime.Library.Recency
import ReactRuntime.Agent.Transcript

/-!
# The failures a ledger keeps

A ledger has room for eight fingerprints and keeps those that were recorded last. An entry says how
often its failure was recorded since the fingerprint came into the ledger.
-/
namespace ReactRuntime.Agent
open Library ReactRuntime.Core

/-- A call of `record`: a fingerprint and an excerpt. -/
abbrev RecordCall := String × String

namespace ErrorLedger

def fingerprints (self : ErrorLedger) : List String := self.entries.map LedgerEntry.fingerprint

/-- The ledger after a run of calls. -/
def ofCalls (calls : List RecordCall) : ErrorLedger :=
  calls.foldl (fun ledger c => ledger.record c.1 c.2) .default

theorem ofCalls_concat (calls : List RecordCall) (c : RecordCall) :
    ofCalls (calls ++ [c]) = (ofCalls calls).record c.1 c.2 := by
  rw [ofCalls, List.foldl_append]
  rfl

/-- A known failure moves to the end and counts once more, a new one comes in at the end. -/
theorem record_cases (self : ErrorLedger) (fingerprint excerpt : String) :
    (∃ before e after, self.entries = before ++ e :: after ∧ e.fingerprint = fingerprint ∧
      fingerprint ∉ before.map LedgerEntry.fingerprint ∧
      (self.record fingerprint excerpt).entries = before ++ after ++
        [⟨fingerprint, min (e.count + 1) 65535, truncateChars excerpt LEDGER_EXCERPT_CHARS⟩]) ∨
    (fingerprint ∉ self.fingerprints ∧
      (self.record fingerprint excerpt).entries =
        (if LEDGER_CAP ≤ self.entries.length then self.entries.drop 1 else self.entries) ++
        [⟨fingerprint, 1, truncateChars excerpt LEDGER_EXCERPT_CHARS⟩]) := by
  unfold record
  cases hidx : self.entries.findIdx? fun e => e.fingerprint == fingerprint with
  | some idx =>
    obtain ⟨hlt, hfound, hbefore⟩ := List.findIdx?_eq_some_iff_getElem.mp hidx
    refine .inl ⟨self.entries.take idx, self.entries[idx], self.entries.drop (idx + 1), ?_,
      by simpa using hfound, ?_, ?_⟩
    · rw [← List.drop_eq_getElem_cons hlt, List.take_append_drop]
    · intro hmem
      obtain ⟨e, he, hfp⟩ := List.mem_map.mp hmem
      obtain ⟨j, hj, rfl⟩ := List.mem_iff_getElem.mp he
      rw [List.length_take] at hj
      apply hbefore j (by omega)
      simpa using hfp
    · dsimp only
      rw [List.getElem?_eq_getElem hlt, List.eraseIdx_eq_take_drop_succ]
  | none =>
    refine .inr ⟨?_, rfl⟩
    intro hmem
    obtain ⟨e, he, hfp⟩ := List.mem_map.mp hmem
    have hnone := List.findIdx?_eq_none_iff.mp hidx e he
    simp [hfp] at hnone

/-- The fingerprints of a ledger are the recent keys of a store with room for eight. -/
theorem fingerprints_record (self : ErrorLedger) (fingerprint excerpt : String) :
    (self.record fingerprint excerpt).fingerprints =
      Recency.use LEDGER_CAP self.fingerprints fingerprint := by
  rw [Recency.use]
  rcases record_cases self fingerprint excerpt with
    ⟨before, e, after, hentries, rfl, hbefore, hrecord⟩ | ⟨hnew, hrecord⟩
  · have hself : self.fingerprints = before.map LedgerEntry.fingerprint ++
        e.fingerprint :: after.map LedgerEntry.fingerprint := by
      rw [fingerprints, hentries, List.map_append, List.map_cons]
    rw [hself, if_pos (by simp), List.erase_append_right _ hbefore, List.erase_cons_head,
      fingerprints, hrecord, List.map_append, List.map_append]
    rfl
  · rw [if_neg hnew, fingerprints, hrecord, List.map_append, fingerprints, List.length_map]
    split_ifs
    · rw [List.map_drop]
      rfl
    · rfl

theorem fingerprints_ofCalls (calls : List RecordCall) :
    (ofCalls calls).fingerprints = Recency.recent LEDGER_CAP (calls.map Prod.fst) := by
  induction calls using List.reverseRecOn with
  | nil => rfl
  | append_singleton calls c ih =>
    rw [ofCalls_concat, fingerprints_record, ih, List.map_append, List.map_singleton,
      Recency.recent_concat (show 0 < LEDGER_CAP by decide)]

theorem mem_fingerprints_concat (calls : List RecordCall) (c : RecordCall) :
    c.1 ∈ (ofCalls (calls ++ [c])).fingerprints := by
  rw [ofCalls_concat, fingerprints_record, Recency.use]
  split_ifs <;> simp

end ErrorLedger

/-- An entry has the text of the last call with its fingerprint, and counts the calls since the one
that brought the fingerprint into the ledger, where it stayed from then on. -/
structure Recorded (calls : List RecordCall) (e : LedgerEntry) : Prop where
  latest : ∃ older excerpt newer, calls = older ++ (e.fingerprint, excerpt) :: newer ∧
    e.fingerprint ∉ newer.map Prod.fst ∧ e.excerpt = .ofList (excerpt.toList.take 400)
  counted : ∃ before first since, calls = before ++ (e.fingerprint, first) :: since ∧
    e.fingerprint ∉ (ErrorLedger.ofCalls before).fingerprints ∧
    (∀ start, start <+: since →
      e.fingerprint ∈ (ErrorLedger.ofCalls (before ++ (e.fingerprint, first) :: start)).fingerprints) ∧
    e.count = min (1 + (since.map Prod.fst).count e.fingerprint) 65535

namespace Recorded
variable {calls : List RecordCall} {e : LedgerEntry} {c : RecordCall}

/-- The start of the calls that follow is the start of one call less, or all of them. -/
theorem isPrefix_concat {start since : List RecordCall} (h : start <+: since ++ [c]) :
    start <+: since ∨ start = since ++ [c] := by
  rcases List.prefix_concat_iff.mp h with h | h
  · exact .inr h
  · exact .inl h

/-- A call with another fingerprint that leaves the entry in the ledger. -/
theorem concat (h : Recorded calls e) (hother : e.fingerprint ≠ c.1)
    (hstays : e.fingerprint ∈ (ErrorLedger.ofCalls (calls ++ [c])).fingerprints) :
    Recorded (calls ++ [c]) e := by
  obtain ⟨older, excerpt, newer, hlatest, hnewer, hexcerpt⟩ := h.latest
  obtain ⟨before, first, since, hcalls, hbefore, hsince, hcount⟩ := h.counted
  constructor
  · refine ⟨older, excerpt, newer ++ [c], by simp [hlatest], ?_, hexcerpt⟩
    simp only [List.map_append, List.mem_append, not_or]
    exact ⟨hnewer, by simpa using hother⟩
  · refine ⟨before, first, since ++ [c], by simp [hcalls], hbefore, ?_, ?_⟩
    · intro start hstart
      rcases isPrefix_concat hstart with hstart | rfl
      · exact hsince start hstart
      · simpa [hcalls] using hstays
    · rw [hcount, List.map_append, List.count_append, List.map_singleton,
        List.count_singleton, if_neg (by simpa using hother.symm), Nat.add_zero]

/-- One more call with the fingerprint of the entry. -/
theorem again (h : Recorded calls e) (hsame : c.1 = e.fingerprint) :
    Recorded (calls ++ [c])
      ⟨e.fingerprint, min (e.count + 1) 65535, truncateChars c.2 LEDGER_EXCERPT_CHARS⟩ := by
  obtain ⟨before, first, since, hcalls, hbefore, hsince, hcount⟩ := h.counted
  constructor
  · exact ⟨calls, c.2, [], by simp [← hsame], by simp, rfl⟩
  · refine ⟨before, first, since ++ [c], by simp [hcalls], hbefore, ?_, ?_⟩
    · intro start hstart
      rcases isPrefix_concat hstart with hstart | rfl
      · exact hsince start hstart
      · have hmem := ErrorLedger.mem_fingerprints_concat calls c
        rw [hsame] at hmem
        simpa [hcalls] using hmem
    · have hcons : ((since ++ [c]).map Prod.fst).count e.fingerprint =
          (since.map Prod.fst).count e.fingerprint + 1 := by
        rw [List.map_append, List.count_append, List.map_singleton, hsame,
          List.count_singleton_self]
      dsimp only
      rw [hcount, hcons]
      omega

/-- A call that brings a fingerprint into the ledger. -/
theorem inserted (hnew : c.1 ∉ (ErrorLedger.ofCalls calls).fingerprints) :
    Recorded (calls ++ [c]) ⟨c.1, 1, truncateChars c.2 LEDGER_EXCERPT_CHARS⟩ := by
  constructor
  · exact ⟨calls, c.2, [], rfl, by simp, rfl⟩
  · refine ⟨calls, c.2, [], rfl, hnew, ?_, by simp⟩
    intro start hstart
    rw [List.prefix_nil.mp hstart]
    exact ErrorLedger.mem_fingerprints_concat calls c

end Recorded

namespace ErrorLedger

theorem nodup_fingerprints (calls : List RecordCall) : (ofCalls calls).fingerprints.Nodup := by
  rw [fingerprints_ofCalls]
  exact Recency.nodup_recent ..

/-- Every entry is true of the calls that were made. -/
theorem recorded_ofCalls (calls : List RecordCall) :
    ∀ e ∈ (ofCalls calls).entries, Recorded calls e := by
  induction calls using List.reverseRecOn with
  | nil => simp [ofCalls, ErrorLedger.default]
  | append_singleton calls c ih =>
    intro e he
    have hstays : e.fingerprint ∈ (ofCalls (calls ++ [c])).fingerprints :=
      List.mem_map_of_mem he
    rw [ofCalls_concat] at he
    rcases record_cases (ofCalls calls) c.1 c.2 with
      ⟨before, known, after, hentries, hknown, hbefore, hrecord⟩ | ⟨hnew, hrecord⟩
    · rw [hrecord, List.mem_append, List.mem_singleton] at he
      rcases he with he | rfl
      · have hnodup := nodup_fingerprints calls
        rw [fingerprints, hentries, List.map_append, List.map_cons] at hnodup
        have hother : known.fingerprint ∉ (before ++ after).map LedgerEntry.fingerprint := by
          rw [List.map_append]
          exact (List.nodup_middle.mp hnodup).notMem
        apply (ih e _).concat _ hstays
        · rw [hentries]
          simp only [List.mem_append, List.mem_cons] at he ⊢
          tauto
        · intro heq
          apply hother
          rw [hknown, ← heq]
          exact List.mem_map_of_mem he
      · rw [← hknown]
        exact (ih known (by simp [hentries])).again hknown.symm
    · rw [hrecord, List.mem_append, List.mem_singleton] at he
      rcases he with he | rfl
      · have hold : e ∈ (ofCalls calls).entries := by
          split_ifs at he
          · exact List.mem_of_mem_drop he
          · exact he
        apply (ih e hold).concat _ hstays
        intro heq
        exact hnew (heq ▸ List.mem_map_of_mem hold)
      · exact Recorded.inserted hnew

/-- The ledger keeps the last eight fingerprints, in the order of their last calls. -/
theorem ofCalls_spec (calls : List RecordCall) :
    (ofCalls calls).fingerprints = (calls.map Prod.fst).dedup.rtake 8 ∧
      (ofCalls calls).entries.length ≤ 8 ∧ (ofCalls calls).fingerprints.Nodup ∧
      ∀ e ∈ (ofCalls calls).entries, Recorded calls e := by
  have hlength : (ofCalls calls).fingerprints.length ≤ 8 := by
    rw [fingerprints_ofCalls, Recency.length_recent]
    exact Nat.min_le_left ..
  exact ⟨fingerprints_ofCalls calls, by simpa [fingerprints] using hlength,
    nodup_fingerprints calls, recorded_ofCalls calls⟩

end ErrorLedger
end ReactRuntime.Agent
