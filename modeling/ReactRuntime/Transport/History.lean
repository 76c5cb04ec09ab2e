import ReactRuntime.Session.Types
import ReactRuntime.Transport.Mapping
import Mathlib.Data.List.Sort

/-!
# History pages

The messages of a log are numbered from one. A page has the last messages below a cursor, and the
number of its first message is the cursor of the page before. Pages that a client follows back,
while the log grows, are all messages below the first cursor, each once.
-/
namespace ReactRuntime.Transport
open Serde Session

inductive Role where
  | user
  | assistant
deriving DecidableEq, Repr

structure HistoryMessage where
  threadSeq : Int32
  role : Role
  content : String
  createdAt : String
deriving DecidableEq

/-- What the number of a message is put in front of. -/
structure MessageBody where
  role : Role
  content : String
  createdAt : String
deriving DecidableEq

section
variable (toString : Json → Except String String)

/-- The message that a step is in the history, if it is one. -/
def bodyOf (step : ThreadStep) : Option MessageBody :=
  match step with
  | .user text .. => some ⟨.user, text, step.ts⟩
  | .complete _ payload display .. =>
    let content := ((display.or (strField payload "text")).or (strField payload "answer")).getD
      (finalDisplayTextFromPayload toString payload)
    some ⟨.assistant, content, step.ts⟩
  | .reviewResponse text .. => some ⟨.assistant, text, step.ts⟩
  | .interrupt _ prompt .. => some ⟨.assistant, prompt, step.ts⟩
  | _ => none

/-- The messages of the steps, where `tseq` messages come before. -/
def messagesFrom (tseq : Int32) : List ThreadStep → List HistoryMessage
  | [] => []
  | step :: steps => match bodyOf toString step with
    | some body =>
      ⟨tseq + 1, body.role, body.content, body.createdAt⟩ :: messagesFrom (tseq + 1) steps
    | none => messagesFrom tseq steps

/-- The full history of a log. -/
def messages (log : ThreadLog) : List HistoryMessage := messagesFrom toString 0 log.steps

/-- The messages below a cursor. -/
def below (before : Option Int32) (msgs : List HistoryMessage) : List HistoryMessage :=
  match before with
  | some b => msgs.filter fun m => m.threadSeq < b
  | none => msgs

/-- The last messages up to a limit, and the cursor of those before. -/
def cutPage (limit : Int32) (filtered : List HistoryMessage) :
    List HistoryMessage × Option Int32 :=
  let total := Int32.ofNat filtered.length
  if limit < total then
    let start := (total - limit).toNatClampNeg
    let trimmed := filtered.drop start
    let firstSeq := (trimmed.head?.map HistoryMessage.threadSeq).getD 0
    (trimmed, if 1 < firstSeq then some firstSeq else none)
  else (filtered, none)

def buildHistory (log : Except String ThreadLog) (before limitOpt : Option Int32) :
    Except String (List HistoryMessage × Option Int32) := do
  let limit := max (limitOpt.getD 50) 1
  let log ← log
  return cutPage limit (below before (messages toString log))

end

structure UnreadScan where
  tseq : Int32
  assistantCountAfterSeen : Int32
  lastAssistantSeq : Int32
deriving DecidableEq, Repr

def unreadStep (seenSeq : Int32) (scan : UnreadScan) : ThreadStep → UnreadScan
  | .user .. => { scan with tseq := scan.tseq + 1 }
  | .complete .. | .interrupt .. | .reviewResponse .. =>
    let tseq := scan.tseq + 1
    let count := scan.assistantCountAfterSeen
    ⟨tseq, if seenSeq < tseq then count + 1 else count, tseq⟩
  | _ => scan

/-- The number of the last assistant message, and how many come after the seen one. -/
def computeUnreadForLog (log : ThreadLog) (seenSeq : Int32) : Int32 × Int32 :=
  let scan := log.steps.foldl (unreadStep seenSeq) ⟨0, 0, 0⟩
  (scan.lastAssistantSeq, scan.assistantCountAfterSeen)

section
variable {toString : Json → Except String String}

theorem toInt_succ {i : Nat} (h : i + 1 < 2 ^ 31) : (Int32.ofNat i + 1).toInt = i + 1 := by
  have hone : (1 : Int32) = Int32.ofNat 1 := rfl
  rw [hone, ← Int32.ofNat_add, Int32.toInt_ofNat_of_lt h]
  rfl

/-- Messages in a row are numbered on from a number. -/
def NumberedFrom : Nat → List HistoryMessage → Prop
  | _, [] => True
  | i, m :: ms => m.threadSeq.toInt = i + 1 ∧ NumberedFrom (i + 1) ms

theorem messagesFrom_numbered {i : Nat} {steps : List ThreadStep}
    (h : i + (messagesFrom toString (.ofNat i) steps).length < 2 ^ 31) :
    NumberedFrom i (messagesFrom toString (.ofNat i) steps) := by
  induction steps generalizing i with
  | nil => trivial
  | cons step steps ih =>
    rw [messagesFrom] at h ⊢
    cases hbody : bodyOf toString step with
    | none =>
      rw [hbody] at h
      exact ih h
    | some body =>
      have hsucc : Int32.ofNat i + 1 = Int32.ofNat (i + 1) := (Int32.ofNat_add i 1).symm
      rw [hbody, hsucc] at h
      rw [List.length_cons] at h
      refine ⟨toInt_succ (by omega), ?_⟩
      rw [hsucc]
      exact ih (by omega)

namespace NumberedFrom
variable {i : Nat} {ms : List HistoryMessage}

theorem drop (h : NumberedFrom i ms) (k : Nat) : NumberedFrom (i + k) (ms.drop k) := by
  induction ms generalizing i k with
  | nil => rw [List.drop_nil]; trivial
  | cons m ms ih =>
    cases k with
    | zero => exact h
    | succ k =>
      have hrest := ih h.2 k
      rw [List.drop_succ_cons]
      rwa [Nat.add_assoc, Nat.add_comm 1 k] at hrest

theorem of_isPrefix {ms' : List HistoryMessage} (h : NumberedFrom i ms') (hbefore : ms <+: ms') :
    NumberedFrom i ms := by
  induction ms generalizing i ms' with
  | nil => trivial
  | cons m ms ih =>
    obtain ⟨more, rfl⟩ := hbefore
    exact ⟨h.1, ih h.2 (List.prefix_append ms more)⟩

theorem lt_of_mem (h : NumberedFrom i ms) {m : HistoryMessage} (hm : m ∈ ms) :
    (i : Int) < m.threadSeq.toInt := by
  induction ms generalizing i with
  | nil => cases hm
  | cons m' ms ih =>
    rcases List.mem_cons.mp hm with rfl | hrest
    · rw [h.1]
      omega
    · have hlt := ih h.2 hrest
      omega

/-- The messages below a cursor are the first ones. -/
theorem filter_lt (h : NumberedFrom i ms) (b : Int32) :
    (ms.filter fun m => m.threadSeq < b) = ms.take (b.toInt - 1 - i).toNat := by
  induction ms generalizing i with
  | nil => simp
  | cons m ms ih =>
    have hrest := ih h.2
    have hseq := h.1
    by_cases hlt : m.threadSeq < b
    · rw [List.filter_cons_of_pos (by simpa using hlt), hrest]
      rw [Int32.lt_iff_toInt_lt] at hlt
      obtain ⟨n, hn⟩ : ∃ n : Nat, (b.toInt - 1 - i).toNat = n + 1 :=
        ⟨(b.toInt - 1 - i).toNat - 1, by omega⟩
      have hn' : (b.toInt - 1 - ((i + 1 : Nat) : Int)).toNat = n := by omega
      rw [hn, hn', List.take_succ_cons]
    · rw [List.filter_cons_of_neg (by simpa using hlt), hrest]
      rw [Int32.lt_iff_toInt_lt] at hlt
      have hzero : (b.toInt - 1 - i).toNat = 0 := by omega
      have hzero' : (b.toInt - 1 - ((i + 1 : Nat) : Int)).toNat = 0 := by omega
      rw [hzero, hzero', List.take_zero, List.take_zero]

theorem pairwise (h : NumberedFrom i ms) :
    ms.Pairwise fun m m' => m.threadSeq.toInt < m'.threadSeq.toInt := by
  induction ms generalizing i with
  | nil => exact .nil
  | cons m ms ih =>
    refine List.pairwise_cons.mpr ⟨fun m' hm' => ?_, ih h.2⟩
    have hlt := lt_of_mem h.2 hm'
    have hseq := h.1
    omega

end NumberedFrom

theorem messages_numbered {log : ThreadLog} (h : (messages toString log).length < 2 ^ 31) :
    NumberedFrom 0 (messages toString log) :=
  messagesFrom_numbered (by rw [Nat.zero_add]; exact h)

theorem messagesFrom_append (tseq : Int32) (steps more : List ThreadStep) :
    messagesFrom toString tseq (steps ++ more) = messagesFrom toString tseq steps ++
      messagesFrom toString (tseq + .ofNat (messagesFrom toString tseq steps).length) more := by
  induction steps generalizing tseq with
  | nil => simp [messagesFrom]
  | cons step steps ih =>
    rw [List.cons_append, messagesFrom, messagesFrom]
    cases bodyOf toString step with
    | none => exact ih tseq
    | some body =>
      simp only
      rw [ih, List.cons_append, List.length_cons, Nat.add_comm _ 1, Int32.ofNat_add,
        ← Int32.add_assoc]
      rfl

theorem messagesFrom_isPrefix {steps steps' : List ThreadStep} (h : steps <+: steps')
    (tseq : Int32) : messagesFrom toString tseq steps <+: messagesFrom toString tseq steps' := by
  obtain ⟨more, rfl⟩ := h
  rw [messagesFrom_append]
  exact List.prefix_append _ _

theorem below_isPrefix {ms : List HistoryMessage} (h : NumberedFrom 0 ms)
    (before : Option Int32) : below before ms <+: ms := by
  cases before with
  | none => exact List.prefix_rfl
  | some b =>
    rw [below, h.filter_lt b]
    exact List.take_prefix _ _

theorem one_le_limit (limit : Int32) : 1 ≤ (max limit 1).toInt := by
  change 1 ≤ (if limit ≤ 1 then 1 else limit).toInt
  split_ifs with h
  · decide
  · rw [Int32.le_iff_toInt_le, Int32.toInt_one] at h
    omega

/-- The difference of a length and a smaller limit is a length. -/
theorem toNatClampNeg_sub {n : Nat} (hn : n < 2 ^ 31) {limit : Int32} (hlimit : 1 ≤ limit.toInt)
    (hlt : limit.toInt < n) :
    ((.ofNat n - limit).toNatClampNeg : Int) = n - limit.toInt := by
  have hbmod : ((n : Int) - limit.toInt).bmod (2 ^ 32) = n - limit.toInt :=
    Int.bmod_eq_of_le (by omega) (by omega)
  rw [← Int32.toNat_toInt, Int32.toInt_sub, Int32.toInt_ofNat_of_lt hn, hbmod]
  omega

/-- A page is what comes behind some of the messages, and its cursor is just behind these. -/
theorem cutPage_eq {limit : Int32} (hlimit : 1 ≤ limit.toInt) {ms : List HistoryMessage}
    (h : NumberedFrom 0 ms) (hlength : ms.length < 2 ^ 31) :
    cutPage limit ms = (ms, none) ∨ ∃ start b, cutPage limit ms = (ms.drop start, some b) ∧
      start < ms.length ∧ b.toInt = start + 1 := by
  unfold cutPage
  by_cases hlt : limit < Int32.ofNat ms.length
  · right
    have hlt' := Int32.lt_iff_toInt_lt.mp hlt
    rw [Int32.toInt_ofNat_of_lt hlength] at hlt'
    have hstart := toNatClampNeg_sub hlength hlimit hlt'
    set start := (Int32.ofNat ms.length - limit).toNatClampNeg with hdef
    have hshort : start < ms.length := by omega
    have hne : ms.drop start ≠ [] := fun hnil => by
      rw [List.drop_eq_nil_iff] at hnil
      omega
    obtain ⟨m, rest, hm⟩ := List.exists_cons_of_ne_nil hne
    have hseq : m.threadSeq.toInt = start + 1 := by
      have hdrop := h.drop start
      rw [hm] at hdrop
      rw [hdrop.1]
      omega
    have hfirst : 1 < m.threadSeq := by
      rw [Int32.lt_iff_toInt_lt, Int32.toInt_one, hseq]
      omega
    refine ⟨start, m.threadSeq, ?_, hshort, hseq⟩
    simp only [hlt, if_true, ← hdef, hm, List.head?_cons, Option.map_some, Option.getD_some, hfirst]
  · left
    rw [if_neg hlt]

/-- The pages that a client gets that follows the cursors: its requests find one log each. -/
def requestPages (toString : Json → Except String String) (logs : Nat → ThreadLog)
    (limits : Nat → Option Int32) : (fuel k : Nat) → Option Int32 →
      Option (List (List HistoryMessage))
  | 0, _, _ => none
  | fuel + 1, k, before => match buildHistory toString (.ok (logs k)) before (limits k) with
    | .error _ => none
    | .ok (page, none) => some [page]
    | .ok (page, some next) =>
      (requestPages toString logs limits fuel (k + 1) (some next)).map fun pages => page :: pages

section
variable {logs : Nat → ThreadLog} (hgrow : ∀ k, (logs k).steps <+: (logs (k + 1)).steps)
  (hsize : ∀ k, (messages toString (logs k)).length < 2 ^ 31)
include hgrow hsize

/-- The cursor of a page leads to what the page left out, also in a longer log. -/
theorem below_next {k start : Nat} {before : Option Int32} {b : Int32}
    (hstart : start < (below before (messages toString (logs k))).length)
    (hb : b.toInt = start + 1) : below (some b) (messages toString (logs (k + 1))) =
      (below before (messages toString (logs k))).take start := by
  have hbelow := below_isPrefix (messages_numbered (hsize k)) before
  have hnext : below before (messages toString (logs k)) <+: messages toString (logs (k + 1)) :=
    hbelow.trans (messagesFrom_isPrefix (hgrow k) 0)
  have hcount : (b.toInt - 1 - ((0 : Nat) : Int)).toNat = start := by omega
  rw [below, (messages_numbered (hsize (k + 1))).filter_lt b, hcount]
  obtain ⟨more, hmore⟩ := hnext
  rw [← hmore, List.take_append_of_le_length (Nat.le_of_lt hstart)]

theorem requestPages_eq (limits : Nat → Option Int32) {fuel k : Nat} {before : Option Int32}
    (hfuel : (below before (messages toString (logs k))).length < fuel) :
    ∃ pages, requestPages toString logs limits fuel k before = some pages ∧
      pages.reverse.flatten = below before (messages toString (logs k)) := by
  induction fuel generalizing k before with
  | zero => exact absurd hfuel (Nat.not_lt_zero _)
  | succ fuel ih =>
    have hbefore := below_isPrefix (messages_numbered (hsize k)) before
    have hcut := cutPage_eq (one_le_limit ((limits k).getD 50))
      ((messages_numbered (hsize k)).of_isPrefix hbefore)
      (lt_of_le_of_lt hbefore.length_le (hsize k))
    have hbuild : buildHistory toString (.ok (logs k)) before (limits k) =
        .ok (cutPage (max ((limits k).getD 50) 1) (below before (messages toString (logs k)))) := rfl
    rcases hcut with hlast | ⟨start, b, hpage, hstart, hb⟩
    · refine ⟨[below before (messages toString (logs k))], ?_, by simp⟩
      rw [requestPages, hbuild, hlast]
    · have hnext := below_next hgrow hsize hstart hb
      have hshort : (below (some b) (messages toString (logs (k + 1)))).length < fuel := by
        rw [hnext, List.length_take]
        omega
      obtain ⟨pages, hpages, hflat⟩ := ih hshort
      refine ⟨(below before (messages toString (logs k))).drop start :: pages, ?_, ?_⟩
      · rw [requestPages, hbuild, hpage]
        simp only [hpages, Option.map_some]
      · rw [List.reverse_cons, List.flatten_append, hflat, hnext, List.flatten_singleton,
          List.take_append_drop]

end

/-- The numbers of the messages of the assistant. -/
def assistantSeqs (ms : List HistoryMessage) : List Int32 :=
  (ms.filter fun m => m.role = .assistant).map HistoryMessage.threadSeq

theorem unreadStep_eq (toString : Json → Except String String) (seenSeq : Int32)
    (scan : UnreadScan) (step : ThreadStep) :
    unreadStep seenSeq scan step = match bodyOf toString step with
      | none => scan
      | some body => match body.role with
        | .user => { scan with tseq := scan.tseq + 1 }
        | .assistant => ⟨scan.tseq + 1, if seenSeq < scan.tseq + 1
            then scan.assistantCountAfterSeen + 1 else scan.assistantCountAfterSeen,
            scan.tseq + 1⟩ := by
  cases step <;> rfl

/-- Both scans number the messages alike. -/
theorem foldl_unreadStep (toString : Json → Except String String) (seenSeq : Int32)
    (steps : List ThreadStep) (scan : UnreadScan) :
    let seqs := assistantSeqs (messagesFrom toString scan.tseq steps)
    let final := steps.foldl (unreadStep seenSeq) scan
    final.lastAssistantSeq = seqs.getLast?.getD scan.lastAssistantSeq ∧
      final.assistantCountAfterSeen = scan.assistantCountAfterSeen +
        .ofNat (seqs.countP fun seq => seenSeq < seq) := by
  induction steps generalizing scan with
  | nil => exact ⟨rfl, (Int32.add_zero _).symm⟩
  | cons step steps ih =>
    rw [List.foldl_cons, unreadStep_eq toString, messagesFrom]
    cases hbody : bodyOf toString step with
    | none => exact ih scan
    | some body =>
      obtain ⟨role, content, createdAt⟩ := body
      cases role with
      | user => exact ih { scan with tseq := scan.tseq + 1 }
      | assistant =>
        obtain ⟨hlast, hcount⟩ := ih ⟨scan.tseq + 1, if seenSeq < scan.tseq + 1
          then scan.assistantCountAfterSeen + 1 else scan.assistantCountAfterSeen, scan.tseq + 1⟩
        refine ⟨?_, ?_⟩
        · rw [hlast]
          simp [assistantSeqs, List.getLast?_cons]
        · rw [hcount]
          by_cases hseen : seenSeq < scan.tseq + 1
          · simp only [hseen, if_true, assistantSeqs, List.filter_cons, List.map_cons,
              List.countP_cons, decide_true]
            rw [Int32.ofNat_add, Int32.add_assoc, Int32.add_comm 1]
            rfl
          · simp [hseen, assistantSeqs]

theorem assistantSeqs_pairwise {ms : List HistoryMessage} (h : NumberedFrom 0 ms) :
    ((assistantSeqs ms).map Int32.toInt).Pairwise (· < ·) := by
  rw [List.pairwise_map, assistantSeqs, List.pairwise_map]
  exact h.pairwise.filter _

/-- The last number in an increasing row is the greatest. -/
theorem getLast?_eq_max? {ns : List Int} (h : ns.Pairwise (· < ·)) : ns.getLast? = ns.max? := by
  cases hlast : ns.getLast? with
  | none =>
    rw [List.getLast?_eq_none_iff] at hlast
    rw [hlast]
    rfl
  | some n =>
    obtain ⟨front, rfl⟩ := List.getLast?_eq_some_iff.mp hlast
    refine (List.max?_eq_some_iff.mpr ⟨by simp, fun m hm => ?_⟩).symm
    rcases List.mem_append.mp hm with hfront | hn
    · exact le_of_lt ((List.pairwise_append.mp h).2.2 m hfront n (List.mem_singleton_self n))
    · exact le_of_eq (List.mem_singleton.mp hn)

theorem computeUnreadForLog_eq {log : ThreadLog} (hsize : (messages toString log).length < 2 ^ 31)
    (seenSeq : Int32) :
    (computeUnreadForLog log seenSeq).1.toInt =
        ((assistantSeqs (messages toString log)).map Int32.toInt).max?.getD 0 ∧
      (computeUnreadForLog log seenSeq).2.toInt =
        (assistantSeqs (messages toString log)).countP fun seq => seenSeq < seq := by
  obtain ⟨hlast, hcount⟩ := foldl_unreadStep toString seenSeq log.steps ⟨0, 0, 0⟩
  rw [← messages] at hlast hcount
  refine ⟨?_, ?_⟩
  · rw [computeUnreadForLog, hlast, ← getLast?_eq_max? (assistantSeqs_pairwise
      (messages_numbered hsize)), List.getLast?_map]
    cases (assistantSeqs (messages toString log)).getLast? <;> rfl
  · have hle : (assistantSeqs (messages toString log)).countP (fun seq => seenSeq < seq) ≤
        (messages toString log).length := by
      refine List.countP_le_length.trans ?_
      rw [assistantSeqs, List.length_map]
      exact List.length_filter_le _ _
    rw [computeUnreadForLog, hcount, Int32.zero_add]
    exact Int32.toInt_ofNat_of_lt (lt_of_le_of_lt hle hsize)

/-- For every log that grows between the requests, the pages that a client gets are all messages
below its first cursor, each once and in order. The unread count of a log is what its full
history says. -/
theorem history_complete (toString : Json → Except String String) :
    (∀ (logs : Nat → ThreadLog) (limits : Nat → Option Int32) (start : Option Int32),
      (∀ k, (logs k).steps <+: (logs (k + 1)).steps) →
      (∀ k, (messages toString (logs k)).length < 2 ^ 31) →
      let wanted := below start (messages toString (logs 0))
      wanted.Pairwise (fun m m' => m.threadSeq < m'.threadSeq) ∧
        ∃ fuel pages, requestPages toString logs limits fuel 0 start = some pages ∧
          pages.reverse.flatten = wanted) ∧
    ∀ (log : ThreadLog) (seenSeq : Int32), (messages toString log).length < 2 ^ 31 →
      let seqs := assistantSeqs (messages toString log)
      let unread := computeUnreadForLog log seenSeq
      unread.1.toInt = (seqs.map Int32.toInt).max?.getD 0 ∧
        unread.2.toInt = seqs.countP fun seq => seenSeq < seq := by
  refine ⟨fun logs limits start hgrow hsize => ⟨?_, ?_⟩, fun log seenSeq hsize =>
    computeUnreadForLog_eq hsize seenSeq⟩
  · have hnumbered := messages_numbered (hsize 0)
    refine ((hnumbered.of_isPrefix (below_isPrefix hnumbered start)).pairwise).imp ?_
    exact fun hlt => Int32.lt_iff_toInt_lt.mpr hlt
  · exact ⟨_, requestPages_eq hgrow hsize limits (Nat.lt_succ_self _)⟩

/-! A log of three messages, in pages of two. -/

def askAndAnswer : ThreadLog :=
  { ThreadLog.default with
    steps := [.user "ask" Observation.okay "t1" "a",
      .phase "plan" none none none Observation.okay "t2" "a",
      .complete "kb" (.obj [("answer", .str "yes")]) none Observation.okay "t3" "a",
      .user "thanks" Observation.okay "t4" "a"] }

theorem history_complete_askAndAnswer :
    (∃ fuel pages, requestPages (fun _ => .ok "") (fun _ => askAndAnswer) (fun _ => some 2) fuel 0
        none = some pages ∧
      pages.reverse.flatten = messages (fun _ => .ok "") askAndAnswer) ∧
    (computeUnreadForLog askAndAnswer 1).2.toInt = 1 := by
  have h := history_complete (fun _ => .ok "")
  refine ⟨?_, ?_⟩
  · exact (h.1 (fun _ => askAndAnswer) (fun _ => some 2) none (fun _ => List.prefix_rfl)
      (fun _ => by decide)).2
  · exact (h.2 askAndAnswer 1 (by decide)).2

end
end ReactRuntime.Transport
