import Mathlib.Algebra.GroupWithZero.Nat
import ReactRuntime.Core.Budget
import ReactRuntime.Core.Text
import ReactRuntime.Session.Types

/-!
# The transcript of an agent

The head of a transcript opens every prompt. The tail grows with each step, and a
prompt holds as much of its end as the token ceiling allows. Token counts are `u32`
numbers, written as natural numbers below `2 ^ 32`.
-/
namespace ReactRuntime.Agent
open Serde ReactRuntime.Core Session

inductive ChatRole where
  | system
  | user
  | assistant
deriving DecidableEq, Repr

def ChatRole.display : ChatRole → String
  | .system => "system"
  | .user => "user"
  | .assistant => "assistant"

structure ChatMessage where
  role : ChatRole
  content : String
deriving DecidableEq, Repr

structure ToolError where
  message : String
deriving DecidableEq, Repr

inductive ToolOutcome where
  | ok (v : Json)
  | failed (e : ToolError)
deriving DecidableEq

namespace ToolOutcome

def isOk : ToolOutcome → Bool
  | .ok _ => true
  | .failed _ => false

/-- What the policy sees of an outcome. -/
def asInterruptValue : ToolOutcome → Json
  | .ok v => v
  | .failed e => .obj [("errors", .arr [.str e.message])]

def observation : ToolOutcome → ToolObservation
  | .ok v => .fromSuccess v
  | .failed e => .fromFailure e.message

end ToolOutcome

def truncateEntry (s : String) (maxChars : Nat) : String :=
  if s.toList.length ≤ maxChars then s
  else truncateChars s (maxChars - 14) ++ " …(truncated)"

/-- `u32` addition that stops at the largest value. -/
def saturatingAdd (a b : Nat) : Nat := min (a + b) U32_MAX.toNat

def estimateTokens (text : String) : Nat :=
  saturatingAdd (text.toList.length / 4 % 2 ^ 32) 1

def tokensToChars (tokens : Nat) : Nat := tokens * 4

/-- Token ceilings for one prompt; neither is zero. -/
structure PromptBudget where
  totalTokens : Nat
  perEntryTokens : Nat
  total_pos : 0 < totalTokens
  perEntry_pos : 0 < perEntryTokens
deriving DecidableEq

/-- The model settings that prompts depend on. -/
structure LlmResolved where
  reasonModel : Option String
  contextLength : Option Nat
  maxTokens : Option Nat
deriving DecidableEq, Repr

namespace PromptBudget

def DEFAULT_CONTEXT : Nat := 8192
def DEFAULT_MAX_OUTPUT : Nat := 4096

def fromModel (contextLength maxOutput : Nat) : PromptBudget :=
  let ctx := max contextLength 1024
  let reserved := max (min maxOutput (ctx - 512)) 1
  let total := max (ctx - reserved) 1024
  { totalTokens := total
    perEntryTokens := max (total / 8) 256
    total_pos := by omega
    perEntry_pos := by omega }

def fromResolved (llm : LlmResolved) : PromptBudget :=
  fromModel (llm.contextLength.getD DEFAULT_CONTEXT % 2 ^ 32)
    (llm.maxTokens.getD DEFAULT_MAX_OUTPUT)

def perEntryChars (b : PromptBudget) : Nat := tokensToChars b.perEntryTokens

end PromptBudget

def LEDGER_CAP : Nat := 8
def LEDGER_EXCERPT_CHARS : Nat := 400

structure LedgerEntry where
  fingerprint : String
  count : Nat
  excerpt : String
deriving DecidableEq, Repr

structure ErrorLedger where
  entries : List LedgerEntry
deriving DecidableEq, Repr

namespace ErrorLedger

def default : ErrorLedger := ⟨[]⟩

/-- A known failure moves to the end, and a new one may push out the oldest. Counts are `u16`. -/
def record (self : ErrorLedger) (fingerprint excerpt : String) : ErrorLedger :=
  let excerpt := truncateChars excerpt LEDGER_EXCERPT_CHARS
  match self.entries.findIdx? fun e => e.fingerprint == fingerprint with
  | some idx =>
    let count := match self.entries[idx]? with
      | some e => min (e.count + 1) 65535
      | none => 1
    ⟨self.entries.eraseIdx idx ++ [⟨fingerprint, count, excerpt⟩]⟩
  | none =>
    let kept := if self.entries.length ≥ LEDGER_CAP then self.entries.drop 1 else self.entries
    ⟨kept ++ [⟨fingerprint, 1, excerpt⟩]⟩

def render (self : ErrorLedger) : Option String :=
  if self.entries.isEmpty then none
  else some (self.entries.foldl (fun out e => out ++ "\n- " ++ e.fingerprint ++ " (" ++
    toString e.count ++ "x): " ++ e.excerpt) "Known failures:")

end ErrorLedger

inductive Entry where
  | system (s : String)
  | toolCard (s : String)
  | outputContract (s : String)
  | prelude (s : String)
  | user (s : String)
  | assistant (s : String)
  | observation (tool : String) (outcome : ToolOutcome)
  | parseRejected (s : String)
  | completionRejected (reason : String)
deriving DecidableEq

def Entry.role : Entry → ChatRole
  | .system _ | .toolCard _ | .outputContract _ | .prelude _ => .system
  | .user _ | .observation _ _ | .parseRejected _ | .completionRejected _ => .user
  | .assistant _ => .assistant

/-- The whole text of an entry; `jsonText` prints a document. -/
def Entry.raw (jsonText : Json → String) : Entry → String
  | .system s | .toolCard s | .outputContract s | .prelude s | .user s | .assistant s => s
  | .observation tool (.ok v) => tool ++ " -> " ++ jsonText v
  | .observation tool (.failed e) => tool ++ " failed: " ++ e.message
  | .parseRejected s => "parse rejected: " ++ s
  | .completionRejected reason => "completion rejected: " ++ reason

def Entry.content (jsonText : Json → String) (e : Entry) (perEntryChars : Nat) : String :=
  truncateEntry (e.raw jsonText) perEntryChars

structure Transcript where
  head : List Entry
  tail : List Entry
  ledger : ErrorLedger
deriving DecidableEq

namespace Transcript
variable (jsonText : Json → String)

/-- The prelude may only add system text; an entry of another kind is added as text. -/
def start (system toolsCard outputContract : String) (preludeEntries : List Entry)
    (question : String) : Transcript where
  head := [.system system, .toolCard toolsCard, .outputContract outputContract] ++
    preludeEntries.map (fun e => match e with
      | .prelude s => .prelude s
      | other => .prelude (other.raw jsonText)) ++
    [.user question]
  tail := []
  ledger := .default

def push (self : Transcript) (e : Entry) : Transcript := { self with tail := self.tail ++ [e] }

def recordError (self : Transcript) (fingerprint excerpt : String) : Transcript :=
  { self with ledger := self.ledger.record fingerprint excerpt }

/-- The text of a head entry that goes into the system message. -/
def systemPart (perChars : Nat) : Entry → Option String
  | .user _ => none
  | other => some (other.content jsonText perChars)

/-- The last question of the head. -/
def userQuestion (self : Transcript) (perChars : Nat) : Option String :=
  self.head.foldl (fun found e => match e with
    | .user q => some (truncateEntry q perChars)
    | _ => found) none

/-- Newest first: the entries that fit on top of what is used. -/
def takeTail (perChars total : Nat) : Nat → List Entry → List ChatMessage
  | _, [] => []
  | used, e :: older =>
    let msg : ChatMessage := ⟨e.role, e.content jsonText perChars⟩
    let t := estimateTokens msg.content
    if saturatingAdd used t > total then []
    else msg :: takeTail perChars total (saturatingAdd used t) older

def render (self : Transcript) (budget : PromptBudget) : List ChatMessage :=
  let perChars := budget.perEntryChars
  let ledgerPart := self.ledger.render.map fun text => truncateEntry text perChars
  let systemParts := self.head.filterMap (systemPart jsonText perChars) ++ ledgerPart.toList
  let question := self.userQuestion perChars
  let out : List ChatMessage := ⟨.system, "\n".intercalate systemParts⟩ ::
    (question.map fun q => ⟨.user, q⟩).toList
  let used := (out.map fun m => estimateTokens m.content).sum % 2 ^ 32
  out ++ (takeTail jsonText perChars budget.totalTokens used self.tail.reverse).reverse

end Transcript
end ReactRuntime.Agent
