/-!
# Typed errors of the kernel

Every failure class decides for itself whether it is retried with backoff.
-/
namespace ReactRuntime.Core

/-- Whether a failed operation should be retried with backoff. -/
class Classify (ε : Type) where
  retry : ε → Bool

inductive BudgetExhausted where
  | autoResumes
  | llmCalls
  | toolCalls
  | agentSteps
deriving DecidableEq, Repr

def BudgetExhausted.display : BudgetExhausted → String
  | .autoResumes => "auto-resumes exhausted"
  | .llmCalls => "llm-call budget exhausted"
  | .toolCalls => "tool-call budget exhausted"
  | .agentSteps => "agent-step budget exhausted"

inductive StorageError where
  | notFound (key : String)
  | conflict (msg : String)
  | authExpired (msg : String)
  | throttle (msg : String)
  | timeout (msg : String)
  | other (msg : String)
deriving DecidableEq, Repr

def StorageError.retry : StorageError → Bool
  | .authExpired _ | .throttle _ | .timeout _ => true
  | .notFound _ | .conflict _ | .other _ => false

def StorageError.display : StorageError → String
  | .notFound key => "not found: " ++ key
  | .conflict msg => "conflict: " ++ msg
  | .authExpired msg => "auth expired: " ++ msg
  | .throttle msg => "throttle: " ++ msg
  | .timeout msg => "timeout: " ++ msg
  | .other msg => msg

/-- LLM failures; a timeout carries its length in seconds. -/
inductive LlmError where
  | fatal (msg : String)
  | transient (msg : String)
  | timeout (secs : Nat)
  | cancelled
  | budget (b : BudgetExhausted)
  | protocol (msg : String)
deriving DecidableEq, Repr

def LlmError.retry : LlmError → Bool
  | .transient _ | .timeout _ => true
  | .fatal _ | .cancelled | .budget _ | .protocol _ => false

def LlmError.display : LlmError → String
  | .fatal msg => "fatal: " ++ msg
  | .transient msg => "transient: " ++ msg
  | .timeout secs => "timeout after " ++ toString secs ++ "s"
  | .cancelled => "cancelled"
  | .budget b => "budget: " ++ b.display
  | .protocol msg => "protocol: " ++ msg

inductive StepParseError where
  | notJson (msg : String)
  | schema (msg : String)
  | shapeMismatch (msg : String)
  | args (msg : String)
deriving DecidableEq, Repr

def StepParseError.display : StepParseError → String
  | .notJson msg => "not JSON: " ++ msg
  | .schema msg => "schema: " ++ msg
  | .shapeMismatch msg => "shape: " ++ msg
  | .args msg => "args not JSON: " ++ msg

def StepParseError.retriable (_ : StepParseError) : Bool := true

def StepParseError.label : StepParseError → String
  | .schema _ => "schema_validation_failed"
  | .notJson _ | .shapeMismatch _ | .args _ => "invalid_json_from_model"

inductive CoreError where
  | generic (msg : String)
  | storage (e : StorageError)
  | llm (e : LlmError)
  | serialization (msg : String)
  | session (msg : String)
  | schema (msg : String)
  | agent (msg : String)
  | parse (e : StepParseError)
  | auditConflict (msg : String)
  | auditUnavailable (thread : String) (retries : Nat)
  | keyspace (msg : String)
  | budget (e : BudgetExhausted)
deriving DecidableEq, Repr

def CoreError.retry : CoreError → Bool
  | .llm e => e.retry
  | .storage e => e.retry
  | _ => false

def CoreError.display : CoreError → String
  | .generic msg => msg
  | .storage e => "storage error: " ++ e.display
  | .llm e => e.display
  | .serialization msg => "serialization error: " ++ msg
  | .session msg => "session error: " ++ msg
  | .schema msg => "schema error: " ++ msg
  | .agent msg => "agent error: " ++ msg
  | .parse e => "parse error: " ++ e.display
  | .auditConflict msg => "audit write conflict for '" ++ msg ++ "'"
  | .auditUnavailable thread retries => "audit unavailable for '" ++ thread ++ "' after " ++
      toString retries ++ " conflicts"
  | .keyspace msg => "keyspace error: " ++ msg
  | .budget e => "budget: " ++ e.display

instance : Classify LlmError := ⟨LlmError.retry⟩
instance : Classify CoreError := ⟨CoreError.retry⟩

end ReactRuntime.Core
