import RecordSource.Json.Value

/-!
Remote calls as the queries see them: a request, and after some time a JSON answer or a failure.
-/
namespace RecordSource.Transport

/-- Why one call failed. -/
inductive Failure where
  /-- The server answered with a status that is no success. -/
  | status (code : Nat) (body : String)
  | timedOut
  | network (detail : String)
  /-- The answer was no JSON. -/
  | undecodable (detail : String)
  deriving DecidableEq, Repr

namespace Failure

def code? : Failure → Option Nat
  | status code _ => some code
  | _ => none

def message : Failure → String
  | status code body => "request failed with status code: " ++ toString code ++ ". Error message: " ++ body
  | timedOut => "request timed out"
  | network detail => "network error: " ++ detail
  | undecodable detail => "malformed response: " ++ detail

end Failure

inductive Method where
  | get | post
  deriving DecidableEq, Repr

def Method.word : Method → String
  | get => "GET"
  | post => "POST"

/-- A call without a body only fetches. -/
structure Request where
  path : String
  body? : Option Json := none

def Request.method (r : Request) : Method := if r.body?.isSome then .post else .get

/-- A request and the millisecond it was sent. -/
structure Sent where
  request : Request
  time : Nat

/-- An answer and the milliseconds it took. -/
structure Answer where
  delay : Nat := 0
  outcome : Except Failure Json

/-- The other side of all calls, with a state of its own. -/
abbrev Remote (σ : Type) := σ → Sent → Answer × σ

end RecordSource.Transport
