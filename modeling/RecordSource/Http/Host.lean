import RecordSource.Json.Value
import RecordSource.Transport.Call

/-!
Servers as they are reached over HTTP. How a request is made of a message, how it is sent, how a body is read as JSON
and what is said of trouble with any of this is not settled here: it is given with the server.
-/
namespace RecordSource.Http

/-- A request as it reaches a server. -/
structure Message where
  method : Transport.Method
  url : String
  apiKey? : Option String
  userAgent : String
  body? : Option Json

/-- Bodies are sent as JSON. -/
def Message.contentType? (m : Message) : Option String := m.body?.map fun _ => "application/json"

/-- Why nothing came back, or nothing that can be read. -/
structure Trouble where
  /-- The time allowed is over. -/
  isTimeout : Bool := false
  /-- Something came, but not what it should be. -/
  isDecode : Bool := false
  text : String
  deriving DecidableEq, Repr

/-- How trouble is told to those who made the call. -/
def Trouble.failure (t : Trouble) : Transport.Failure :=
  if t.isTimeout then .timedOut else if t.isDecode then .undecodable t.text else .network t.text

/-- What comes back for one message. -/
inductive Reply where
  /-- A status and a body, which may break off. -/
  | response (status : Nat) (body : Except Trouble String)
  | failed (t : Trouble)

/-- A server, with a state of its own, and what it is reached by. -/
structure Host (σ : Type) where
  /-- Why no request can be made of a message, if so; its address may be none. -/
  unsendable? : Message → Option Trouble
  send : σ → Message → Reply × σ
  /-- Reads a body that has come in whole. -/
  json : String → Except Trouble Json

/-- What an answer means when it decides a call: a success is read, and any other status is told with its body, empty
if that breaks off. -/
def Host.decide {σ : Type} (host : Host σ) : Reply → Except Transport.Failure Json
  | .failed t => .error t.failure
  | .response status body =>
    if 200 ≤ status ∧ status < 300 then (body.bind host.json).mapError Trouble.failure
    else .error (.status status (body.toOption.getD ""))

end RecordSource.Http
