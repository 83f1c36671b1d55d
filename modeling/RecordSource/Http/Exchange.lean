import RecordSource.Http.Host
import RecordSource.Http.Settings

/-!
One call over HTTP. A refusal for too many requests is answered by waiting and asking again, as often as the settings
allow; any other answer decides the call.
-/
namespace RecordSource.Http

/-- All that one call did: the messages sent, the waits between them in nanoseconds, and its outcome. -/
structure Exchange (σ : Type) where
  messages : List Message
  waits : List Nanos
  outcome : Except Transport.Failure Json
  host : σ

namespace Settings
variable {σ : Type}

def message (s : Settings) (r : Transport.Request) : Message :=
  ⟨r.method, s.url r.path, s.apiKey?, s.userAgent, r.body?⟩

/-- Why a client cannot be set up with these settings, if so. -/
def defect? (s : Settings) : Option Transport.Failure :=
  if (s.apiKey?.map isHeaderSafe) = some false then
    some (.network "invalid API key: failed to parse header value")
  else if isHeaderSafe s.userAgent then none
  else some (.network "builder error")

/-- Asked too often. -/
def tooMany : Nat := 429

/-- Sends a message and, while refused for too many requests, sends it again at most `retries` times; `attempt`
counts the retries made. -/
def exchangeFrom (s : Settings) (host : Host σ) (m : Message) (attempt : Nat) : (retries : Nat) → σ → Exchange σ
  | 0, state =>
    let (reply, state) := host.send state m
    ⟨[m], [], host.decide reply, state⟩
  | retries + 1, state =>
    let (reply, state) := host.send state m
    match reply with
    | .response status body =>
      if status = tooMany then
        let rest := exchangeFrom s host m (attempt + 1) retries state
        { rest with messages := m :: rest.messages, waits := s.retryDelay attempt :: rest.waits }
      else ⟨[m], [], host.decide (.response status body), state⟩
    | reply => ⟨[m], [], host.decide reply, state⟩

/-- Makes one call. Where no request can be made of its message, nothing is sent. -/
def exchange (s : Settings) (host : Host σ) (r : Transport.Request) (state : σ) : Exchange σ :=
  let m := s.message r
  match host.unsendable? m with
  | some t => ⟨[], [], .error t.failure, state⟩
  | none => exchangeFrom s host m 0 s.maxRetries state

/-- A host as the remote side of queries. A call takes as long as its waits. -/
def remote (s : Settings) (host : Host σ) : Transport.Remote σ := fun state sent =>
  let x := s.exchange host sent.request state
  (⟨x.waits.foldl (· + ·) 0 / 1000000, x.outcome⟩, x.host)

end Settings
end RecordSource.Http
