/-!
Connection settings: where the services are, how the client presents itself, and how long it waits before it asks
again.
-/
namespace RecordSource.Http

/-- A span of time in nanoseconds. -/
abbrev Nanos := Nat

/-- The longest span: as many whole seconds as 64 bits count, and a last one less a nanosecond. -/
def longest : Nanos := 18446744073709551615 * 1000000000 + 999999999

structure Settings where
  baseUrl : String := "http://localhost"
  apiKey? : Option String := none
  timeout : Nanos := 30 * 1000000000
  /-- How many times a refusal for too many requests is met by asking again. -/
  maxRetries : Nat := 3
  retryBase : Nanos := 500 * 1000000
  userAgent : String := "slquery/0.1.0"

namespace Settings

def dropSlashes (cs : List Char) : List Char := cs.dropWhile (· == '/')

/-- The address of a path: one slash between the base and the path. -/
def url (s : Settings) (path : String) : String :=
  String.ofList ((dropSlashes s.baseUrl.toList.reverse).reverse ++ '/' :: dropSlashes path.toList)

/-- The factor before the retry of the given number: it doubles until 32 bits are full. -/
def backoff (attempt : Nat) : Nat := if attempt < 32 then 1 <<< attempt else 4294967295

/-- The wait before the retry of the given number, counted from zero. -/
def retryDelay (s : Settings) (attempt : Nat) : Nanos := min (s.retryBase * backoff attempt) longest

/-- Bytes that no header may hold: controls, the tab apart. -/
def isHeaderSafe (text : String) : Bool := text.toList.all fun c => c == '\t' || (' ' ≤ c && c != '\x7f')

end Settings
end RecordSource.Http
