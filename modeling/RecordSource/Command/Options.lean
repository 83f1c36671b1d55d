import RecordSource.Http.Settings
import RecordSource.Query.Run

/-!
The words of a command line. Options stand in any order around the domain; an option takes its value after an equals
sign or as the next word, which is looked at only when the option is done. The first fault in this order counts; which
kind of fault it is, is told, not the words that it is shown in.
-/
namespace RecordSource.Command

/-- Why a command line is not carried out. -/
inductive Usage where
  | missingArgument
  | invalidValue
  | unfitValue
  | unknownArgument
  | conflict
  | unwantedValue
  | help
  | version
  deriving DecidableEq, Repr

/-- What can be given. -/
inductive Key where
  | domain
  | url | apiKey | filter | take | orderBy | var | column | timeoutSecs | maxRetries
  | all | descending | count | strict | compileOnly | jsonLogs
  | help | version
  deriving DecidableEq, Repr

namespace Key

/-- The options by name. -/
def named : List (String × Key) :=
  [("url", url), ("api-key", apiKey), ("filter", filter), ("take", take), ("order-by", orderBy), ("var", var),
   ("column", column), ("timeout-secs", timeoutSecs), ("max-retries", maxRetries), ("all", all),
   ("descending", descending), ("count", count), ("strict", strict), ("compile-only", compileOnly),
   ("json-logs", jsonLogs), ("help", help), ("version", version)]

def takesValue : Key → Bool
  | domain | url | apiKey | filter | take | orderBy | var | column | timeoutSecs | maxRetries => true
  | _ => false

/-- May be given more than once. -/
def repeats : Key → Bool
  | var | column => true
  | _ => false

end Key

/-- The number that a sign and digits denote. -/
def signedNumber? (text : List Char) : Option Int :=
  match text with
  | '-' :: ds => (Text.asciiNumber? ds).map fun n => -(n : Int)
  | '+' :: ds => (Text.asciiNumber? ds).map Int.ofNat
  | ds => (Text.asciiNumber? ds).map Int.ofNat

/-- Counts of 32 bits, which may be written with either sign. -/
def count32? (text : String) : Option Nat :=
  match signedNumber? text.toList with
  | some n => if 0 ≤ n ∧ n < 4294967296 then some n.toNat else none
  | none => none

/-- Counts of 64 bits, which may be written with a plus sign. -/
def count64? (text : String) : Option Nat :=
  let digits := match text.toList with
    | '+' :: ds => ds
    | ds => ds
  match Text.asciiNumber? digits with
  | some n => if n < 18446744073709551616 then some n else none
  | none => none

/-- Why a text names no variable. -/
inductive VariableFault where
  | noEquals (text : String)
  | noName
  deriving DecidableEq, Repr

def VariableFault.message : VariableFault → String
  | noEquals text => "expected name=value, got `" ++ text ++ "`"
  | noName => "variable name is empty"

/-- Reads `name=value`. -/
def assignment? (text : String) : Except VariableFault (String × String) :=
  let name := text.toList.takeWhile (· != '=')
  match text.toList.drop name.length with
  | [] => .error (.noEquals text)
  | _ :: value => if name.isEmpty then .error .noName else .ok (String.ofList name, String.ofList value)

/-- What is wrong with the value of a key, if anything is. -/
def Key.fault? (k : Key) (value : String) : Option Usage :=
  match k with
  | domain => if (Domain.ofWord? value).isNone then some .invalidValue else none
  | take | maxRetries => if (count32? value).isNone then some .unfitValue else none
  | timeoutSecs => if (count64? value).isNone then some .unfitValue else none
  | var => match assignment? value with
    | .ok _ => none
    | .error _ => some .unfitValue
  | _ => none

/-- A command line under way: what was given, the key that waits for its value or has one not yet looked at, and
whether only plain words follow. -/
structure Words where
  given : List (Key × String) := []
  pending : Option (Key × Option String) := none
  domainSeen : Bool := false
  plain : Bool := false

namespace Words

def has (w : Words) (k : Key) : Bool := w.given.any (·.1 == k)

def values (w : Words) (k : Key) : List String := (w.given.filter (·.1 == k)).map Prod.snd

def value? (w : Words) (k : Key) : Option String := w.given.lookup k

def accept (w : Words) (k : Key) (value : String) : Except Usage Words :=
  if !k.repeats && w.has k then .error .conflict
  else match k.fault? value with
    | some u => .error u
    | none => .ok { w with given := w.given ++ [(k, value)] }

/-- Looks at what is pending. -/
def settle (w : Words) : Except Usage Words :=
  match w.pending with
  | none => .ok w
  | some (_, none) => .error .invalidValue
  | some (k, some value) => { w with pending := none }.accept k value

/-- A name with two dashes, and the value after an equals sign if there is one. -/
def option (w : Words) (name : String) (value? : Option String) : Except Usage Words :=
  match Key.named.lookup name, value? with
  | none, _ => .error .unknownArgument
  | some k, some value => if k.takesValue then w.settle.bind (·.accept k value) else .error .unwantedValue
  | some k, none =>
    w.settle.bind fun w =>
      if k.takesValue then .ok { w with pending := some (k, none) }
      else match k with
        | .help => .error .help
        | .version => .error .version
        | k => w.accept k ""

/-- Letters after a single dash; either of the two that exist ends the reading. -/
def letters (w : Words) (first : Char) : Except Usage Words :=
  if first = 'h' then w.settle.bind fun _ => .error .help
  else if first = 'V' then w.settle.bind fun _ => .error .version
  else .error .unknownArgument

def plainWord (w : Words) (word : String) : Except Usage Words :=
  if w.domainSeen then .error .unknownArgument
  else w.settle.map fun w => { w with pending := some (.domain, some word), domainSeen := true }

def next (w : Words) (word : String) : Except Usage Words :=
  if w.plain then w.plainWord word
  else match word.toList with
    | ['-', '-'] => .ok { w with plain := true }
    | '-' :: '-' :: cs =>
      let name := String.ofList (cs.takeWhile (· != '='))
      match cs.dropWhile (· != '=') with
      | [] => w.option name none
      | _ :: value => w.option name (some (String.ofList value))
    | '-' :: c :: _ => w.letters c
    | _ => match w.pending with
      | some (k, none) => .ok { w with pending := some (k, some word) }
      | _ => w.plainWord word

/-- Takes what was not given from the environment. -/
def fromEnvironment (w : Words) (k : Key) (value? : Option String) : Words :=
  match value? with
  | some value => if w.has k then w else { w with given := w.given ++ [(k, value)] }
  | none => w

/-- What may not be given together, and what must be given. -/
def complete (w : Words) : Except Usage Words :=
  if w.has .take && w.has .all then .error .conflict
  else if !w.has .domain || !w.has .url || (w.has .descending && !w.has .orderBy) then .error .missingArgument
  else .ok w

def read (url? apiKey? : Option String) (words : List String) : Except Usage Words := do
  let w ← words.foldlM next {}
  let w ← w.settle
  ((w.fromEnvironment .url url?).fromEnvironment .apiKey apiKey?).complete

end Words

/-- A command: a query to one domain, and how it is to be carried out. -/
structure Options where
  domain : Domain
  settings : Http.Settings
  query : Query
  bindings : List (String × String) := []
  strict : Bool := false
  compileOnly : Bool := false
  jsonLogs : Bool := false

namespace Options

def ofWords (domain : Domain) (w : Words) : Options where
  domain := domain
  settings := {
    baseUrl := (w.value? .url).getD ""
    apiKey? := w.value? .apiKey
    timeout := (((w.value? .timeoutSecs).bind count64?).getD 30) * 1000000000
    maxRetries := ((w.value? .maxRetries).bind count32?).getD 3 }
  query := {
    filter := (w.value? .filter).getD ""
    orderBy? := w.value? .orderBy
    descending := w.has .descending
    take? := (w.value? .take).bind count32?
    fetchAll := w.has .all
    returnCount := w.has .count
    columns := w.values .column }
  bindings := (w.values .var).filterMap fun text => (assignment? text).toOption
  strict := w.has .strict
  compileOnly := w.has .compileOnly
  jsonLogs := w.has .jsonLogs

/-- Reads a command line; address and API key may come from the environment. -/
def parse? (url? apiKey? : Option String) (words : List String) : Except Usage Options :=
  (Words.read url? apiKey? words).bind fun w =>
    match (w.value? .domain).bind Domain.ofWord? with
    | some domain => .ok (ofWords domain w)
    | none => .error .missingArgument

/-- The variables of a command; of two with one name the later counts. -/
def scope (o : Options) : Template.Scope :=
  { globals := (o.bindings.map fun (name, value) => (name, Template.Value.ofText value)).reverse }

end Options
end RecordSource.Command
