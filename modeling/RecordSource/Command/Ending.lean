import RecordSource.Command.Options
import RecordSource.Http.Exchange
import RecordSource.Http.OutOfReach

/-!
Carrying out a command: either its filter is shown as it would be sent, or the query is answered and its table
printed. What goes wrong is told with what was being done.
-/
namespace RecordSource.Command

/-- What a command leaves behind. -/
structure Ending (σ : Type) where
  code : Nat
  out : String := ""
  err : String := ""
  host : σ

/-- A text with its further lines indented. -/
def indentLines (width : Nat) (text : String) : String :=
  String.ofList (text.toList.flatMap fun c => if c = '\n' then '\n' :: List.replicate width ' ' else [c])

def causeLine (number : Nat) (cause : String) : String :=
  let digits := toString number
  "\n" ++ String.ofList (List.replicate (5 - digits.length) ' ') ++ digits ++ ": " ++ indentLines 7 cause

def causeLines (number : Nat) : List String → String
  | [] => ""
  | c :: cs => causeLine number c ++ causeLines (number + 1) cs

/-- What was being done, and the causes from the nearest to the last; several are numbered. -/
def report (doing : String) (causes : List String) : String :=
  "Error: " ++ doing ++
    (match causes with
      | [] => ""
      | [c] => "\n\nCaused by:\n    " ++ indentLines 4 c
      | cs => "\n\nCaused by:" ++ causeLines 0 cs) ++ "\n"

/-- The causes of a failure; behind an invalid filter stands its fault. -/
def causes : Query.Failure → List String
  | .filter f => [(Query.Failure.filter f).message, f.message]
  | f => [f.message]

namespace Options
variable {σ : Type}

def setting (o : Options) (now : Nat) : Query.Setting where
  service := o.domain.service
  scope := o.scope
  now := now
  unknown := if o.strict then .refuse else .keep
  products? := if o.domain.service.partNumberField?.isSome then some .remote else none

/-- Carries a command out against a host. -/
def carryOut (o : Options) (now : Nat) (host : Http.Host σ) (state : σ) : Ending σ :=
  match o.settings.defect? with
  | some f => { code := 1, err := report "building HTTP client" [f.message], host := state }
  | none =>
    let setting := o.setting now
    if o.compileOnly then { code := 0, out := setting.preview o.query.filter [] ++ "\n", host := state }
    else
      let outcome := Query.run setting (o.settings.remote host) o.query [] { remote := state }
      match outcome.result with
      | .ok table => { code := 0, out := table.toJson.pretty 0 ++ "\n", host := outcome.state.remote }
      | .error f =>
        { code := 1, err := report ("querying " ++ setting.service.name) (causes f), host := outcome.state.remote }

end Options

def versionText : String := "slquery-client 0.1.0\n"

def usageText : String := "Usage: slquery [OPTIONS] --url <URL> <DOMAIN>\n"

/-- Carries out a command line. -/
def carryOut {σ : Type} (url? apiKey? : Option String) (words : List String) (now : Nat) (host : Http.Host σ)
    (state : σ) : Ending σ :=
  match Options.parse? url? apiKey? words with
  | .ok o => o.carryOut now host state
  | .error .help => { code := 0, out := usageText, host := state }
  | .error .version => { code := 0, out := versionText, host := state }
  | .error _ => { code := 2, err := usageText, host := state }

end RecordSource.Command
