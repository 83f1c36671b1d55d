import RecordSource.Text.Classes
import RecordSource.Text.Cut
import RecordSource.Transport.Call

/-!
Failures put in words for the person who asked. A domain may have words of its own for a status; three statuses have
common ones. A failure known only by its text is read back from that text first.
-/
namespace RecordSource.Transport

/-- A status and what the server said about it. -/
structure Report where
  code : Nat
  message : String
  deriving DecidableEq, Repr

namespace Report

def statusMark : List Char := "status code:".toList

def messageMark : List Char := "Error message:".toList

/-- Three digits after blanks. -/
def threeDigits? (cs : List Char) : Option (List Char) :=
  match cs.dropWhile Text.isBlank with
  | a :: b :: c :: _ =>
    if Text.isDecimal a && Text.isDecimal b && Text.isDecimal c then some [a, b, c] else none
  | _ => none

/-- The digits after the first status mark that has three. -/
def statusDigits? : List Char → Option (List Char) := Text.firstAfter? statusMark threeDigits?

/-- What follows the first message mark and the blanks after it. -/
def messagePart? : List Char → Option (List Char) :=
  Text.firstAfter? messageMark fun cs => some (cs.dropWhile Text.isBlank)

/-- Reads the status and message out of the text of a failure. Digits of other scripts end the search without a
status. -/
def read? (text : String) : Option Report :=
  ((statusDigits? text.toList).bind Text.asciiNumber?).map fun code =>
    ⟨code, String.ofList (Text.trim ((messagePart? text.toList).getD []))⟩

end Report

/-- A status, if one is known, and what to tell. -/
structure Diagnosis where
  code? : Option Nat
  message : String
  deriving DecidableEq, Repr

namespace Diagnosis

def unknown : Diagnosis := ⟨none, "The query failed due to an unknown error."⟩

end Diagnosis

/-- The words of a domain: the noun for its records, and texts for statuses of its own. -/
structure Guidance where
  records : String
  extra : List (Nat × String) := []
  deriving DecidableEq, Repr

namespace Guidance

def messageFor (g : Guidance) (r : Report) : String :=
  match g.extra.lookup r.code with
  | some text => text
  | none =>
    if r.code = 404 then
      "The query to fetch " ++ g.records ++ " failed because the requested resource was not found. " ++
        "Please check the query parameters and try again."
    else if r.code = 429 then
      "The query to fetch " ++ g.records ++ " failed due to too many requests. Please try again later."
    else if r.code = 504 then
      "The query to fetch " ++ g.records ++ " experienced a timeout error. " ++
        "Narrow your query with a more specific filter and try again."
    else "The query failed due to the following error: (status " ++ toString r.code ++ ") " ++ r.message ++ "."

def diagnoseReport (g : Guidance) (r : Report) : Diagnosis := ⟨some r.code, g.messageFor r⟩

/-- A call that timed out counts as status 504. -/
def diagnose (g : Guidance) : Failure → Diagnosis
  | .status code body => g.diagnoseReport ⟨code, body⟩
  | .timedOut => g.diagnoseReport ⟨504, ""⟩
  | .network _ | .undecodable _ => .unknown

/-- Diagnoses a failure known by its text alone. -/
def diagnoseText (g : Guidance) (text : String) : Diagnosis :=
  match Report.read? text with
  | some r => g.diagnoseReport r
  | none => .unknown

end Guidance
end RecordSource.Transport
