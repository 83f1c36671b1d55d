import RecordSource.Filter.Fault
import RecordSource.Json.Shape
import RecordSource.Transport.Guidance

/-!
Why a query failed, with one wording for each cause.
-/
namespace RecordSource.Query

/-- What is wrong with the body of an answer. -/
inductive Malformed where
  | notAnObject (endpoint : String) (got : Json)
  | noRecords (key endpoint : String)
  | noTable (key : String)
  | mismatch (m : Json.Mismatch)
  /-- In the words of another party. -/
  | stated (detail : String)
  deriving Repr

def Malformed.message : Malformed → String
  | notAnObject endpoint got => "expected an object from " ++ endpoint ++ ", got " ++ got.compact
  | noRecords key endpoint => "missing `" ++ key ++ "` array in response from " ++ endpoint
  | noTable key => "missing `" ++ key ++ "` in response"
  | mismatch m => m.message
  | stated detail => detail

inductive Failure where
  /-- A failed call, in words for the person who asked. -/
  | diagnosed (d : Transport.Diagnosis)
  | transport (f : Transport.Failure)
  | filter (f : Filter.Fault)
  /-- The pages did not come to an end. -/
  | endless (pages : Nat)
  | malformed (m : Malformed)
  deriving Repr

def Failure.message : Failure → String
  | diagnosed d => d.message
  | transport f => f.message
  | filter f => "invalid filter: " ++ f.message
  | endless pages => "pagination did not terminate after " ++ toString pages ++ " pages"
  | malformed m => "malformed response: " ++ m.message

end RecordSource.Query
