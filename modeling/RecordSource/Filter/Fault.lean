/-!
What can be wrong with a filter. A fault is a cause with its place; the wording for people is one function.
-/
namespace RecordSource.Filter

/-- What is wrong at one place of a filter text. -/
inductive Problem where
  | halfConnective (c : Char)
  | lambda
  | strayCharacter (c : Char)
  | openLiteral
  | unknownEscape (c : Char)
  | openIndexer
  | needsField
  | endsEarly
  | needsValue
  | needsArgumentEnd
  | needsClose
  | trailing
  deriving DecidableEq, Repr

def Problem.message : Problem → String
  | .halfConnective c => "expected `" ++ String.ofList [c, c] ++ "`"
  | .lambda => "lambda expressions are not supported"
  | .strayCharacter c => "unexpected character `" ++ c.toString ++ "`"
  | .openLiteral => "unterminated string literal"
  | .unknownEscape c => "unsupported escape sequence `\\" ++ c.toString ++ "`"
  | .openIndexer => "unterminated indexer"
  | .needsField => "expected a field or `(`"
  | .endsEarly => "unexpected end of expression"
  | .needsValue => "expected a value"
  | .needsArgumentEnd => "expected `,` or `)`"
  | .needsClose => "expected `)`"
  | .trailing => "unexpected trailing input"

/-- Why a filter is refused. Offsets count the bytes of the text in UTF-8. -/
inductive Fault where
  | malformed (offset : Nat) (problem : Problem)
  | unknownField (field : String)
  deriving DecidableEq, Repr

def Fault.message : Fault → String
  | .malformed offset problem => "syntax error at offset " ++ toString offset ++ ": " ++ problem.message
  | .unknownField field => "unknown field `" ++ field ++ "`"

end RecordSource.Filter
