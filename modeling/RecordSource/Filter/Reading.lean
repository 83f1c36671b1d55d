import RecordSource.Filter.Expr
import RecordSource.Filter.Scan

/-!
Reading an expression token by token. The grammar, loosest connective first:

    disjunction := conjunction ("||" conjunction)*
    conjunction := item ("&&" item)*
    item        := "!" item | "(" disjunction ")" | clause
    clause      := name comparator operand | name "(" [operand ("," operand)*] ")" | name
    operand     := literal | name

A reading holds one level per parenthesis still open. Every token either carries it on or cannot stand where it
stands, so the first fault is at the first token after which nothing could be accepted.
-/
namespace RecordSource.Filter

/-- A disjunction under way: its finished alternatives and the finished items of the current conjunction, the
latest first, and the number of `!` before the item to come. -/
structure Level where
  alternatives : List Expr := []
  items : List Expr := []
  negations : Nat := 0

namespace Level

def negate : Nat → Expr → Expr
  | 0, e => e
  | n + 1, e => .not (negate n e)

/-- Takes a finished item in. -/
def add (l : Level) (e : Expr) : Level :=
  { l with items := negate l.negations e :: l.items, negations := 0 }

/-- Closes the current conjunction and opens the next alternative. -/
def alternative (l : Level) : Level :=
  { alternatives := Expr.allOf l.items.reverse :: l.alternatives }

/-- The whole disjunction, once its last item is in. -/
def close (l : Level) : Expr := Expr.anyOf (l.alternative.alternatives.reverse)

end Level

/-- What the last tokens began. -/
inductive Stage where
  | item
  | named (name : String)
  | value (field : String) (op : Comparator)
  | argument (name : String) (args : List Operand)
  | argumentEnd (name : String) (args : List Operand)
  | finished
  deriving DecidableEq, Repr

structure Reading where
  stage : Stage := .item
  level : Level := {}
  outer : List Level := []

namespace Reading

/-- Splits a written name at its last dot outside indexers and quotes; `depth` counts the open brackets. -/
def lastDot? : (depth : Nat) → (quoted : Bool) → List Char → Option (List Char × List Char)
  | _, _, [] => none
  | depth, quoted, c :: cs =>
    let inside :=
      if c = '"' then lastDot? depth (!quoted) cs
      else if c = '[' && !quoted then lastDot? (depth + 1) quoted cs
      else if c = ']' && !quoted then lastDot? (depth - 1) quoted cs
      else lastDot? depth quoted cs
    match inside with
    | some (before, after) => some (c :: before, after)
    | none => if c = '.' && !quoted && depth == 0 then some ([], cs) else none

/-- The call that a written name and its arguments make. -/
def callOf (name : String) (args : List Operand) : Clause :=
  match lastDot? 0 false name.toList with
  | some (target, method) => .call (String.ofList target) (String.ofList method) args
  | none => .call "" name args

def operand? : Token → Option Operand
  | .literal s => some (.quoted s)
  | .name s => some (.bare s)
  | _ => none

/-- Goes on after a finished item. -/
def afterItem (level : Level) (outer : List Level) : Token → Except Problem Reading
  | .or => .ok { level := level.alternative, outer }
  | .and => .ok { level, outer }
  | .closeParen => match outer with
    | [] => .error .trailing
    | up :: outer => .ok { stage := .finished, level := up.add (.group level.close), outer }
  | _ => .error (if outer.isEmpty then .trailing else .needsClose)

def next (r : Reading) (t : Token) : Except Problem Reading :=
  let finish (c : Clause) : Reading := { r with stage := .finished, level := r.level.add (.clause c) }
  match r.stage with
  | .item => match t with
    | .not => .ok { r with level.negations := r.level.negations + 1 }
    | .openParen => .ok { outer := r.level :: r.outer }
    | .name n => .ok { r with stage := .named n }
    | _ => .error .needsField
  | .named n => match t with
    | .compare op => .ok { r with stage := .value n op }
    | .openParen => .ok { r with stage := .argument n [] }
    | _ => afterItem (r.level.add (.clause (.term n))) r.outer t
  | .value field op => match operand? t with
    | some v => .ok (finish (.compare field op v))
    | none => .error .needsValue
  | .argument n args => match operand? t with
    | some v => .ok { r with stage := .argumentEnd n (args ++ [v]) }
    | none => if t = .closeParen ∧ args = [] then .ok (finish (callOf n [])) else .error .needsValue
  | .argumentEnd n args => match t with
    | .closeParen => .ok (finish (callOf n args))
    | .comma => .ok { r with stage := .argument n args }
    | _ => .error .needsArgumentEnd
  | .finished => afterItem r.level r.outer t

/-- The expression, if the text may end here. -/
def result (r : Reading) : Except Problem Expr :=
  let whole (level : Level) : Except Problem Expr :=
    if r.outer.isEmpty then .ok level.close else .error .needsClose
  match r.stage with
  | .item => .error .endsEarly
  | .named n => whole (r.level.add (.clause (.term n)))
  | .value _ _ | .argument _ _ => .error .needsValue
  | .argumentEnd _ _ => .error .needsArgumentEnd
  | .finished => whole r.level

/-- Reads on through all tokens; a text that ends early is at fault at its end. -/
def run (ending : Nat) (r : Reading) : List Placed → Except Fault Expr
  | [] => r.result.mapError (.malformed ending)
  | t :: ts => match r.next t.token with
    | .ok r => run ending r ts
    | .error problem => .error (.malformed t.offset problem)

end Reading

/-- Reads a filter text. -/
def Expr.parse? (text : String) : Except Fault Expr :=
  match scan text with
  | .ok tokens => Reading.run text.utf8ByteSize {} tokens
  | .error fault => .error fault

end RecordSource.Filter
