import RecordSource.Outcome
import RecordSource.Text.Classes
import RecordSource.Filter.Fault
import RecordSource.Filter.Token

/-!
Cutting a filter text into tokens. A lexeme takes the longest spelling at the front of the text, and what it
takes and what it leaves make up the text again, so a scan passes over nothing but blanks.
-/
namespace RecordSource.Filter

/-- The bytes that characters take in UTF-8. -/
def utf8Length : List Char → Nat
  | [] => 0
  | c :: cs => c.utf8Size + utf8Length cs

@[simp] theorem utf8Length_nil : utf8Length [] = 0 := rfl

@[simp] theorem utf8Length_cons (c : Char) (cs : List Char) :
    utf8Length (c :: cs) = c.utf8Size + utf8Length cs := rfl

@[simp] theorem utf8Length_append (cs ds : List Char) :
    utf8Length (cs ++ ds) = utf8Length cs + utf8Length ds := by
  induction cs with
  | nil => simp
  | cons c cs ih => simp [ih, Nat.add_assoc]

/-- A token cut off the front of a text: what it is, how it was spelled and what is left. -/
structure Lexeme where
  token : Token
  spelling : List Char
  rest : List Char

namespace Lexeme

/-- Reads a literal up to its closing quote: its text, the spelling of that part, and the rest. A fault of the
whole literal is placed at `start`, one of an escape at the backslash. -/
def literal? (start : Nat) : Nat → List Char → Except Fault (List Char × List Char × List Char)
  | _, [] => .error (.malformed start .openLiteral)
  | pos, c :: cs =>
    if c = '"' then .ok ([], ['"'], cs)
    else if c = '\\' then
      match cs with
      | [] => .error (.malformed start .openLiteral)
      | e :: ds =>
        match Token.unescape? e with
        | none => .error (.malformed pos (.unknownEscape e))
        | some d =>
          (literal? start (pos + 1 + e.utf8Size) ds).map fun (text, spelling, rest) =>
            (d :: text, '\\' :: e :: spelling, rest)
    else
      (literal? start (pos + c.utf8Size) cs).map fun (text, spelling, rest) =>
        (c :: text, c :: spelling, rest)

/-- Where the reading of a name stands: outside its indexers, inside one, or in a quoted key there. -/
inductive Place where
  | bare | indexer | quoted
  deriving DecidableEq, Repr

/-- Where a reading inside an indexer stands after one more character. -/
def Place.ofIndexer (c : Char) : Place := if c = ']' then bare else if c = '"' then quoted else indexer

/-- Where a reading inside a quoted key stands after one more character that is no backslash. -/
def Place.ofQuoted (c : Char) : Place := if c = '"' then indexer else quoted

/-- Reads the longest name: its spelling and the rest. Nothing if an indexer is never closed. -/
def name? : Place → List Char → Option (List Char × List Char)
  | .bare, [] => some ([], [])
  | _, [] => none
  | .bare, c :: cs =>
    if Token.isNameChar c then (name? .bare cs).map fun (s, rest) => (c :: s, rest)
    else if c = '[' then (name? .indexer cs).map fun (s, rest) => (c :: s, rest)
    else some ([], c :: cs)
  | .indexer, c :: cs => (name? (.ofIndexer c) cs).map fun (s, rest) => (c :: s, rest)
  | .quoted, c :: cs =>
    if c = '\\' then
      match cs with
      | [] => none
      | e :: ds => (name? .quoted ds).map fun (s, rest) => (c :: e :: s, rest)
    else (name? (.ofQuoted c) cs).map fun (s, rest) => (c :: s, rest)

/-- The lexeme that starts with the character `c` at the place `pos`, followed by `cs`. -/
def read? (pos : Nat) (c : Char) (cs : List Char) : Except Fault Lexeme :=
  match c with
  | '(' => .ok ⟨.openParen, [c], cs⟩
  | ')' => .ok ⟨.closeParen, [c], cs⟩
  | ',' => .ok ⟨.comma, [c], cs⟩
  | '&' => match cs with
    | '&' :: ds => .ok ⟨.and, ['&', '&'], ds⟩
    | _ => .error (.malformed pos (.halfConnective '&'))
  | '|' => match cs with
    | '|' :: ds => .ok ⟨.or, ['|', '|'], ds⟩
    | _ => .error (.malformed pos (.halfConnective '|'))
  | '!' => match cs with
    | '=' :: ds => .ok ⟨.compare .ne, ['!', '='], ds⟩
    | _ => .ok ⟨.not, ['!'], cs⟩
  | '=' => match cs with
    | '=' :: ds => .ok ⟨.compare .eqEq, ['=', '='], ds⟩
    | '>' :: _ => .error (.malformed pos .lambda)
    | _ => .ok ⟨.compare .eq, ['='], cs⟩
  | '<' => match cs with
    | '=' :: ds => .ok ⟨.compare .le, ['<', '='], ds⟩
    | _ => .ok ⟨.compare .lt, ['<'], cs⟩
  | '>' => match cs with
    | '=' :: ds => .ok ⟨.compare .ge, ['>', '='], ds⟩
    | _ => .ok ⟨.compare .gt, ['>'], cs⟩
  | '"' => (literal? pos (pos + 1) cs).map fun (text, spelling, rest) =>
      ⟨.literal (String.ofList text), '"' :: spelling, rest⟩
  | _ =>
    if Token.isNameChar c then
      match name? .bare (c :: cs) with
      | some (s, rest) => .ok ⟨.name (String.ofList s), s, rest⟩
      | none => .error (.malformed pos .openIndexer)
    else .error (.malformed pos (.strayCharacter c))

theorem literal?_tiles {start pos : Nat} {cs text spelling rest : List Char}
    (h : literal? start pos cs = .ok (text, spelling, rest)) : spelling ++ rest = cs := by
  fun_induction literal? start pos cs generalizing text spelling rest with
  | case1 => simp at h
  | case2 =>
    simp only [Except.ok.injEq, Prod.mk.injEq] at h
    obtain ⟨_, rfl, rfl⟩ := h
    rfl
  | case3 => simp at h
  | case4 => simp at h
  | case5 _ _ _ _ _ _ ih | case6 _ _ _ _ _ ih =>
    obtain ⟨⟨t, s, q⟩, hl, heq⟩ := Outcome.map_eq_ok_iff.1 h
    simp only [Prod.mk.injEq] at heq
    obtain ⟨rfl, rfl, rfl⟩ := heq
    simp [ih hl]

theorem name?_tiles {place : Place} {cs spelling rest : List Char}
    (h : name? place cs = some (spelling, rest)) : spelling ++ rest = cs := by
  fun_induction name? place cs generalizing spelling rest with
  | case1 => simp_all
  | case2 => simp at h
  | case5 => simp_all
  | case7 => simp_all
  | case3 _ _ _ ih | case4 _ _ ih | case6 _ _ ih | case8 _ _ ih | case9 _ _ _ ih =>
    obtain ⟨⟨s, q⟩, hs, heq⟩ := Option.map_eq_some_iff.1 h
    simp only [Prod.mk.injEq] at heq
    obtain ⟨rfl, rfl⟩ := heq
    simp [ih hs]

theorem name?_bare_ne_nil {c : Char} {cs spelling rest : List Char} (hc : Token.isNameChar c = true)
    (h : name? .bare (c :: cs) = some (spelling, rest)) : spelling ≠ [] := by
  simp only [name?, hc, if_true] at h
  obtain ⟨⟨s, q⟩, _, heq⟩ := Option.map_eq_some_iff.1 h
  simp only [Prod.mk.injEq] at heq
  simp [← heq.1]

/-- A lexeme's spelling and rest make up the text again, and the spelling is not empty. -/
theorem read?_tiles {pos : Nat} {c : Char} {cs : List Char} {l : Lexeme} (h : read? pos c cs = .ok l) :
    l.spelling ++ l.rest = c :: cs ∧ l.spelling ≠ [] := by
  unfold read? at h
  split at h
  all_goals first
    | (split at h <;> first | (cases h; simp) | cases h)
    | (cases h; simp)
    | skip
  · obtain ⟨⟨t, s, q⟩, hl, rfl⟩ := Outcome.map_eq_ok_iff.1 h
    simp [literal?_tiles hl]
  · split at h
    · next hc =>
      split at h
      · next s q hn =>
        cases h
        exact ⟨name?_tiles hn, name?_bare_ne_nil hc hn⟩
      · cases h
    · cases h

theorem read?_shorter {pos : Nat} {c : Char} {cs : List Char} {l : Lexeme} (h : read? pos c cs = .ok l) :
    l.rest.length < (c :: cs).length := by
  obtain ⟨htile, hne⟩ := read?_tiles h
  have := congrArg List.length htile
  have := List.length_pos_iff.2 hne
  simp only [List.length_append] at *
  omega

end Lexeme

/-- The tokens of a text that starts at the given place of a larger one. -/
def scanFrom (pos : Nat) : List Char → Except Fault (List Placed)
  | [] => .ok []
  | c :: cs =>
    if Text.isBlank c then scanFrom (pos + c.utf8Size) cs
    else match _h : Lexeme.read? pos c cs with
      | .error fault => .error fault
      | .ok l => (scanFrom (pos + utf8Length l.spelling) l.rest).map (⟨pos, l.token⟩ :: ·)
  termination_by cs => cs.length
  decreasing_by
    · simp
    · exact Lexeme.read?_shorter _h

/-- The tokens of a filter text. -/
def scan (text : String) : Except Fault (List Placed) := scanFrom 0 text.toList

end RecordSource.Filter
