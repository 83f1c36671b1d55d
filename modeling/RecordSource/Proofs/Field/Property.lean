import RecordSource.Field.Mapping
import RecordSource.Proofs.Filter.Indexer

/-!
Paths of properties. Escaping keeps any key inside the quotes for the scan of names, so the path of a property is
always one name. The brackets and quotes of the key still count where names fall apart, so a method can only be called
on the path if they are closed there.
-/
namespace RecordSource.Field.Mapping
open RecordSource.Filter

/-- The quotes that an indexer puts around the key, and its brackets, are closed for the parting of names too. -/
structure KeyCloses (key : String) : Prop where
  quotes : (Reading.brackets (1, true) key.toList).2 = true
  depth : (Reading.brackets (1, true) key.toList).1 ≤ 1

theorem keyCloses_iff {key : String} : KeyCloses key ↔
    (Reading.brackets (1, true) key.toList).2 = true ∧ (Reading.brackets (1, true) key.toList).1 ≤ 1 :=
  ⟨fun h => ⟨h.quotes, h.depth⟩, fun h => ⟨h.1, h.2⟩⟩

instance : DecidablePred KeyCloses := fun _ => decidable_of_iff _ keyCloses_iff.symm

theorem brackets_of_no_quote {cs : List Char} (h : '"' ∉ cs) (depth : Nat) :
    Reading.brackets (depth, true) cs = (depth, true) := by
  induction cs with
  | nil => rfl
  | cons c cs ih =>
    rw [List.mem_cons, not_or] at h
    simpa [Reading.brackets, Ne.symm h.1] using ih h.2

theorem keyCloses_of_no_quote {key : String} (h : '"' ∉ key.toList) : KeyCloses key := by
  have hkey := brackets_of_no_quote h 1
  exact ⟨congrArg Prod.snd hkey, Nat.le_of_eq (congrArg Prod.fst hkey)⟩

theorem escapeKey_cons (c : Char) (key : List Char) :
    escapeKey (c :: key) = (if c = '\\' ∨ c = '"' then ['\\', c] else [c]) ++ escapeKey key := List.flatMap_cons

/-- A key stays inside its quotes. -/
theorem name?_escapeKey (key : List Char) :
    Lexeme.name? .quoted (escapeKey key ++ ['"', ']']) = some (escapeKey key ++ ['"', ']'], []) := by
  induction key with
  | nil => rfl
  | cons c key ih =>
    rw [escapeKey_cons]
    split
    · simp [Lexeme.name?, ih]
    · next hplain =>
      rw [not_or] at hplain
      have hquoted : Lexeme.Place.ofQuoted c = .quoted := if_neg hplain.2
      rw [List.singleton_append, List.cons_append, Lexeme.name?_quoted_cons hplain.1, hquoted, ih]
      rfl

/-- The backslashes of an escaped key close nothing and open nothing. -/
theorem brackets_escapeKey (s : Nat × Bool) (key : List Char) :
    Reading.brackets s (escapeKey key) = Reading.brackets s key := by
  induction key generalizing s with
  | nil => rfl
  | cons c key ih =>
    rw [escapeKey_cons, Reading.brackets_append, ih, Reading.brackets_cons s c]
    split
    · rfl
    · rfl

theorem toList_keyPath (path key : String) :
    (keyPath path key).toList = path.toList ++ '[' :: '"' :: (escapeKey key.toList ++ ['"', ']']) :=
  String.toList_ofList

/-- The path of a property is a name, whatever its key. -/
theorem isName_keyPath {path : String} (hpath : IsName path.toList) (key : String) : IsName (keyPath path key).toList := by
  rw [toList_keyPath]
  apply hpath.append
  have hquoted : Lexeme.name? (.ofIndexer '"') (escapeKey key.toList ++ ['"', ']']) =
      some (escapeKey key.toList ++ ['"', ']'], []) := name?_escapeKey key.toList
  simp [Lexeme.name?, Token.isNameChar, hquoted]

theorem brackets_keyEnd (s : Nat × Bool) : Reading.brackets s ['"', ']'] = (0, false) ↔ s.2 = true ∧ s.1 ≤ 1 := by
  obtain ⟨depth, quoted⟩ := s
  cases quoted <;> simp [Reading.brackets]
  omega

/-- Methods can be called on the path of a property exactly if its key closes. -/
theorem isPath_keyPath_iff {path : String} (hpath : IsPath path) (key : String) :
    IsPath (keyPath path key) ↔ KeyCloses key := by
  have hbrackets : Reading.brackets (0, false) (keyPath path key).toList =
      Reading.brackets (Reading.brackets (1, true) key.toList) ['"', ']'] := by
    have hopen (cs : List Char) : Reading.brackets (0, false) ('[' :: '"' :: cs) = Reading.brackets (1, true) cs := rfl
    rw [toList_keyPath, Reading.brackets_append, hpath.closed, hopen, Reading.brackets_append, brackets_escapeKey]
  rw [keyCloses_iff, ← brackets_keyEnd, ← hbrackets]
  constructor
  · exact IsPath.closed
  · exact IsPath.mk (isName_keyPath hpath.name key)

end RecordSource.Field.Mapping
