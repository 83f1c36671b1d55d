import RecordSource.Proofs.Filter.Name

/-!
What names are made of: characters of names and indexers, and in an indexer also quoted keys, where a backslash takes
the next character along. The scan of a name reads exactly these texts whole.
-/
namespace RecordSource.Filter

/-- What may stand between the quotes of a key. -/
inductive IsKey : List Char → Prop
  | nil : IsKey []
  | char {c : Char} {cs : List Char} (hquote : c ≠ '"') (hbackslash : c ≠ '\\') (h : IsKey cs) : IsKey (c :: cs)
  | escape (c : Char) {cs : List Char} (h : IsKey cs) : IsKey ('\\' :: c :: cs)

/-- What may stand between the brackets of an indexer. -/
inductive IsIndex : List Char → Prop
  | nil : IsIndex []
  | char {c : Char} {cs : List Char} (hquote : c ≠ '"') (hclose : c ≠ ']') (h : IsIndex cs) : IsIndex (c :: cs)
  | key {key cs : List Char} (hkey : IsKey key) (h : IsIndex cs) : IsIndex ('"' :: (key ++ '"' :: cs))

/-- Characters of names and indexers, in any order. -/
inductive IsSegments : List Char → Prop
  | nil : IsSegments []
  | char {c : Char} {cs : List Char} (hc : Token.isNameChar c = true) (h : IsSegments cs) : IsSegments (c :: cs)
  | indexer {index cs : List Char} (hindex : IsIndex index) (h : IsSegments cs) :
    IsSegments ('[' :: (index ++ ']' :: cs))

/-- A name begins with a character of names, not with an indexer. -/
def IsIdentifier (cs : List Char) : Prop := cs.head?.any Token.isNameChar = true ∧ IsSegments cs

/-- What brings a name to its end from inside an indexer. -/
def CompletesIndexer (cs : List Char) : Prop := ∃ index ds, cs = index ++ ']' :: ds ∧ IsIndex index ∧ IsSegments ds

namespace Lexeme

/-- What brings a name to its end from the given place. -/
def Place.Completes : Place → List Char → Prop
  | bare, cs => IsSegments cs
  | indexer, cs => CompletesIndexer cs
  | quoted, cs => ∃ key ds, cs = key ++ '"' :: ds ∧ IsKey key ∧ CompletesIndexer ds

theorem Place.Completes.cons_indexer {c : Char} {cs : List Char} (h : (ofIndexer c).Completes cs) :
    indexer.Completes (c :: cs) := by
  unfold ofIndexer at h
  split_ifs at h with hclose hquote
  · exact ⟨[], cs, by rw [hclose]; rfl, .nil, h⟩
  · obtain ⟨key, _, rfl, hkey, index, ds, rfl, hindex, hds⟩ := h
    exact ⟨'"' :: (key ++ '"' :: index), ds, by simp [hquote], .key hkey hindex, hds⟩
  · obtain ⟨index, ds, rfl, hindex, hds⟩ := h
    exact ⟨c :: index, ds, rfl, .char hquote hclose hindex, hds⟩

theorem Place.Completes.cons_quoted {c : Char} (hbackslash : c ≠ '\\') {cs : List Char}
    (h : (ofQuoted c).Completes cs) : quoted.Completes (c :: cs) := by
  unfold ofQuoted at h
  split_ifs at h with hquote
  · exact ⟨[], cs, by rw [hquote]; rfl, .nil, h⟩
  · obtain ⟨key, ds, rfl, hkey, hds⟩ := h
    exact ⟨c :: key, ds, rfl, .char hquote hbackslash hkey, hds⟩

theorem completes_of_name? {place : Place} {cs s rest : List Char} (h : name? place cs = some (s, rest)) :
    place.Completes s := by
  fun_induction name? place cs generalizing s rest with
  | case1 | case5 =>
    cases h
    exact .nil
  | case2 | case7 => cases h
  | case3 c cs hc ih =>
    obtain ⟨⟨t, q⟩, ht, heq⟩ := Option.map_eq_some_iff.1 h
    cases heq
    exact .char hc (ih ht)
  | case4 cs _ ih =>
    obtain ⟨⟨t, q⟩, ht, heq⟩ := Option.map_eq_some_iff.1 h
    cases heq
    obtain ⟨index, ds, rfl, hindex, hds⟩ := ih ht
    exact .indexer hindex hds
  | case6 c cs ih =>
    obtain ⟨⟨t, q⟩, ht, heq⟩ := Option.map_eq_some_iff.1 h
    cases heq
    exact (ih ht).cons_indexer
  | case8 e ds ih =>
    obtain ⟨⟨t, q⟩, ht, heq⟩ := Option.map_eq_some_iff.1 h
    cases heq
    obtain ⟨key, rest, rfl, hkey, hrest⟩ := ih ht
    exact ⟨'\\' :: e :: key, rest, rfl, .escape e hkey, hrest⟩
  | case9 c cs hbackslash ih =>
    obtain ⟨⟨t, q⟩, ht, heq⟩ := Option.map_eq_some_iff.1 h
    cases heq
    exact (ih ht).cons_quoted hbackslash

theorem name?_key {key : List Char} (h : IsKey key) (cs : List Char) :
    name? .quoted (key ++ '"' :: cs) = (name? .indexer cs).map fun (s, rest) => (key ++ '"' :: s, rest) := by
  induction h with
  | nil => exact name?_quoted_cons (by decide) cs
  | @char c key hquote hbackslash _ ih =>
    have hplace : Place.ofQuoted c = .quoted := if_neg hquote
    rw [List.cons_append, name?_quoted_cons hbackslash, hplace, ih, Option.map_map]
    rfl
  | escape c _ ih =>
    rw [List.cons_append, List.cons_append, name?, if_pos rfl, ih, Option.map_map]
    rfl

theorem name?_index {index : List Char} (h : IsIndex index) (cs : List Char) :
    name? .indexer (index ++ ']' :: cs) = (name? .bare cs).map fun (s, rest) => (index ++ ']' :: s, rest) := by
  induction h with
  | nil => rfl
  | @char c index hquote hclose _ ih =>
    have hplace : Place.ofIndexer c = .indexer := by rw [Place.ofIndexer, if_neg hclose, if_neg hquote]
    rw [List.cons_append, name?, hplace, ih, Option.map_map]
    rfl
  | @key key index hkey _ ih =>
    have hplace : Place.ofIndexer '"' = .quoted := rfl
    rw [List.cons_append, List.append_assoc, List.cons_append, name?, hplace, name?_key hkey, ih, Option.map_map,
      Option.map_map]
    refine Option.map_congr fun p _ => ?_
    simp

end Lexeme

theorem IsSegments.name? {cs : List Char} (h : IsSegments cs) : Lexeme.name? .bare cs = some (cs, []) := by
  induction h with
  | nil => rfl
  | char hc _ ih =>
    rw [Lexeme.name?, if_pos hc, ih]
    rfl
  | @indexer index cs hindex _ ih =>
    have hbracket : Token.isNameChar '[' = false := rfl
    rw [Lexeme.name?, hbracket, if_neg (by decide), if_pos rfl, Lexeme.name?_index hindex, ih]
    rfl

theorem isName_iff_isIdentifier {cs : List Char} : IsName cs ↔ IsIdentifier cs :=
  and_congr_right fun _ => ⟨Lexeme.completes_of_name?, IsSegments.name?⟩

end RecordSource.Filter
