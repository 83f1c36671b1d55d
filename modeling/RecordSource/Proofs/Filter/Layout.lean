import RecordSource.Proofs.Filter.Name

/-!
Texts that lay tokens out: each token in its spelling, blanks between them, and after every token nothing that would
make it longer. Such a text is scanned into just these tokens.
-/
namespace RecordSource.Filter

namespace Token

/-- A token that can be written so that it is read again. -/
def Writable : Token → Prop
  | name s => IsName s.toList
  | _ => True

/-- What comes after a token does not belong to it. -/
def EndsBefore (cs : List Char) : Token → Prop
  | name _ => Lexeme.Stops cs
  | not | compare .lt | compare .gt => cs.head? ≠ some '='
  | compare .eq => cs.head? ≠ some '=' ∧ cs.head? ≠ some '>'
  | _ => True

theorem toNat_of_isNameChar {c : Char} (h : isNameChar c = true) : 36 ≤ c.toNat ∧ c.toNat ≤ 122 := by
  have hupper : c.isUpper = decide (c.val ≥ 65 ∧ c.val ≤ 90) := rfl
  have hlower : c.isLower = (decide (c.val ≥ 97) && decide (c.val ≤ 122)) := rfl
  have halpha : c.isAlpha = (c.isUpper || c.isLower) := rfl
  have hdigit : c.isDigit = (decide (c.val ≥ 48) && decide (c.val ≤ 57)) := rfl
  have halphanum : c.isAlphanum = (c.isAlpha || c.isDigit) := rfl
  simp only [isNameChar, halphanum, halpha, hupper, hlower, hdigit, Bool.or_eq_true, Bool.and_eq_true, beq_iff_eq,
    decide_eq_true_eq, ge_iff_le, UInt32.le_iff_toNat_le] at h
  have hn : c.toNat = c.val.toNat := rfl
  rcases h with ((((((h | h) | h) | rfl) | rfl) | rfl) | rfl) | rfl
  any_goals decide
  all_goals
    obtain ⟨hlo, hhi⟩ := h
    simp at hlo hhi
    omega

theorem not_blank_of_isNameChar {c : Char} (h : isNameChar c = true) : Text.isBlank c = false := by
  have hrange := toNat_of_isNameChar h
  simp only [Text.isBlank, Bool.or_eq_false_iff, Bool.and_eq_false_iff, decide_eq_false_iff_not,
    beq_eq_false_iff_ne]
  omega

theorem escape_cases (c : Char) :
    (∃ e, escape c = ['\\', e] ∧ unescape? e = some c) ∨ (escape c = [c] ∧ c ≠ '"' ∧ c ≠ '\\') := by
  unfold escape
  split
  · exact .inl ⟨'"', rfl, rfl⟩
  · exact .inl ⟨'\\', rfl, rfl⟩
  · exact .inl ⟨'t', rfl, rfl⟩
  · exact .inl ⟨'n', rfl, rfl⟩
  · exact .inl ⟨'r', rfl, rfl⟩
  · exact .inl ⟨'0', rfl, rfl⟩
  · next hquote hbackslash _ _ _ _ => exact .inr ⟨rfl, hquote, hbackslash⟩

end Token

namespace Lexeme

theorem literal?_quote (start pos : Nat) (cs : List Char) :
    literal? start pos ('"' :: cs) = .ok ([], ['"'], cs) := by
  cases cs <;> simp [literal?]

theorem literal?_cons {start pos : Nat} {c : Char} (hquote : c ≠ '"') (hbackslash : c ≠ '\\') (cs : List Char) :
    literal? start pos (c :: cs) = (literal? start (pos + c.utf8Size) cs).map fun (text, spelling, rest) =>
      (c :: text, c :: spelling, rest) := by
  cases cs <;> simp [literal?, *]

theorem literal?_escaped (start pos : Nat) (text rest : List Char) :
    literal? start pos (text.flatMap Token.escape ++ '"' :: rest) =
      .ok (text, text.flatMap Token.escape ++ ['"'], rest) := by
  induction text generalizing pos with
  | nil => exact literal?_quote start pos rest
  | cons c text ih =>
    rcases Token.escape_cases c with ⟨e, he, hc⟩ | ⟨he, hquote, hbackslash⟩
    · simp [he, literal?, hc, ih, Except.map]
    · simp [he, literal?_cons hquote hbackslash, ih, Except.map]

theorem read?_name {pos : Nat} {c : Char} {cs s rest : List Char} (hc : Token.isNameChar c = true)
    (hn : name? .bare (c :: cs) = some (s, rest)) :
    read? pos c cs = .ok ⟨.name (String.ofList s), s, rest⟩ := by
  unfold read?
  split
  case h_11 => simp [hc, hn]
  all_goals exact absurd hc (by decide)

theorem read?_comparator {op : Comparator} {rest : List Char} (he : (Token.compare op).EndsBefore rest) (pos : Nat) :
    ∃ c cs, op.spell ++ rest = c :: cs ∧ Text.isBlank c = false ∧
      read? pos c cs = .ok ⟨.compare op, op.spell, rest⟩ := by
  cases op with
  | eqEq | ne | le | ge => exact ⟨_, _, rfl, by decide, rfl⟩
  | eq | lt | gt =>
    refine ⟨_, rest, rfl, by decide, ?_⟩
    simp only [read?]
    split <;> simp_all [Token.EndsBefore, Comparator.spell]

/-- A writable token is read back from its spelling, before anything that does not belong to it. -/
theorem read?_spell {t : Token} {rest : List Char} (hw : t.Writable) (he : t.EndsBefore rest) (pos : Nat) :
    ∃ c cs, t.spell ++ rest = c :: cs ∧ Text.isBlank c = false ∧ read? pos c cs = .ok ⟨t, t.spell, rest⟩ := by
  cases t with
  | openParen | closeParen | comma | and | or => exact ⟨_, _, rfl, by decide, rfl⟩
  | not =>
    refine ⟨'!', rest, rfl, by decide, ?_⟩
    simp only [read?]
    split
    · exact absurd rfl he
    · rfl
  | compare op => exact read?_comparator he pos
  | literal text =>
    refine ⟨'"', text.toList.flatMap Token.escape ++ '"' :: rest, by simp [Token.spell, Token.quote], by decide, ?_⟩
    simp [read?, literal?_escaped, Except.map, Token.spell, Token.quote]
  | name text =>
    obtain ⟨c, cs, hcs, hc⟩ := IsName.exists_cons hw
    have hread : name? .bare (text.toList ++ rest) = some (text.toList, rest) := by
      rw [name?_append hw.2, name?_of_stops he]
      simp
    have htext : String.ofList (c :: cs) = text := by rw [← hcs, String.ofList_toList]
    rw [hcs] at hread
    rw [Token.spell, hcs]
    exact ⟨c, cs ++ rest, rfl, Token.not_blank_of_isNameChar hc, htext ▸ read?_name hc hread⟩

theorem read?_writable {pos : Nat} {c : Char} {cs : List Char} {l : Lexeme} (h : read? pos c cs = .ok l) :
    l.token.Writable := by
  unfold read? at h
  split at h
  case h_1 | h_2 | h_3 =>
    cases h
    trivial
  case h_10 =>
    obtain ⟨found, _, rfl⟩ := Outcome.map_eq_ok_iff.1 h
    trivial
  case h_11 =>
    split at h
    · next hc =>
      split at h
      · next s rest hn =>
        cases h
        have hne := name?_bare_ne_nil hc hn
        have hhead : s.head? = some c := by
          obtain ⟨d, ds, rfl⟩ := List.exists_cons_of_ne_nil hne
          have htile := name?_tiles hn
          simp_all
        simp only [Token.Writable, String.toList_ofList]
        exact ⟨by simpa [hhead] using hc, name?_self hn⟩
      · cases h
    · cases h
  all_goals split at h <;> cases h <;> trivial

end Lexeme

theorem scanFrom_blank {c : Char} (hc : Text.isBlank c = true) (pos : Nat) (cs : List Char) :
    scanFrom pos (c :: cs) = scanFrom (pos + c.utf8Size) cs := by
  rw [scanFrom.eq_def]
  simp only [hc, if_true]

theorem scanFrom_lexeme {c : Char} (hc : Text.isBlank c = false) {pos : Nat} {cs : List Char} {l : Lexeme}
    (h : Lexeme.read? pos c cs = .ok l) :
    scanFrom pos (c :: cs) = (scanFrom (pos + utf8Length l.spelling) l.rest).map (⟨pos, l.token⟩ :: ·) := by
  rw [scanFrom.eq_def]
  simp only [hc, Bool.false_eq_true, if_false]
  split
  · next h' => rw [h] at h'; cases h'
  · next h' =>
    rw [h] at h'
    cases h'
    rfl

/-- Every scanned token can be written. -/
theorem scanFrom_writable {pos : Nat} {cs : List Char} {ps : List Placed} (h : scanFrom pos cs = .ok ps) :
    ∀ p ∈ ps, p.token.Writable := by
  fun_induction scanFrom pos cs generalizing ps with
  | case1 =>
    cases h
    simp
  | case2 pos c cs hc ih => exact ih h
  | case3 => cases h
  | case4 pos c cs hc l hl ih =>
    obtain ⟨qs, hqs, rfl⟩ := Outcome.map_eq_ok_iff.1 h
    exact List.forall_mem_cons.2 ⟨Lexeme.read?_writable hl, ih hqs⟩

/-- A text that lays out the given tokens. -/
inductive Layout : List Token → List Char → Prop
  | nil : Layout [] []
  | blank {c ts cs} (hc : Text.isBlank c = true) (h : Layout ts cs) : Layout ts (c :: cs)
  | token {t ts cs} (hw : t.Writable) (he : t.EndsBefore cs) (h : Layout ts cs) : Layout (t :: ts) (t.spell ++ cs)

theorem Layout.space {ts : List Token} {cs : List Char} (h : Layout ts cs) : Layout ts (' ' :: cs) := .blank rfl h

theorem Layout.scanFrom {ts : List Token} {cs : List Char} (h : Layout ts cs) (pos : Nat) :
    ∃ ps, scanFrom pos cs = .ok ps ∧ ps.map Placed.token = ts := by
  induction h generalizing pos with
  | nil => exact ⟨[], by rw [scanFrom.eq_def], rfl⟩
  | blank hc _ ih =>
    obtain ⟨ps, hps, hts⟩ := ih (pos + _)
    exact ⟨ps, by rw [scanFrom_blank hc, hps], hts⟩
  | token hw he _ ih =>
    obtain ⟨c, cs, hcs, hblank, hread⟩ := Lexeme.read?_spell hw he pos
    obtain ⟨ps, hps, rfl⟩ := ih (pos + utf8Length _)
    rw [hcs, scanFrom_lexeme hblank hread, hps]
    exact ⟨_, rfl, rfl⟩

end RecordSource.Filter
