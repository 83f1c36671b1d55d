import RecordSource.Proofs.Filter.RoundTrip

/-!
Texts as they are written for a list of tokens: literals with any escapes that read as their text, other tokens in their
only spelling, blanks anywhere between. These are the texts that are scanned into these tokens, and no others.
-/
namespace RecordSource.Filter

/-- What may stand between the quotes of a literal for a text. -/
inductive Decodes : List Char → List Char → Prop
  | nil : Decodes [] []
  | char {c : Char} {body text : List Char} (hquote : c ≠ '"') (hbackslash : c ≠ '\\') (h : Decodes body text) :
    Decodes (c :: body) (c :: text)
  | escape {e d : Char} {body text : List Char} (he : Token.unescape? e = some d) (h : Decodes body text) :
    Decodes ('\\' :: e :: body) (d :: text)

theorem Decodes.literal? {body text : List Char} (h : Decodes body text) (start pos : Nat) (rest : List Char) :
    Lexeme.literal? start pos (body ++ '"' :: rest) = .ok (text, body ++ ['"'], rest) := by
  induction h generalizing pos with
  | nil => exact Lexeme.literal?_quote start pos rest
  | char hquote hbackslash _ ih =>
    rw [List.cons_append, Lexeme.literal?_cons hquote hbackslash, ih]
    rfl
  | escape he _ ih =>
    simp only [List.cons_append, Lexeme.literal?, he, ih]
    rfl

theorem decodes_of_literal? {start pos : Nat} {cs text spelling rest : List Char}
    (h : Lexeme.literal? start pos cs = .ok (text, spelling, rest)) :
    ∃ body, spelling = body ++ ['"'] ∧ Decodes body text := by
  fun_induction Lexeme.literal? start pos cs generalizing text spelling rest with
  | case1 | case3 | case4 => cases h
  | case2 =>
    cases h
    exact ⟨[], rfl, .nil⟩
  | case5 pos e ds d he _ ih =>
    obtain ⟨⟨t, s, q⟩, hl, heq⟩ := Outcome.map_eq_ok_iff.1 h
    cases heq
    obtain ⟨body, rfl, hbody⟩ := ih hl
    exact ⟨'\\' :: e :: body, rfl, .escape he hbody⟩
  | case6 pos c cs hquote hbackslash ih =>
    obtain ⟨⟨t, s, q⟩, hl, heq⟩ := Outcome.map_eq_ok_iff.1 h
    cases heq
    obtain ⟨body, rfl, hbody⟩ := ih hl
    exact ⟨c :: body, rfl, .char hquote hbackslash hbody⟩

/-- The ways to spell a token. -/
inductive Token.Spelled : Token → List Char → Prop
  | literal {body : List Char} {text : String} (h : Decodes body text.toList) :
    Spelled (.literal text) ('"' :: (body ++ ['"']))
  | only {t : Token} (h : ∀ text, t ≠ .literal text) : Spelled t t.spell

theorem Token.Spelled.name (s : List Char) : (Token.name (String.ofList s)).Spelled s := by
  have h : (Token.name (String.ofList s)).Spelled (Token.name (String.ofList s)).spell := .only fun _ h => nomatch h
  rwa [Token.spell, String.toList_ofList] at h

namespace Lexeme

/-- A token is read back from any of its spellings, before anything that does not belong to it. -/
theorem read?_of_spelled {t : Token} {w rest : List Char} (hs : t.Spelled w) (hw : t.Writable)
    (he : t.EndsBefore rest) (pos : Nat) :
    ∃ c cs, w ++ rest = c :: cs ∧ Text.isBlank c = false ∧ read? pos c cs = .ok ⟨t, w, rest⟩ := by
  cases hs with
  | @literal body text h =>
    refine ⟨'"', body ++ '"' :: rest, by simp, by decide, ?_⟩
    simp only [read?, h.literal?, Except.map, String.ofList_toList]
  | only h => exact read?_spell hw he pos

theorem head?_ne {c : Char} {cs : List Char} (h : ∀ ds, cs = c :: ds → False) : cs.head? ≠ some c := by
  intro hc
  obtain ⟨ds, hds⟩ := List.head?_eq_some_iff.1 hc
  exact h ds hds

theorem stops_of_name? {place : Place} {cs s rest : List Char} (h : name? place cs = some (s, rest)) :
    Stops rest := by
  fun_induction name? place cs generalizing s rest with
  | case1 =>
    cases h
    exact stops_nil
  | case2 | case7 => cases h
  | case5 c cs hname hbracket =>
    cases h
    exact stops_cons (by simpa using hname) hbracket cs
  | case3 _ _ _ ih | case4 _ _ ih | case6 _ _ ih | case8 _ _ ih | case9 _ _ _ ih =>
    obtain ⟨⟨t, q⟩, ht, heq⟩ := Option.map_eq_some_iff.1 h
    cases heq
    exact ih ht

/-- What is read is spelled in one of the ways of its token, and what is left does not belong to it. -/
theorem spelled_of_read? {pos : Nat} {c : Char} {cs : List Char} {l : Lexeme} (h : read? pos c cs = .ok l) :
    l.token.Spelled l.spelling ∧ l.token.EndsBefore l.rest := by
  unfold read? at h
  split at h
  case h_1 | h_2 | h_3 =>
    cases h
    exact ⟨.only (by simp), trivial⟩
  case h_10 =>
    obtain ⟨⟨text, s, q⟩, hl, rfl⟩ := Outcome.map_eq_ok_iff.1 h
    obtain ⟨body, rfl, hbody⟩ := decodes_of_literal? hl
    exact ⟨.literal (by rwa [String.toList_ofList]), trivial⟩
  case h_11 =>
    split at h
    · split at h
      · next s rest hn =>
        cases h
        exact ⟨.name s, stops_of_name? hn⟩
      · cases h
    · cases h
  -- Connectives and comparisons look at the character that follows.
  all_goals
    split at h <;> cases h
    all_goals refine ⟨.only (by simp), ?_⟩
  all_goals first
    | trivial
    | exact head?_ne ‹_›
    | exact ⟨head?_ne ‹_›, head?_ne ‹_›⟩

end Lexeme

/-- A text that is written for the given tokens. -/
inductive Written : List Token → List Char → Prop
  | nil : Written [] []
  | blank {c : Char} {ts : List Token} {cs : List Char} (hc : Text.isBlank c = true) (h : Written ts cs) :
    Written ts (c :: cs)
  | token {t : Token} {w : List Char} {ts : List Token} {cs : List Char} (hs : t.Spelled w) (hw : t.Writable)
    (he : t.EndsBefore cs) (h : Written ts cs) : Written (t :: ts) (w ++ cs)

theorem Written.scanFrom {ts : List Token} {cs : List Char} (h : Written ts cs) (pos : Nat) :
    ∃ ps, scanFrom pos cs = .ok ps ∧ ps.map Placed.token = ts := by
  induction h generalizing pos with
  | nil => exact ⟨[], by rw [scanFrom.eq_def], rfl⟩
  | blank hc _ ih =>
    obtain ⟨ps, hps, hts⟩ := ih (pos + _)
    exact ⟨ps, by rw [scanFrom_blank hc, hps], hts⟩
  | token hs hw he _ ih =>
    obtain ⟨c, cs, hcs, hblank, hread⟩ := Lexeme.read?_of_spelled hs hw he pos
    obtain ⟨ps, hps, rfl⟩ := ih (pos + utf8Length _)
    rw [hcs, scanFrom_lexeme hblank hread, hps]
    exact ⟨_, rfl, rfl⟩

theorem written_of_scanFrom {pos : Nat} {cs : List Char} {ps : List Placed} (h : scanFrom pos cs = .ok ps) :
    Written (ps.map Placed.token) cs := by
  fun_induction scanFrom pos cs generalizing ps with
  | case1 =>
    cases h
    exact .nil
  | case2 pos c cs hc ih => exact .blank hc (ih h)
  | case3 => cases h
  | case4 pos c cs hc l hl ih =>
    obtain ⟨qs, hqs, rfl⟩ := Outcome.map_eq_ok_iff.1 h
    obtain ⟨hs, he⟩ := Lexeme.spelled_of_read? hl
    rw [← (Lexeme.read?_tiles hl).1]
    exact .token hs (Lexeme.read?_writable hl) he (ih hqs)

/-! What the front of a text is written for. -/

namespace Written
variable {ts : List Token}

theorem of_blank {c : Char} {cs : List Char} (h : Written ts (c :: cs)) (hc : Text.isBlank c = true) :
    Written ts cs := by
  obtain ⟨ps, hps, rfl⟩ := h.scanFrom 0
  rw [scanFrom_blank hc] at hps
  exact written_of_scanFrom hps

theorem of_spelled {t : Token} {w rest : List Char} (h : Written ts (w ++ rest)) (hs : t.Spelled w)
    (hw : t.Writable) (he : t.EndsBefore rest) : ∃ us, ts = t :: us ∧ Written us rest := by
  obtain ⟨ps, hps, rfl⟩ := h.scanFrom 0
  obtain ⟨c, cs, hcs, hblank, hread⟩ := Lexeme.read?_of_spelled hs hw he 0
  rw [hcs, scanFrom_lexeme hblank hread] at hps
  obtain ⟨qs, hqs, rfl⟩ := Outcome.map_eq_ok_iff.1 hps
  exact ⟨_, rfl, written_of_scanFrom hqs⟩

theorem of_quote {cs : List Char} (h : Written ts ('"' :: cs)) : ∃ text us body rest, ts = .literal text :: us ∧
    cs = body ++ '"' :: rest ∧ Decodes body text.toList ∧ Written us rest := by
  generalize hds : '"' :: cs = ds at h
  cases h with
  | nil => cases hds
  | blank hc _ =>
    cases hds
    exact absurd hc (by decide)
  | @token t w us rest hs hw he h =>
    obtain ⟨c, es, hes, _, hread⟩ := Lexeme.read?_of_spelled hs hw he 0
    cases hs with
    | @literal body text hbody =>
      rw [List.cons_append, List.append_assoc] at hds
      exact ⟨text, us, body, rest, rfl, (List.cons.inj hds).2, hbody, h⟩
    | only hother =>
      rw [hes] at hds
      cases hds
      obtain ⟨_, _, hl⟩ := Outcome.map_eq_ok_iff.1 hread
      exact absurd (congrArg Lexeme.token hl).symm (hother _)

end Written

theorem tokens?_eq_ok_iff {text : String} {ts : List Token} : tokens? text = .ok ts ↔ Written ts text.toList := by
  constructor
  · intro h
    obtain ⟨ps, hps, rfl⟩ := Outcome.map_eq_ok_iff.1 h
    exact written_of_scanFrom hps
  · intro h
    obtain ⟨ps, hps, hts⟩ := h.scanFrom 0
    exact Outcome.map_eq_ok_iff.2 ⟨ps, hps, hts⟩

end RecordSource.Filter
