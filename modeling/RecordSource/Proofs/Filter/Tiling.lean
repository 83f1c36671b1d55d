import RecordSource.Proofs.Filter.Boundary
import RecordSource.Proofs.Filter.Identifier
import RecordSource.Proofs.Filter.Written

/-!
What becomes of every character of a text that is scanned. The text is blanks and spellings of the tokens, one after the
other; every token is placed where its spelling starts, and takes the longest spelling of a token that stands there.
-/
namespace RecordSource.Filter

/-- The text is a way to write the token: its symbol, the name itself, or a literal that decodes to its text. -/
structure Token.IsSpelling (t : Token) (w : List Char) : Prop where
  spelled : t.Spelled w
  identifier : ∀ s, t = .name s → IsIdentifier s.toList

/-- At the front of `w ++ rest` the token takes `w`, and no token has a longer spelling there. An equality sign is not
taken from an arrow. -/
structure Token.Takes (t : Token) (w rest : List Char) : Prop where
  isSpelling : t.IsSpelling w
  longest : ∀ (u : Token) (v : List Char), u.IsSpelling v → v <+: w ++ rest → v.length ≤ w.length
  arrow : t = .compare .eq → rest.head? ≠ some '>'

/-- The text, which starts at the place `pos`, is blanks, a spelling of the first token, blanks, a spelling of the next,
and so on to blanks at the end; each token is placed at its spelling. -/
inductive Tiles : Nat → List Placed → List Char → Prop
  | blanks {pos : Nat} {gap : List Char} (hgap : Text.allBlank gap = true) : Tiles pos [] gap
  | token {pos : Nat} {gap w cs : List Char} {t : Token} {ps : List Placed} (hgap : Text.allBlank gap = true)
    (ht : t.Takes w cs) (h : Tiles (pos + utf8Length gap + utf8Length w) ps cs) :
    Tiles pos (⟨pos + utf8Length gap, t⟩ :: ps) (gap ++ (w ++ cs))

namespace Token
variable {t u : Token} {v w rest : List Char}

theorem isSpelling_iff : t.IsSpelling w ↔ t.Spelled w ∧ t.Writable := by
  have hwritable : t.Writable ↔ ∀ s, t = .name s → IsIdentifier s.toList := by
    cases t with
    | name s => simpa [Writable] using isName_iff_isIdentifier
    | _ => simp [Writable]
  rw [hwritable]
  exact ⟨fun h => ⟨h.spelled, h.identifier⟩, fun h => ⟨h.1, h.2⟩⟩

theorem endsBefore_nil (t : Token) : t.EndsBefore [] := by
  cases t with
  | compare op => cases op <;> simp [EndsBefore]
  | name s => exact Lexeme.stops_nil
  | _ => simp [EndsBefore]

/-- What comes after a token is told by its first character. -/
theorem EndsBefore.of_cons {c : Char} {cs ds : List Char} (h : t.EndsBefore (c :: cs)) : t.EndsBefore (c :: ds) := by
  cases t with
  | compare op => cases op <;> exact h
  | _ => exact h

/-- Two tokens of which one would end in the other's spelling are spelled alike. -/
theorem IsSpelling.length_le (ht : t.IsSpelling w) (he : t.EndsBefore rest) (hu : u.IsSpelling v)
    (h : v <+: w ++ rest) : v.length ≤ w.length := by
  rw [isSpelling_iff] at ht hu
  refine Nat.le_of_not_lt ?_
  intro hlonger
  obtain ⟨c, cs, rfl⟩ : ∃ c cs, v = w ++ c :: cs := by
    obtain ⟨more, rfl⟩ := List.prefix_of_prefix_length_le (List.prefix_append w rest) h (Nat.le_of_lt hlonger)
    cases more with
    | nil => simp at hlonger
    | cons c cs => exact ⟨c, cs, rfl⟩
  rw [List.prefix_append_right_inj] at h
  obtain ⟨ds, rfl⟩ := h
  -- both are read from the same text
  have hends : t.EndsBefore (c :: cs) := he.of_cons
  obtain ⟨d, es, hes, _, hread⟩ := Lexeme.read?_of_spelled ht.1 ht.2 hends 0
  obtain ⟨d', es', hes', _, hread'⟩ := Lexeme.read?_of_spelled hu.1 hu.2 u.endsBefore_nil 0
  rw [List.append_nil, hes, List.cons.injEq] at hes'
  obtain ⟨rfl, rfl⟩ := hes'
  rw [hread] at hread'
  exact absurd (congrArg Lexeme.rest (Except.ok.inj hread')) (List.cons_ne_nil c cs)

/-- What is read takes the longest spelling. -/
theorem takes_of_read? {pos : Nat} {c : Char} {cs : List Char} {l : Lexeme} (h : Lexeme.read? pos c cs = .ok l) :
    l.token.Takes l.spelling l.rest := by
  obtain ⟨hs, he⟩ := Lexeme.spelled_of_read? h
  have ht := isSpelling_iff.2 ⟨hs, Lexeme.read?_writable h⟩
  refine ⟨ht, fun u v hu hv => ht.length_le he hu hv, ?_⟩
  intro heq
  rw [heq] at he
  exact he.2

/-- A spelling has a first character, which no indexer begins with. -/
theorem IsSpelling.exists_cons (h : t.IsSpelling w) : ∃ c cs, w = c :: cs ∧ c ≠ '[' := by
  rw [isSpelling_iff] at h
  obtain ⟨c, cs, hcs, _, hread⟩ := Lexeme.read?_of_spelled h.1 h.2 t.endsBefore_nil 0
  rw [List.append_nil] at hcs
  refine ⟨c, cs, hcs, ?_⟩
  rintro rfl
  cases hread

end Token

/-! Scanned texts are tiled. -/

namespace Tiles
variable {pos : Nat} {ps : List Placed} {cs : List Char}

theorem blank {c : Char} (hc : Text.isBlank c = true) (h : Tiles (pos + c.utf8Size) ps cs) :
    Tiles pos ps (c :: cs) := by
  have hgap : ∀ {gap : List Char}, Text.allBlank gap = true → Text.allBlank (c :: gap) = true := by
    intro gap h
    simpa [Text.allBlank, hc] using h
  cases h with
  | blanks hblank => exact .blanks (hgap hblank)
  | @token _ gap w cs t ps hblank ht h =>
    have hlength : pos + c.utf8Size + utf8Length gap = pos + utf8Length (c :: gap) := by
      rw [utf8Length_cons, Nat.add_assoc]
    rw [hlength] at h ⊢
    exact .token (hgap hblank) ht h

end Tiles

theorem tiles_of_scanFrom {pos : Nat} {cs : List Char} {ps : List Placed} (h : scanFrom pos cs = .ok ps) :
    Tiles pos ps cs := by
  fun_induction scanFrom pos cs generalizing ps with
  | case1 =>
    cases h
    exact .blanks rfl
  | case2 pos c cs hc ih => exact (ih h).blank hc
  | case3 => cases h
  | case4 pos c cs _ l hl ih =>
    obtain ⟨qs, hqs, rfl⟩ := Outcome.map_eq_ok_iff.1 h
    rw [← (Lexeme.read?_tiles hl).1]
    have hnone : Text.allBlank [] = true := rfl
    exact .token hnone (Token.takes_of_read? hl) (ih hqs)

/-! Tiled texts are scanned. -/

theorem scanFrom_blanks {gap : List Char} (h : Text.allBlank gap = true) (pos : Nat) (cs : List Char) :
    scanFrom pos (gap ++ cs) = scanFrom (pos + utf8Length gap) cs := by
  induction gap generalizing pos with
  | nil => rfl
  | cons c gap ih =>
    rw [Text.allBlank, List.all_cons, Bool.and_eq_true] at h
    rw [List.cons_append, scanFrom_blank h.1, ih h.2, utf8Length_cons, Nat.add_assoc]

namespace Tiles
variable {pos : Nat} {ps : List Placed} {cs : List Char}

theorem head?_ne (h : Tiles pos ps cs) : cs.head? ≠ some '[' := by
  have hgap : ∀ {gap rest : List Char}, Text.allBlank gap = true → rest.head? ≠ some '[' →
      (gap ++ rest).head? ≠ some '[' := by
    intro gap rest hblank hrest
    cases gap with
    | nil => exact hrest
    | cons c gap =>
      rintro ⟨⟩
      simp [Text.allBlank, Text.isBlank] at hblank
  cases h with
  | @blanks _ gap hblank =>
    have hnil : ([] : List Char).head? ≠ some '[' := by simp
    have h := hgap hblank hnil
    rwa [List.append_nil] at h
  | @token _ gap w cs t ps hblank ht _ =>
    obtain ⟨c, ds, rfl, hc⟩ := ht.isSpelling.exists_cons
    exact hgap hblank (by simpa using hc)

end Tiles

namespace Token
variable {t u : Token} {w cs : List Char}

theorem isSpelling_symbol (hliteral : ∀ text, t ≠ .literal text) (hname : ∀ s, t ≠ .name s) : t.IsSpelling t.spell :=
  ⟨.only hliteral, fun s hs => absurd hs (hname s)⟩

/-- A character that would make a longer spelling does not follow. -/
theorem Takes.head?_ne (ht : t.Takes w cs) {c : Char} (hu : u.IsSpelling (w ++ [c])) : cs.head? ≠ some c := by
  intro hhead
  obtain ⟨ds, rfl⟩ := List.head?_eq_some_iff.1 hhead
  have hle := ht.longest u (w ++ [c]) hu ⟨ds, by simp⟩
  rw [List.length_append] at hle
  exact Nat.not_succ_le_self _ hle

theorem IsSpelling.snoc {s : String} {c : Char} (h : (name s).IsSpelling w) (hc : isNameChar c = true) :
    (name (String.ofList (w ++ [c]))).IsSpelling (w ++ [c]) := by
  cases h.spelled with
  | only =>
    have hname : IsName s.toList := (isSpelling_iff.1 h).2
    refine isSpelling_iff.2 ⟨.name _, ?_⟩
    have hplain : Lexeme.name? .bare [c] = some ([c], []) := Lexeme.name?_plain (by simpa using hc)
    have hmore := hname.append hplain
    simpa [Writable, spell] using hmore

theorem Takes.endsBefore (ht : t.Takes w cs) (hcs : cs.head? ≠ some '[') : t.EndsBefore cs := by
  cases t with
  | openParen | closeParen | comma | and | or | literal => trivial
  | name s =>
    intro d hd
    refine ⟨?_, ?_⟩
    · refine Bool.eq_false_iff.2 ?_
      intro hname
      exact ht.head?_ne (ht.isSpelling.snoc hname) hd
    · rintro rfl
      exact hcs hd
  | not =>
    cases ht.isSpelling.spelled
    exact ht.head?_ne (u := .compare .ne) (isSpelling_symbol (by simp) (by simp))
  | compare op =>
    cases ht.isSpelling.spelled
    cases op with
    | eqEq | ne | le | ge => trivial
    | eq =>
      exact ⟨ht.head?_ne (u := .compare .eqEq) (isSpelling_symbol (by simp) (by simp)), ht.arrow rfl⟩
    | lt => exact ht.head?_ne (u := .compare .le) (isSpelling_symbol (by simp) (by simp))
    | gt => exact ht.head?_ne (u := .compare .ge) (isSpelling_symbol (by simp) (by simp))

end Token

theorem Tiles.scanFrom {pos : Nat} {ps : List Placed} {cs : List Char} (h : Tiles pos ps cs) :
    scanFrom pos cs = .ok ps := by
  induction h with
  | @blanks pos gap hgap =>
    have h := scanFrom_blanks hgap pos []
    rwa [List.append_nil, scanFrom.eq_def (pos + _)] at h
  | @token pos gap w cs t ps hgap ht h ih =>
    have hs := Token.isSpelling_iff.1 ht.isSpelling
    obtain ⟨c, ds, hds, hc, hread⟩ :=
      Lexeme.read?_of_spelled hs.1 hs.2 (ht.endsBefore h.head?_ne) (pos + utf8Length gap)
    rw [scanFrom_blanks hgap, hds, scanFrom_lexeme hc hread, ih]
    rfl

/-- Tokens are placed one after the other. -/
theorem Tiles.increasing {pos : Nat} {ps : List Placed} {cs : List Char} (h : Tiles pos ps cs) :
    (∀ p ∈ ps, pos ≤ p.offset) ∧ (ps.map Placed.offset).Pairwise (· < ·) := by
  induction h with
  | blanks => exact ⟨by simp, .nil⟩
  | @token pos gap w cs t ps _ ht _ ih =>
    obtain ⟨hle, hincreasing⟩ := ih
    have hw : 0 < utf8Length w := by
      obtain ⟨c, ds, rfl, _⟩ := ht.isSpelling.exists_cons
      have hc := c.utf8Size_pos
      rw [utf8Length_cons]
      omega
    refine ⟨?_, ?_⟩
    · refine List.forall_mem_cons.2 ⟨Nat.le_add_right _ _, ?_⟩
      intro p hp
      have hlater := hle p hp
      omega
    · refine List.pairwise_cons.2 ⟨?_, hincreasing⟩
      rw [List.forall_mem_map]
      intro p hp
      have hlater := hle p hp
      change pos + utf8Length gap < p.offset
      omega

/-- A text is scanned into the tokens that tile it, and into no others: blanks and spellings of the tokens make up the
text, each spelling the longest at its place and each token placed where its spelling starts. The places increase and
lie between characters. -/
theorem scan_eq_ok_iff_tiles (text : String) (ps : List Placed) :
    scan text = .ok ps ↔ Tiles 0 ps text.toList ∧ (ps.map Placed.offset).Pairwise (· < ·) ∧
      ∀ p ∈ ps, String.Pos.Raw.IsValid text ⟨p.offset⟩ := by
  constructor
  · intro h
    have htiles := tiles_of_scanFrom h
    refine ⟨htiles, htiles.increasing.2, ?_⟩
    intro p hp
    exact between_iff_isValid.1 (between_of_mem_scanFrom h p hp)
  · rintro ⟨htiles, _⟩
    exact htiles.scanFrom

end RecordSource.Filter
