import RecordSource.Proofs.Filter.WellFormed

/-!
Reading and writing again. A tree is read back from its rendering exactly if it is well-formed. The rendering of what
was read has the tokens that were read, save that a call of a free function loses a dot in front of its name; how many
dots a text has tells whether that happened.
-/
namespace RecordSource.Filter

/-- The tokens of a text, without their places. -/
def tokens? (text : String) : Except Fault (List Token) := (scan text).map (List.map Placed.token)

theorem Layout.tokens? {ts : List Token} {cs : List Char} (h : Layout ts cs) :
    tokens? (String.ofList cs) = .ok ts := by
  obtain ⟨ps, hps, hts⟩ := h.scanFrom 0
  rw [Filter.tokens?, scan, String.toList_ofList, hps]
  exact congrArg Except.ok hts

theorem tokens?_writable {text : String} {ts : List Token} (h : tokens? text = .ok ts) : ∀ t ∈ ts, t.Writable := by
  obtain ⟨ps, hps, rfl⟩ := Outcome.map_eq_ok_iff.1 h
  exact List.forall_mem_map.2 (scanFrom_writable hps)

/-- A name is a text that is scanned into one name, itself. -/
theorem isName_iff_tokens? {s : String} : IsName s.toList ↔ tokens? s = .ok [.name s] := by
  constructor
  · intro h
    have hlayout : Layout [.name s] (s.toList ++ []) := .token (t := .name s) h Lexeme.stops_nil .nil
    simpa using hlayout.tokens?
  · intro h
    exact tokens?_writable h (.name s) (by simp)

/-- Reading a text is deriving a tree from its tokens. -/
theorem parse?_eq_ok_iff {text : String} {e : Expr} :
    Expr.parse? text = .ok e ↔ ∃ ts, tokens? text = .ok ts ∧ Derives ts (.disjunction e) := by
  cases hscan : scan text with
  | error f => simp [Expr.parse?, tokens?, hscan, Except.map]
  | ok ps =>
    rw [parse?_of_scan hscan, Reading.run_iff_derives]
    simp [tokens?, hscan, Except.map]

/-! Dots. No blank, no separator and no escape has one, so a text has the dots of its tokens. -/

def Token.dots (ts : List Token) : Nat := ts.foldr (fun t n => t.spell.count '.' + n) 0

namespace Token

@[simp] theorem dots_nil : dots [] = 0 := rfl

@[simp] theorem dots_cons (t : Token) (ts : List Token) : dots (t :: ts) = t.spell.count '.' + dots ts := rfl

@[simp] theorem dots_append (ts us : List Token) : dots (ts ++ us) = dots ts + dots us := by
  induction ts with
  | nil => simp
  | cons t ts ih => simp [ih, Nat.add_assoc]

theorem unescape?_ne_dot {e d : Char} (h : unescape? e = some d) : e ≠ '.' ∧ d ≠ '.' := by
  unfold unescape? at h
  split at h
  case h_8 => cases h
  all_goals
    cases h
    decide

theorem count_escape (c : Char) : (escape c).count '.' = [c].count '.' := by
  rcases escape_cases c with ⟨e, he, hc⟩ | ⟨he, _, _⟩
  · obtain ⟨hne, hnc⟩ := unescape?_ne_dot hc
    simp [he, hne, hnc]
  · rw [he]

theorem count_quote (text : List Char) : (quote text).count '.' = text.count '.' := by
  have hescaped : (text.flatMap escape).count '.' = text.count '.' := by
    induction text with
    | nil => rfl
    | cons c text ih =>
      rw [List.flatMap_cons, List.count_append, ih, count_escape, ← List.count_append, List.singleton_append]
  simp [quote, hescaped]

end Token

namespace Lexeme

theorem count_literal? {start pos : Nat} {cs text spelling rest : List Char}
    (h : literal? start pos cs = .ok (text, spelling, rest)) : spelling.count '.' = text.count '.' := by
  fun_induction literal? start pos cs generalizing text spelling rest with
  | case1 | case3 | case4 => simp at h
  | case2 =>
    simp only [Except.ok.injEq, Prod.mk.injEq] at h
    obtain ⟨rfl, rfl, _⟩ := h
    rfl
  | case5 _ _ _ _ hd _ ih =>
    obtain ⟨⟨t, s, q⟩, hl, heq⟩ := Outcome.map_eq_ok_iff.1 h
    simp only [Prod.mk.injEq] at heq
    obtain ⟨rfl, rfl, rfl⟩ := heq
    obtain ⟨he, hd⟩ := Token.unescape?_ne_dot ‹_›
    simp [he, hd, ih hl]
  | case6 _ _ _ _ _ ih =>
    obtain ⟨⟨t, s, q⟩, hl, heq⟩ := Outcome.map_eq_ok_iff.1 h
    simp only [Prod.mk.injEq] at heq
    obtain ⟨rfl, rfl, rfl⟩ := heq
    rw [List.count_cons, List.count_cons, ih hl]

theorem count_read? {pos : Nat} {c : Char} {cs : List Char} {l : Lexeme} (h : read? pos c cs = .ok l) :
    l.spelling.count '.' = l.token.spell.count '.' := by
  unfold read? at h
  split at h
  case h_1 | h_2 | h_3 =>
    cases h
    rfl
  case h_10 =>
    obtain ⟨⟨text, s, q⟩, hl, rfl⟩ := Outcome.map_eq_ok_iff.1 h
    simp [Token.spell, Token.count_quote, count_literal? hl]
  case h_11 =>
    split at h
    · split at h
      · cases h
        simp [Token.spell]
      · cases h
    · cases h
  all_goals split at h <;> cases h <;> rfl

end Lexeme

theorem count_scanFrom {pos : Nat} {cs : List Char} {ps : List Placed} (h : scanFrom pos cs = .ok ps) :
    cs.count '.' = Token.dots (ps.map Placed.token) := by
  fun_induction scanFrom pos cs generalizing ps with
  | case1 =>
    cases h
    rfl
  | case2 pos c cs hc ih =>
    have hne : c ≠ '.' := by
      rintro rfl
      exact absurd hc (by decide)
    rw [List.count_cons_of_ne hne, ih h]
  | case3 => cases h
  | case4 pos c cs hc l hl ih =>
    obtain ⟨qs, hqs, rfl⟩ := Outcome.map_eq_ok_iff.1 h
    rw [← (Lexeme.read?_tiles hl).1, List.count_append, Lexeme.count_read? hl, ih hqs, List.map_cons, Token.dots_cons]

theorem count_tokens? {text : String} {ts : List Token} (h : tokens? text = .ok ts) :
    text.toList.count '.' = Token.dots ts := by
  obtain ⟨ps, hps, rfl⟩ := Outcome.map_eq_ok_iff.1 h
  exact count_scanFrom hps

theorem Clause.count_spell (c : Clause) : c.spell.count '.' = Token.dots c.tokens := by
  have hop (op : Comparator) : op.spell.count '.' = 0 := by cases op <;> rfl
  have hvalue (v : Operand) : v.spell.count '.' = v.token.spell.count '.' := by rw [Operand.spell_token]
  have harguments (vs : List Operand) :
      (Text.joinWith [',', ' '] (vs.map Operand.spell)).count '.' = Token.dots (argumentTokens vs) := by
    induction vs with
    | nil => rfl
    | cons v vs ih =>
      cases vs with
      | nil => exact hvalue v
      | cons w ws =>
        have hcomma : Token.comma.spell.count '.' = 0 := rfl
        rw [List.map_cons] at ih
        simp [argumentTokens, Text.joinWith, ih, hvalue, hcomma]
  cases c with
  | compare field op value =>
    have hname : (Token.name field).spell = field.toList := rfl
    have hcompare : (Token.compare op).spell = op.spell := rfl
    simp [spell, tokens, hvalue, hop, hname, hcompare]
  | call target method args => simp [spell, tokens, Token.spell, harguments]
  | term name => simp [spell, tokens, Token.spell]

namespace Expr

mutual

theorem count_spell : ∀ e : Expr, e.spell.count '.' = Token.dots e.tokens
  | or items => count_spellAll [' ', '|', '|', ' '] .or rfl items
  | and items => count_spellAll [' ', '&', '&', ' '] .and rfl items
  | not inner => by simp [spell, tokens, Token.spell, count_spell inner]
  | group inner => by simp [spell, tokens, Token.spell, count_spell inner]
  | clause c => c.count_spell

theorem count_spellAll (sep : List Char) (t : Token) (hsep : sep.count '.' = t.spell.count '.') :
    ∀ es : List Expr, (spellAll sep es).count '.' = Token.dots (tokensAll t es)
  | [] => rfl
  | [x] => count_spell x
  | x :: y :: xs => by simp [spellAll, tokensAll, count_spell x, count_spellAll sep t hsep (y :: xs), hsep]

end

end Expr

/-! Tokens as they are written again. -/

/-- The name under which a call is written again. -/
def calledName (n : String) : String :=
  match Reading.lastDot? 0 false n.toList with
  | some ([], method) => String.ofList method
  | _ => n

/-- Tokens with all called names as they are written again. -/
def asWritten : List Token → List Token
  | .name n :: .openParen :: ts => .name (calledName n) :: .openParen :: asWritten ts
  | t :: ts => t :: asWritten ts
  | [] => []

theorem calledName_of_not_isDotted {n : String} (h : ¬ IsDotted n) : calledName n = n := by
  unfold calledName
  split
  · next method hm => exact absurd ⟨method, hm⟩ h
  · rfl

theorem count_calledName {n : String} (h : IsDotted n) : (calledName n).toList.count '.' < n.toList.count '.' := by
  obtain ⟨method, hm⟩ := h
  have hcalled : (calledName n).toList = method := by simp [calledName, hm]
  rw [hcalled, Reading.lastDot?_tiles hm]
  simp

theorem Reading.tokens_callOf (n : String) (args : List Operand) :
    (callOf n args).tokens = .name (calledName n) :: .openParen :: (Clause.argumentTokens args ++ [.closeParen]) := by
  cases h : lastDot? 0 false n.toList with
  | none => simp [callOf, calledName, h, Clause.tokens, Clause.callName]
  | some parts =>
    obtain ⟨before, after⟩ := parts
    cases before with
    | nil => simp [callOf, calledName, h, Clause.tokens, Clause.callName]
    | cons c cs =>
      have hwritten : String.ofList (c :: cs ++ '.' :: after) = n := by
        rw [← lastDot?_tiles h, String.ofList_toList]
      simpa [callOf, calledName, h, Clause.tokens, Clause.callName, String.ofList_eq_empty_iff] using hwritten

/-- A token that is not the name of a call is written again as it is. -/
theorem asWritten_cons {t : Token} {ts : List Token} (h : ∀ n us, t = .name n → ts ≠ .openParen :: us) :
    asWritten (t :: ts) = t :: asWritten ts := by
  rw [asWritten]
  intro n us hname hparen
  exact h n us hname hparen

/-- What opens no parenthesis makes no call of the name before it. -/
theorem asWritten_append {t : Token} (ht : t ≠ .openParen) (ts us : List Token) :
    asWritten (ts ++ t :: us) = asWritten ts ++ asWritten (t :: us) := by
  fun_induction asWritten ts with
  | case1 n ts ih => simp [asWritten, ih]
  | case2 x ts hx ih =>
    rw [List.cons_append, List.cons_append, asWritten_cons, ih]
    intro n vs hname hparen
    cases ts with
    | nil => exact ht (List.cons.inj hparen).1
    | cons y ys => exact hx n ys hname (by rw [(List.cons.inj hparen).1])
  | case3 => rfl

theorem keepsDots_cons {t : Token} {ts : List Token} :
    KeepsDots (t :: ts) ↔ (∀ n us, t = .name n → ts = .openParen :: us → ¬ IsDotted n) ∧ KeepsDots ts := by
  simp only [KeepsDots, List.infix_cons_iff]
  constructor
  · intro h
    refine ⟨?_, fun n hn => h n (.inr hn)⟩
    rintro n us rfl rfl
    exact h n (.inl ⟨us, rfl⟩)
  · rintro ⟨hfirst, hrest⟩ n (⟨us, hus⟩ | hn)
    · obtain ⟨rfl, rfl⟩ := List.cons.inj hus
      exact hfirst n us rfl rfl
    · exact hrest n hn

theorem keepsDots_call {n : String} {ts : List Token} :
    KeepsDots (.name n :: .openParen :: ts) ↔ ¬ IsDotted n ∧ KeepsDots ts := by
  simp [keepsDots_cons]

theorem asWritten_of_keepsDots {ts : List Token} (h : KeepsDots ts) : asWritten ts = ts := by
  fun_induction asWritten ts with
  | case1 n ts ih =>
    obtain ⟨hn, hts⟩ := keepsDots_call.1 h
    rw [calledName_of_not_isDotted hn, ih hts]
  | case2 t ts _ ih => rw [ih (keepsDots_cons.1 h).2]
  | case3 => rfl

/-- Dots are only ever lost, and a call that loses its dot is told by their number. -/
theorem dots_asWritten (ts : List Token) :
    Token.dots (asWritten ts) ≤ Token.dots ts ∧ (Token.dots (asWritten ts) = Token.dots ts → KeepsDots ts) := by
  fun_induction asWritten ts with
  | case1 n ts ih =>
    obtain ⟨hle, hkeeps⟩ := ih
    simp only [Token.dots_cons, Token.spell, keepsDots_call]
    by_cases hn : IsDotted n
    · have hlost := count_calledName hn
      omega
    · rw [calledName_of_not_isDotted hn]
      exact ⟨by omega, fun heq => ⟨hn, hkeeps (by omega)⟩⟩
  | case2 t ts ht ih =>
    obtain ⟨hle, hkeeps⟩ := ih
    simp only [Token.dots_cons, keepsDots_cons]
    refine ⟨by omega, fun heq => ⟨?_, hkeeps (by omega)⟩⟩
    intro n us hname hparen
    exact absurd hparen (ht n us hname)
  | case3 => exact ⟨Nat.le_refl _, fun _ n hn => by simp at hn⟩

/-- The tokens that a phrase is written with. -/
def Phrase.tokens : Phrase → List Token
  | operand v => [v.token]
  | arguments vs => Clause.argumentTokens vs
  | clause c => c.tokens
  | primary e | unary e | conjunction e | disjunction e => e.tokens
  | conjuncts es => Expr.tokensAll .and es
  | disjuncts es => Expr.tokensAll .or es

/-- A phrase that stands for at least one thing. -/
def Phrase.Inhabited : Phrase → Prop
  | arguments vs => vs ≠ []
  | conjuncts es | disjuncts es => es ≠ []
  | operand _ | clause _ | primary _ | unary _ | conjunction _ | disjunction _ => True

theorem Derives.inhabited {ts : List Token} {p : Phrase} (h : Derives ts p) : p.Inhabited := by
  cases h <;> simp [Phrase.Inhabited]

theorem Clause.argumentTokens_cons (v : Operand) {vs : List Operand} (h : vs ≠ []) :
    argumentTokens (v :: vs) = v.token :: .comma :: argumentTokens vs := by
  cases vs with
  | nil => exact absurd rfl h
  | cons w ws => rfl

namespace Expr

theorem tokensAll_cons (sep : Token) (e : Expr) {es : List Expr} (h : es ≠ []) :
    tokensAll sep (e :: es) = e.tokens ++ sep :: tokensAll sep es := by
  cases es with
  | nil => exact absurd rfl h
  | cons x xs => rfl

theorem tokens_allOf (es : List Expr) : (allOf es).tokens = tokensAll .and es := by
  match es with
  | [] | [_] | _ :: _ :: _ => rfl

theorem tokens_anyOf (es : List Expr) : (anyOf es).tokens = tokensAll .or es := by
  match es with
  | [] | [_] | _ :: _ :: _ => rfl

end Expr

/-- A tree is written with the tokens it was derived from, called names as they are written again. -/
theorem Derives.tokens_eq {ts : List Token} {p : Phrase} (h : Derives ts p) : p.tokens = asWritten ts := by
  induction h with
  | literal | name | term => rfl
  | argument _ ih | clause _ ih | primary _ ih | conjunct _ ih | disjunct _ ih => exact ih
  | @moreArguments ts us v vs _ hmore ih more =>
    have hv : [v.token] = asWritten ts := ih
    have hvs : Clause.argumentTokens vs = asWritten us := more
    rw [asWritten_append (by simp), asWritten_cons (by simp), ← hv, ← hvs]
    exact Clause.argumentTokens_cons v hmore.inhabited
  | @comparison field op ts v _ ih =>
    have hv : [v.token] = asWritten ts := ih
    rw [asWritten_cons (by simp), asWritten_cons (by simp), ← hv]
    rfl
  | @emptyCall n => exact Reading.tokens_callOf n []
  | @call n ts vs _ ih =>
    have hvs : Clause.argumentTokens vs = asWritten ts := ih
    rw [asWritten, asWritten_append (by simp), ← hvs]
    exact Reading.tokens_callOf n vs
  | @parentheses ts e _ ih =>
    have he : e.tokens = asWritten ts := ih
    rw [asWritten_cons (by simp), asWritten_append (by simp), ← he]
    rfl
  | @not ts e _ ih =>
    have he : e.tokens = asWritten ts := ih
    rw [asWritten_cons (by simp), ← he]
    rfl
  | @moreConjuncts ts us e es _ hmore ih more =>
    have he : e.tokens = asWritten ts := ih
    have hes : Expr.tokensAll .and es = asWritten us := more
    rw [asWritten_append (by simp), asWritten_cons (by simp), ← he, ← hes]
    exact Expr.tokensAll_cons .and e hmore.inhabited
  | @moreDisjuncts ts us e es _ hmore ih more =>
    have he : e.tokens = asWritten ts := ih
    have hes : Expr.tokensAll .or es = asWritten us := more
    rw [asWritten_append (by simp), asWritten_cons (by simp), ← he, ← hes]
    exact Expr.tokensAll_cons .or e hmore.inhabited
  | @conjunction ts es _ ih => exact (Expr.tokens_allOf es).trans ih
  | @disjunction ts es _ ih => exact (Expr.tokens_anyOf es).trans ih

/-- What was read is well-formed and has the tokens that were read, if no call loses a dot. -/
theorem Derives.keeps {ts : List Token} {e : Expr} (h : Derives ts (.disjunction e)) (hw : ∀ t ∈ ts, t.Writable)
    (hts : KeepsDots ts) : e.WellFormed ∧ e.tokens = ts :=
  ⟨h.wellFormed ⟨hw, hts⟩, h.tokens_eq.trans (asWritten_of_keepsDots hts)⟩

/-- If as many dots are written as were read, no call loses a dot. -/
theorem Derives.keepsDots {ts : List Token} {e : Expr} (h : Derives ts (.disjunction e))
    (hdots : e.spell.count '.' = Token.dots ts) : KeepsDots ts := by
  have htokens : e.tokens = asWritten ts := h.tokens_eq
  rw [e.count_spell, htokens] at hdots
  exact (dots_asWritten ts).2 hdots

namespace Expr

theorem tokens?_render {e : Expr} (h : e.WellFormed) : tokens? e.render = .ok e.tokens := by
  obtain ⟨ps, hps, htokens⟩ := scan_render h
  rw [tokens?, hps, ← htokens]
  rfl

/-- A tree that is read back from its rendering is well-formed: no dot is lost, since as many are written as read. -/
theorem wellFormed_of_parse?_render {e : Expr} (h : parse? e.render = .ok e) : e.WellFormed := by
  obtain ⟨ts, hts, hderives⟩ := parse?_eq_ok_iff.1 h
  have hdots : e.spell.count '.' = Token.dots ts := by simpa [render] using count_tokens? hts
  exact hderives.wellFormed ⟨tokens?_writable hts, hderives.keepsDots hdots⟩

/-- Names are the texts that are scanned into themselves, and the trees that are read back from their renderings are
exactly the well-formed ones. -/
theorem parse?_render_iff_wellFormed :
    (∀ s : String, IsName s.toList ↔ tokens? s = .ok [.name s]) ∧
    ∀ e : Expr, e.WellFormed ↔ parse? e.render = .ok e :=
  ⟨fun _ => isName_iff_tokens?, fun _ => ⟨parse?_render_of_wellFormed, wellFormed_of_parse?_render⟩⟩

example :
    let e := and [.not (.group (.or [.clause (.compare "a[\"]\"].b" .ne (.quoted "q\"\\\n\x00é")), .clause (.term "x")])),
      .clause (.call "" "f" [])]
    (parse? e.render).toOption = some e := by decide +kernel

/-- Rendering what was read keeps all tokens exactly if no call of a free function has a dot in front of its name; then
the rendering reads as the same tree. -/
theorem tokens?_render_iff_keepsDots {text : String} {e : Expr} (h : parse? text = .ok e) :
    ∃ ts, tokens? text = .ok ts ∧ (tokens? e.render = .ok ts ↔ KeepsDots ts) ∧
      (KeepsDots ts → parse? e.render = .ok e) := by
  obtain ⟨ts, hts, hderives⟩ := parse?_eq_ok_iff.1 h
  have hkeeps := hderives.keeps (tokens?_writable hts)
  refine ⟨ts, hts, ⟨?_, ?_⟩, fun hdots => parse?_render_of_wellFormed (hkeeps hdots).1⟩
  · intro hrender
    have hdots : e.spell.count '.' = Token.dots ts := by simpa [render] using count_tokens? hrender
    exact hderives.keepsDots hdots
  · intro hdots
    obtain ⟨hwf, htokens⟩ := hkeeps hdots
    rw [tokens?_render hwf, htokens]

theorem tokens?_render_indexer_and_escape :
    let text := "!a..b[\".\"].Has( \"it\\'s\",c )||.d"
    let e := Expr.or [.not (.clause (.call "a..b[\".\"]" "Has" [.quoted "it's", .bare "c"])), .clause (.term ".d")]
    parse? text = .ok e ∧ ∃ ts, tokens? text = .ok ts ∧ (tokens? e.render = .ok ts ↔ KeepsDots ts) ∧
      (KeepsDots ts → parse? e.render = .ok e) := by
  intro text e
  have hparse : parse? text = .ok e := Outcome.toOption_eq_some_iff.1 (by decide +kernel)
  exact ⟨hparse, tokens?_render_iff_keepsDots hparse⟩

/-- A call loses the dot in front of a free function's name. Where the name is nothing but the dot, the rendering cannot
be read. -/
theorem tokens?_render_loses_dot :
    let call := Expr.clause (.call "" "Has" [.quoted "x"])
    let nameless := Expr.clause (.call "" "" [.quoted "x"])
    (parse? ".Has(\"x\")" = .ok call ∧ tokens? call.render ≠ tokens? ".Has(\"x\")") ∧
    (parse? ".(\"x\")" = .ok nameless ∧ ∀ e, parse? nameless.render ≠ .ok e) := by
  intro call nameless
  have hcall : parse? ".Has(\"x\")" = .ok call := Outcome.toOption_eq_some_iff.1 (by decide +kernel)
  have hread : tokens? ".Has(\"x\")" = .ok [.name ".Has", .openParen, .literal "x", .closeParen] :=
    Outcome.toOption_eq_some_iff.1 (by decide +kernel)
  have hwritten : tokens? call.render = .ok [.name "Has", .openParen, .literal "x", .closeParen] :=
    Outcome.toOption_eq_some_iff.1 (by decide +kernel)
  have hnameless : parse? ".(\"x\")" = .ok nameless := Outcome.toOption_eq_some_iff.1 (by decide +kernel)
  have hrefused : (parse? nameless.render).toOption = none := by decide +kernel
  refine ⟨⟨hcall, ?_⟩, hnameless, ?_⟩
  · rw [hread, hwritten]
    exact fun hsame => absurd (Except.ok.inj hsame) (by decide)
  · intro e he
    rw [Outcome.toOption_eq_some_iff.2 he] at hrefused
    cases hrefused

end Expr
end RecordSource.Filter
