import RecordSource.Proofs.Filter.Acceptance
import RecordSource.Proofs.Filter.Layout

/-!
Trees that have a text of their own. In a well-formed tree chains have at least two parts and stand where the grammar
has them without parentheses, and all names are names. Its rendering reads as the tree again.
-/
namespace RecordSource.Filter

def Operand.WellFormed : Operand → Prop
  | quoted _ => True
  | bare s => IsName s.toList

def Clause.WellFormed : Clause → Prop
  | compare field _ value => IsName field.toList ∧ value.WellFormed
  | call target method args => IsCallName target method ∧ ∀ v ∈ args, v.WellFormed
  | term name => IsName name.toList

namespace Expr

def isOr : Expr → Bool
  | or _ => true
  | _ => false

def isChain : Expr → Bool
  | or _ | and _ => true
  | _ => false

theorem isOr_of_isChain {e : Expr} (h : e.isChain = false) : e.isOr = false := by
  cases e with
  | or | and => cases h
  | not | group | clause => rfl

mutual

def WellFormed : Expr → Prop
  | or items => 2 ≤ items.length ∧ (∀ e ∈ items, e.isOr = false) ∧ AllWellFormed items
  | and items => 2 ≤ items.length ∧ (∀ e ∈ items, e.isChain = false) ∧ AllWellFormed items
  | not inner => inner.isChain = false ∧ WellFormed inner
  | group inner => WellFormed inner
  | clause c => c.WellFormed

def AllWellFormed : List Expr → Prop
  | [] => True
  | e :: es => WellFormed e ∧ AllWellFormed es

end

theorem allWellFormed_iff {es : List Expr} : AllWellFormed es ↔ ∀ e ∈ es, e.WellFormed := by
  induction es with
  | nil => simp [AllWellFormed]
  | cons e es ih => rw [AllWellFormed, ih, List.forall_mem_cons]

end Expr

/-! The tokens that a tree is written with. -/

def Clause.argumentTokens : List Operand → List Token
  | [] => []
  | [v] => [v.token]
  | v :: w :: vs => v.token :: .comma :: argumentTokens (w :: vs)

def Clause.tokens : Clause → List Token
  | compare field op value => [.name field, .compare op, value.token]
  | call target method args =>
    .name (String.ofList (callName target method)) :: .openParen :: (argumentTokens args ++ [.closeParen])
  | term name => [.name name]

namespace Expr

mutual

def tokens : Expr → List Token
  | or items => tokensAll .or items
  | and items => tokensAll .and items
  | not inner => .not :: tokens inner
  | group inner => .openParen :: (tokens inner ++ [.closeParen])
  | clause c => c.tokens

def tokensAll (sep : Token) : List Expr → List Token
  | [] => []
  | [x] => tokens x
  | x :: y :: xs => tokens x ++ sep :: tokensAll sep (y :: xs)

end

/-- The tightest phrase that a tree can be. -/
def phrase : Expr → Phrase
  | or items => .disjunction (or items)
  | and items => .conjunction (and items)
  | e => .unary e

theorem phrase_eq_unary {e : Expr} (h : e.isChain = false) : e.phrase = .unary e := by
  cases e with
  | or | and => cases h
  | not | group | clause => rfl

end Expr

namespace Derives
variable {ts : List Token} {e : Expr}

theorem conjunction_of_phrase (h : Derives ts e.phrase) (he : e.isOr = false) : Derives ts (.conjunction e) := by
  cases e with
  | or => cases he
  | and => exact h
  | not | group | clause => exact conjunction (conjunct h)

theorem disjunction_of_phrase (h : Derives ts e.phrase) : Derives ts (.disjunction e) := by
  cases e with
  | or => exact h
  | and | not | group | clause => exact disjunction (disjunct (h.conjunction_of_phrase rfl))

/-- The tokens of several trees make up a chain, under any rules that build chains. -/
theorem tokensAll {sep : Token} {part : Expr → Phrase} (chain : List Expr → Phrase)
    (one : ∀ {ts x}, Derives ts (part x) → Derives ts (chain [x]))
    (more : ∀ {ts us x xs}, Derives ts (part x) → Derives us (chain xs) →
      Derives (ts ++ sep :: us) (chain (x :: xs)))
    {es : List Expr} (hne : es ≠ []) (h : ∀ e ∈ es, Derives e.tokens (part e)) :
    Derives (Expr.tokensAll sep es) (chain es) := by
  induction es with
  | nil => exact absurd rfl hne
  | cons x es ih =>
    rw [List.forall_mem_cons] at h
    cases es with
    | nil => exact one h.1
    | cons y ys => exact more h.1 (ih (by simp) h.2)

theorem argumentTokens {vs : List Operand} (hne : vs ≠ []) :
    Derives (Clause.argumentTokens vs) (.arguments vs) := by
  induction vs with
  | nil => exact absurd rfl hne
  | cons v vs ih =>
    cases vs with
    | nil => exact argument (operand v)
    | cons w ws => exact moreArguments (operand v) (ih (by simp))

theorem clauseTokens {c : Clause} (h : c.WellFormed) : Derives c.tokens (.clause c) := by
  cases c with
  | compare field op value => exact comparison (operand value)
  | term name => exact term
  | call target method args =>
    simp only [Clause.tokens]
    rw [← h.1.2 args]
    cases args with
    | nil => exact emptyCall
    | cons v vs => exact call (argumentTokens (by simp))

end Derives

namespace Expr

mutual

theorem derives_phrase : ∀ e : Expr, e.WellFormed → Derives e.tokens e.phrase
  | or items, h => by
    obtain ⟨hlen, hparts, hall⟩ := h
    have hderives := allDerive_phrase items hall
    have hchain : Derives (tokensAll .or items) (.disjuncts items) :=
      .tokensAll .disjuncts .disjunct .moreDisjuncts (by rintro rfl; simp at hlen)
        fun e he => (hderives e he).conjunction_of_phrase (hparts e he)
    have hany : anyOf items = or items := by
      match items, hlen with
      | _ :: _ :: _, _ => rfl
    have hroot := hchain.disjunction
    rwa [hany] at hroot
  | and items, h => by
    obtain ⟨hlen, hparts, hall⟩ := h
    have hderives := allDerive_phrase items hall
    have hchain : Derives (tokensAll .and items) (.conjuncts items) :=
      .tokensAll .conjuncts .conjunct .moreConjuncts (by rintro rfl; simp at hlen)
        fun e he => phrase_eq_unary (hparts e he) ▸ hderives e he
    have hall : allOf items = and items := by
      match items, hlen with
      | _ :: _ :: _, _ => rfl
    have hroot := hchain.conjunction
    rwa [hall] at hroot
  | not inner, h => by
    have hinner := derives_phrase inner h.2
    rw [phrase_eq_unary h.1] at hinner
    exact hinner.not
  | group inner, h => .primary (.parentheses (derives_phrase inner h).disjunction_of_phrase)
  | clause c, h => .primary (.clause (.clauseTokens h))

theorem allDerive_phrase : ∀ es : List Expr, AllWellFormed es → ∀ e ∈ es, Derives e.tokens e.phrase
  | [], _ => by simp
  | e :: es, h => List.forall_mem_cons.2 ⟨derives_phrase e h.1, allDerive_phrase es h.2⟩

end

end Expr

/-! The text of a tree lays its tokens out. -/

theorem Layout.operand {v : Operand} {ts : List Token} {cs : List Char} (hv : v.WellFormed)
    (h : Layout ts cs) (hstop : Lexeme.Stops cs) : Layout (v.token :: ts) (v.spell ++ cs) := by
  rw [← Operand.spell_token]
  cases v with
  | quoted => exact .token trivial trivial h
  | bare => exact .token hv hstop h

theorem Layout.arguments {vs : List Operand} {ts : List Token} {cs : List Char} (hvs : ∀ v ∈ vs, v.WellFormed)
    (h : Layout ts cs) (hstop : Lexeme.Stops cs) :
    Layout (Clause.argumentTokens vs ++ ts) (Text.joinWith [',', ' '] (vs.map Operand.spell) ++ cs) := by
  induction vs with
  | nil => exact h
  | cons v vs ih =>
    rw [List.forall_mem_cons] at hvs
    cases vs with
    | nil => exact .operand hvs.1 h hstop
    | cons w ws =>
      have hrest : Layout (.comma :: (Clause.argumentTokens (w :: ws) ++ ts))
          (',' :: ' ' :: (Text.joinWith [',', ' '] ((w :: ws).map Operand.spell) ++ cs)) :=
        .token (t := .comma) trivial trivial (ih hvs.2).space
      have hv := Layout.operand hvs.1 hrest (Lexeme.stops_cons rfl (by decide) _)
      simpa [Clause.argumentTokens, Text.joinWith] using hv

theorem Layout.clause {c : Clause} {ts : List Token} {cs : List Char} (hc : c.WellFormed)
    (h : Layout ts cs) (hstop : Lexeme.Stops cs) : Layout (c.tokens ++ ts) (c.spell ++ cs) := by
  cases c with
  | term name => exact .token hc hstop h
  | compare field op value =>
    have hspace : ∀ ds : List Char, (Token.compare op).EndsBefore (' ' :: ds) := by
      intro ds
      cases op <;> simp [Token.EndsBefore]
    have hvalue := Layout.operand hc.2 h hstop
    have hop := Layout.token (t := .compare op) trivial (hspace _) hvalue.space
    have hfield := Layout.token (t := .name field) hc.1 (Lexeme.stops_cons rfl (by decide) _) hop.space
    simpa [Clause.tokens, Clause.spell, Token.spell] using hfield
  | call target method args =>
    have hclose : Layout (.closeParen :: ts) (')' :: cs) := .token (t := .closeParen) trivial trivial h
    have hargs := Layout.arguments hc.2 hclose (Lexeme.stops_cons rfl (by decide) _)
    have hopen := Layout.token (t := .openParen) trivial trivial hargs
    have hname := Layout.token (t := .name (String.ofList (Clause.callName target method)))
      (by simpa [Token.Writable] using hc.1.1) (Lexeme.stops_cons rfl (by decide) _) hopen
    simpa [Clause.tokens, Clause.spell, Token.spell] using hname

namespace Expr

theorem clause_spell_ne {c : Clause} (h : c.WellFormed) : ∃ d ds, c.spell = d :: ds ∧ d ≠ '=' := by
  have hstart : ∀ {cs : List Char}, IsName cs → ∃ d ds, cs = d :: ds ∧ d ≠ '=' := by
    intro cs hcs
    obtain ⟨d, ds, rfl, hd⟩ := hcs.exists_cons
    exact ⟨d, ds, rfl, by rintro rfl; simp [Token.isNameChar] at hd⟩
  cases c with
  | term name => exact hstart h
  | compare field op value =>
    obtain ⟨d, ds, hds, hd⟩ := hstart h.1
    exact ⟨d, _, by rw [Clause.spell, hds]; rfl, hd⟩
  | call target method args =>
    obtain ⟨d, ds, hds, hd⟩ := hstart h.1.1
    exact ⟨d, _, by rw [Clause.spell, hds]; rfl, hd⟩

mutual

theorem spell_ne : ∀ e : Expr, e.WellFormed → ∃ d ds, e.spell = d :: ds ∧ d ≠ '='
  | or items, h => spellAll_ne _ items h.2.2 (by rintro rfl; simp [WellFormed] at h)
  | and items, h => spellAll_ne _ items h.2.2 (by rintro rfl; simp [WellFormed] at h)
  | not inner, _ => ⟨'!', inner.spell, rfl, by decide⟩
  | group inner, _ => ⟨'(', inner.spell ++ [')'], rfl, by decide⟩
  | clause _, h => clause_spell_ne h

theorem spellAll_ne (sep : List Char) :
    ∀ es : List Expr, AllWellFormed es → es ≠ [] → ∃ d ds, spellAll sep es = d :: ds ∧ d ≠ '='
  | [], _, hne => absurd rfl hne
  | [x], h, _ => spell_ne x h.1
  | x :: y :: xs, h, _ => by
    obtain ⟨d, ds, hds, hd⟩ := spell_ne x h.1
    exact ⟨d, ds ++ (sep ++ spellAll sep (y :: xs)), by simp [spellAll, hds], hd⟩

end

mutual

theorem layout_spell : ∀ e : Expr, e.WellFormed → ∀ {ts : List Token} {cs : List Char}, Layout ts cs →
    Lexeme.Stops cs → Layout (e.tokens ++ ts) (e.spell ++ cs)
  | or items, h, _, _, hl, hs => layout_spellAll .or trivial (fun _ => trivial) items h.2.2 hl hs
  | and items, h, _, _, hl, hs => layout_spellAll .and trivial (fun _ => trivial) items h.2.2 hl hs
  | not inner, h, ts, cs, hl, hs => by
    obtain ⟨d, ds, hds, hd⟩ := spell_ne inner h.2
    have hinner := layout_spell inner h.2 hl hs
    have hends : Token.not.EndsBefore (inner.spell ++ cs) := by simpa [Token.EndsBefore, hds] using hd
    exact .token (t := .not) trivial hends hinner
  | group inner, h, ts, cs, hl, hs => by
    have hclose : Layout (.closeParen :: ts) (')' :: cs) := .token (t := .closeParen) trivial trivial hl
    have hinner := layout_spell inner h hclose (Lexeme.stops_cons rfl (by decide) _)
    have hopen := Layout.token (t := .openParen) trivial trivial hinner
    simpa [tokens, spell, Token.spell] using hopen
  | clause _, h, _, _, hl, hs => .clause h hl hs

theorem layout_spellAll (sep : Token) (hw : sep.Writable) (hends : ∀ cs, sep.EndsBefore cs) :
    ∀ es : List Expr, AllWellFormed es → ∀ {ts : List Token} {cs : List Char}, Layout ts cs →
      Lexeme.Stops cs → Layout (tokensAll sep es ++ ts) (spellAll (' ' :: (sep.spell ++ [' '])) es ++ cs)
  | [], _, _, _, hl, _ => hl
  | [x], h, _, _, hl, hs => layout_spell x h.1 hl hs
  | x :: y :: xs, h, ts, cs, hl, hs => by
    have hrest := layout_spellAll sep hw hends (y :: xs) h.2 hl hs
    have hsep := Layout.token hw (hends _) hrest.space
    have hx := layout_spell x h.1 hsep.space (Lexeme.stops_cons rfl (by decide) _)
    simpa [tokensAll, spellAll] using hx

end

/-- The rendering of a well-formed tree is scanned into the tree's tokens. -/
theorem scan_render {e : Expr} (h : e.WellFormed) : ∃ ps, scan e.render = .ok ps ∧ ps.map Placed.token = e.tokens := by
  have hlayout : Layout e.tokens e.spell := by simpa using layout_spell e h .nil Lexeme.stops_nil
  obtain ⟨ps, hps, htokens⟩ := hlayout.scanFrom 0
  refine ⟨ps, ?_, htokens⟩
  rw [scan, render, String.toList_ofList, hps]

/-- The rendering of a well-formed tree reads as the tree. -/
theorem parse?_render_of_wellFormed {e : Expr} (h : e.WellFormed) : parse? e.render = .ok e := by
  obtain ⟨ps, hscan, htokens⟩ := scan_render h
  rw [parse?_of_scan hscan, Reading.run_iff_derives, htokens]
  exact (derives_phrase e h).disjunction_of_phrase

end Expr

/-! Trees that were read are well-formed. -/

/-- A phrase whose trees are well-formed and fit its place. -/
def Phrase.WellFormed : Phrase → Prop
  | .operand v => v.WellFormed
  | .arguments vs => ∀ v ∈ vs, v.WellFormed
  | .clause c => c.WellFormed
  | .primary e | .unary e => e.WellFormed ∧ e.isChain = false
  | .conjuncts es => es ≠ [] ∧ ∀ e ∈ es, e.WellFormed ∧ e.isChain = false
  | .conjunction e => e.WellFormed ∧ e.isOr = false
  | .disjuncts es => es ≠ [] ∧ ∀ e ∈ es, e.WellFormed ∧ e.isOr = false
  | .disjunction e => e.WellFormed

/-- Tokens that name no call with a dot in front. -/
def Undotted (ts : List Token) : Prop :=
  ∀ n, [.name n, .openParen] <:+: ts → n.toList.head? ≠ some '.'

/-- Tokens that call no free function with a dot in front. -/
def KeepsDots (ts : List Token) : Prop := ∀ n, [.name n, .openParen] <:+: ts → ¬ IsDotted n

theorem Undotted.keepsDots {ts : List Token} (h : Undotted ts) : KeepsDots ts := fun n hn => not_isDotted (h n hn)

/-- Tokens that a text can have and whose calls can be written again. -/
def Proper (ts : List Token) : Prop := (∀ t ∈ ts, t.Writable) ∧ KeepsDots ts

theorem Proper.part (before after : List Token) {ts : List Token} (h : Proper (before ++ ts ++ after)) :
    Proper ts :=
  ⟨fun t ht => h.1 t (by simp [ht]), fun n hn => h.2 n (hn.trans ⟨before, after, rfl⟩)⟩

theorem Proper.left {ts after : List Token} (h : Proper (ts ++ after)) : Proper ts := h.part [] after

theorem Proper.right (before : List Token) {ts : List Token} (h : Proper (before ++ ts)) : Proper ts :=
  Proper.part before [] (by simpa using h)

theorem Proper.call {n : String} {ts : List Token} (h : Proper (.name n :: .openParen :: ts))
    {args : List Operand} (hargs : ∀ v ∈ args, v.WellFormed) : (Reading.callOf n args).WellFormed := by
  have hname : IsName n.toList := h.1 (.name n) (by simp)
  have hdot := h.2 n ⟨[], ts, rfl⟩
  obtain ⟨target, method, hcall, _, heq⟩ := callOf_eq hname hdot
  rw [heq]
  exact ⟨hcall, hargs⟩

theorem Expr.allOf_wellFormed {es : List Expr} (hne : es ≠ [])
    (h : ∀ e ∈ es, e.WellFormed ∧ e.isChain = false) : (allOf es).WellFormed ∧ (allOf es).isOr = false := by
  match es, hne with
  | [e], _ =>
    obtain ⟨hwf, hchain⟩ := h e (by simp)
    exact ⟨hwf, isOr_of_isChain hchain⟩
  | x :: y :: xs, _ =>
    exact ⟨⟨by simp, fun e he => (h e he).2, allWellFormed_iff.2 fun e he => (h e he).1⟩, rfl⟩

theorem Expr.anyOf_wellFormed {es : List Expr} (hne : es ≠ [])
    (h : ∀ e ∈ es, e.WellFormed ∧ e.isOr = false) : (anyOf es).WellFormed := by
  match es, hne with
  | [e], _ => exact (h e (by simp)).1
  | x :: y :: xs, _ =>
    exact ⟨by simp, fun e he => (h e he).2, allWellFormed_iff.2 fun e he => (h e he).1⟩

theorem Derives.wellFormed {ts : List Token} {p : Phrase} (h : Derives ts p) (hts : Proper ts) : p.WellFormed := by
  induction h with
  | literal => trivial
  | @name s => exact hts.1 (.name s) (by simp)
  | argument _ ih => exact List.forall_mem_singleton.2 (ih hts)
  | @moreArguments ts us v vs _ _ ih more =>
    have hrest : Proper us := Proper.right (ts ++ [.comma]) (by simpa using hts)
    exact List.forall_mem_cons.2 ⟨ih hts.left, more hrest⟩
  | @comparison field op ts v _ ih =>
    exact ⟨hts.1 (.name field) (by simp), ih (hts.right [.name field, .compare op])⟩
  | emptyCall => exact hts.call (by simp)
  | @call n ts vs _ ih => exact hts.call (ih (hts.part [.name n, .openParen] [.closeParen]))
  | @term n => exact hts.1 (.name n) (by simp)
  | parentheses _ ih => exact ⟨ih (hts.part [.openParen] [.closeParen]), rfl⟩
  | clause _ ih => exact ⟨ih hts, rfl⟩
  | not _ ih =>
    have hinner := ih (hts.right [.not])
    exact ⟨⟨hinner.2, hinner.1⟩, rfl⟩
  | primary _ ih => exact ih hts
  | conjunct _ ih => exact ⟨by simp, List.forall_mem_singleton.2 (ih hts)⟩
  | @moreConjuncts ts us e es _ _ ih more =>
    have hrest : Proper us := Proper.right (ts ++ [.and]) (by simpa using hts)
    exact ⟨by simp, List.forall_mem_cons.2 ⟨ih hts.left, (more hrest).2⟩⟩
  | conjunction _ ih => exact Expr.allOf_wellFormed (ih hts).1 (ih hts).2
  | disjunct _ ih => exact ⟨by simp, List.forall_mem_singleton.2 (ih hts)⟩
  | @moreDisjuncts ts us e es _ _ ih more =>
    have hrest : Proper us := Proper.right (ts ++ [.or]) (by simpa using hts)
    exact ⟨by simp, List.forall_mem_cons.2 ⟨ih hts.left, (more hrest).2⟩⟩
  | disjunction _ ih => exact Expr.anyOf_wellFormed (ih hts).1 (ih hts).2

/-- What is read from a text is well-formed, unless it calls a name with a dot in front. -/
theorem wellFormed_of_parse? {text : String} {e : Expr} (h : Expr.parse? text = .ok e)
    (hu : ∀ ps, scan text = .ok ps → Undotted (ps.map Placed.token)) : e.WellFormed := by
  cases hscan : scan text with
  | error f => simp [Expr.parse?, hscan] at h
  | ok ps =>
    rw [parse?_of_scan hscan, Reading.run_iff_derives] at h
    refine h.wellFormed ⟨?_, (hu ps hscan).keepsDots⟩
    intro t ht
    obtain ⟨p, hp, rfl⟩ := List.mem_map.1 ht
    exact scanFrom_writable hscan p hp

end RecordSource.Filter
