import Mathlib.Data.List.Flatten
import RecordSource.Keyed
import RecordSource.Proofs.Field.Now
import RecordSource.Proofs.Filter.Quoted
import RecordSource.Proofs.Filter.Written
import RecordSource.Proofs.Template.Parts

/-!
Filling variables inside quoted literals. As long as no value brings a quote or a backslash, the filled text reads as
the tree of the text itself with its quoted texts filled; nothing else in the tree changes.
-/
namespace RecordSource.Filter
open Template (references parts isStop Reference Scope Bindings)

/-- Nothing that would end a literal or begin an escape. -/
def IsInert (cs : List Char) : Prop := ∀ c ∈ cs, c ≠ '"' ∧ c ≠ '\\'

instance : DecidablePred IsInert := List.decidableBAll fun c => c ≠ '"' ∧ c ≠ '\\'

theorem isInert_of_forall {p : Char → Bool} {cs : List Char} (hquote : p '"' = false) (hbackslash : p '\\' = false)
    (h : ∀ c ∈ cs, p c = true) : IsInert cs := by
  intro c hc
  have hp := h c hc
  constructor
  · rintro rfl
    exact absurd hp (by simp [hquote])
  · rintro rfl
    exact absurd hp (by simp [hbackslash])

/-- The name of a reference and its braces hold no stop, so neither a quote nor a backslash. -/
theorem isInert_of_unstopped {tail : List Char} (h : ∀ c ∈ tail, isStop c = false) : IsInert tail :=
  isInert_of_forall (p := fun c => !isStop c) (by decide) (by decide) fun c hc => by simp [h c hc]

/-! What a literal holds, and what is written for it. -/

theorem Token.unescape?_stops {e d : Char} (h : unescape? e = some d) :
    e ≠ '$' ∧ d ≠ '$' ∧ isStop d = true := by
  unfold unescape? at h
  split at h <;> cases h <;> decide

namespace Decodes
variable {body text : List Char}

theorem alike (h : Decodes body text) : Template.Alike body text := by
  induction h with
  | nil => exact .stop Template.stops_nil Template.stops_nil
  | char _ _ _ ih => exact .cons _ ih
  | escape he _ _ =>
    exact .stop (Template.stops_cons (by decide) _) (Template.stops_cons (Token.unescape?_stops he).2.2 _)

/-- Text without quotes and backslashes may stand before any other. -/
theorem append {w : List Char} (hw : IsInert w) (h : Decodes body text) : Decodes (w ++ body) (w ++ text) := by
  induction w with
  | nil => exact h
  | cons c w ih =>
    obtain ⟨⟨hquote, hbackslash⟩, hrest⟩ := List.forall_mem_cons.1 hw
    exact .char hquote hbackslash (ih hrest)

/-- Where the text goes on with characters that no escape stands for, the same ones are written. -/
theorem split {w : List Char} (hw : ∀ c ∈ w, c = '$' ∨ isStop c = false) (h : Decodes body (w ++ text)) :
    ∃ rest, body = w ++ rest ∧ Decodes rest text := by
  induction w generalizing body with
  | nil => exact ⟨body, rfl, h⟩
  | cons c w ih =>
    rw [List.forall_mem_cons] at hw
    cases h with
    | char _ _ h =>
      obtain ⟨rest, rfl, hrest⟩ := ih hw.2 h
      exact ⟨rest, rfl, hrest⟩
    | escape he h =>
      obtain ⟨_, hdollar, hstop⟩ := Token.unescape?_stops he
      rcases hw.1 with hc | hc
      · exact absurd hc hdollar
      · rw [hstop] at hc
        cases hc

end Decodes

/-- The references written in a literal are those of its text, and filled both ways the one still stands for the
other. -/
theorem Decodes.fill {body text : List Char} (h : Decodes body text) :
    references body = references text ∧
    ∀ (s : Scope) (locals : Bindings), (∀ r ∈ references text, IsInert (Template.Part.fill s locals (.reference r))) →
      Decodes (s.fillFrom locals 0 body) (s.fillFrom locals 0 text) := by
  induction text using Template.parts_induction generalizing body with
  | nil =>
    cases h
    exact ⟨rfl, fun _ _ _ => .nil⟩
  | char c text hc ih =>
    cases h with
    | @char _ body _ hquote hbackslash h =>
      have hbody : c = '$' → Reference.read? body = none := by
        intro hdollar
        rw [Reference.read?_alike h.alike, hc hdollar]
      obtain ⟨hrefs, hfill⟩ := ih h
      rw [Template.references_char hbody, Template.references_char hc]
      refine ⟨hrefs, ?_⟩
      intro s locals hvalues
      rw [Template.fillFrom_char s locals hbody, Template.fillFrom_char s locals hc]
      exact .char hquote hbackslash (hfill s locals hvalues)
    | @escape e _ body _ he h =>
      obtain ⟨hdollar, _, _⟩ := Token.unescape?_stops he
      have hbackslash : '\\' = '$' → Reference.read? (e :: body) = none := fun h => absurd h (by decide)
      have hescaped : e = '$' → Reference.read? body = none := fun h => absurd h hdollar
      obtain ⟨hrefs, hfill⟩ := ih h
      rw [Template.references_char hbackslash, Template.references_char hescaped, Template.references_char hc]
      refine ⟨hrefs, ?_⟩
      intro s locals hvalues
      rw [Template.fillFrom_char s locals hbackslash, Template.fillFrom_char s locals hescaped,
        Template.fillFrom_char s locals hc]
      exact .escape he (hfill s locals hvalues)
  | reference r tail rest hr hspelling hstops ih =>
    have htail : IsInert tail := isInert_of_unstopped hstops
    have hwhole : ∀ c ∈ '$' :: tail, c = '$' ∨ isStop c = false :=
      List.forall_mem_cons.2 ⟨.inl rfl, fun c hc => .inr (hstops c hc)⟩
    obtain ⟨left, rfl, hleft⟩ := Decodes.split hwhole h
    have hread : Reference.read? (tail ++ left) = some r :=
      (Reference.read?_alike (hleft.append htail).alike).trans hr
    obtain ⟨hrefs, hfill⟩ := ih hleft
    rw [List.cons_append, Template.references_reference hread hspelling rfl,
      Template.references_reference hr hspelling rfl, hrefs]
    refine ⟨rfl, ?_⟩
    intro s locals hvalues
    rw [List.forall_mem_cons] at hvalues
    rw [Template.fillFrom_reference s locals hread hspelling rfl,
      Template.fillFrom_reference s locals hr hspelling rfl]
    exact (hfill s locals hvalues.2).append hvalues.1

/-- A name holds the references written in it, and a literal those of its text. -/
def Token.references : Token → List Reference
  | literal text | name text => Template.references text.toList
  | _ => []

theorem Token.references_of_other {t : Token} (hother : ∀ text, t ≠ .literal text)
    (hname : ∀ n, t = .name n → Template.references n.toList = []) : t.references = [] := by
  cases t with
  | literal text => exact absurd rfl (hother text)
  | name n => exact hname n rfl
  | _ => rfl

/-- A written text begins with a blank or with a token. -/
theorem Written.head {ts : List Token} {c : Char} {cs : List Char} (h : Written ts (c :: cs)) :
    Text.isBlank c = true ∨ ∃ l, Lexeme.read? 0 c cs = .ok l := by
  generalize hds : c :: cs = ds at h
  cases h with
  | nil => cases hds
  | blank hc _ =>
    cases hds
    exact .inl hc
  | token hs hw he _ =>
    obtain ⟨d, es, hes, _, hread⟩ := Lexeme.read?_of_spelled hs hw he 0
    rw [hes] at hds
    cases hds
    exact .inr ⟨_, hread⟩

/-- No token begins with a brace or a colon, so what comes after a name ends its references. -/
theorem Written.stops {ts : List Token} {cs : List Char} (h : Written ts cs) (hname : Lexeme.Stops cs) :
    Template.Stops cs := by
  intro c hc
  obtain ⟨ds, rfl⟩ := List.head?_eq_some_iff.1 hc
  obtain ⟨hplain, _⟩ := hname c rfl
  have hcontinues : Template.continuesName c = false := by
    simp only [Token.isNameChar, Bool.or_eq_false_iff] at hplain
    simp [Template.continuesName, hplain]
  have hother : c ≠ '\x7b' ∧ c ≠ '\x7d' ∧ c ≠ ':' := by
    refine ⟨?_, ?_, ?_⟩ <;> rintro rfl <;> obtain hblank | ⟨l, hread⟩ := h.head
    all_goals first
      | exact absurd hblank (by decide)
      | cases hread
  simp [isStop, hcontinues, hother]

/-- A written text falls into parts token by token. -/
theorem parts_spelled {t : Token} {w cs : List Char} {ts : List Token} (hs : t.Spelled w) (he : t.EndsBefore cs)
    (h : Written ts cs) : parts (w ++ cs) = parts w ++ parts cs := by
  cases hs with
  | @literal body _ _ =>
    have hquote : isStop '"' = true := by decide
    exact Template.parts_append_of_last ('"' :: body) hquote (by decide) cs
  | only hother =>
    cases t with
    | literal text => exact absurd rfl (hother text)
    | name text => exact Template.parts_append _ (h.stops he)
    | compare op => exact Template.parts_append_of_plain (by cases op <;> decide) cs
    | _ => exact Template.parts_append_of_plain (by decide) cs

theorem parts_quoted (body : List Char) : parts ('"' :: (body ++ ['"'])) = parts ['"'] ++ parts (body ++ ['"']) ∧
    parts (body ++ ['"']) = parts body ++ parts ['"'] := by
  have hplain : '$' ∉ ['"'] := by decide
  exact ⟨Template.parts_append_of_plain hplain _, Template.parts_append body (Template.stops_cons (by decide) [])⟩

theorem references_spelled {t : Token} {w : List Char} (hs : t.Spelled w) : references w = t.references := by
  cases hs with
  | @literal body text h =>
    obtain ⟨hopen, hclose⟩ := parts_quoted body
    have hquote : references ['"'] = [] := Template.references_of_plain (by decide)
    rw [Template.references_of_parts hopen, Template.references_of_parts hclose, hquote, List.nil_append,
      List.append_nil, h.fill.1]
    rfl
  | only hother =>
    cases t with
    | literal text => exact absurd rfl (hother text)
    | name text => rfl
    | compare op => exact Template.references_of_plain (by cases op <;> decide)
    | _ => exact Template.references_of_plain (by decide)

theorem not_dollar_of_blank {c : Char} {cs : List Char} (hc : Text.isBlank c = true) :
    c = '$' → Reference.read? cs = none := by
  rintro rfl
  exact absurd hc (by decide)

/-- The references of a written text are those of its names and literals. -/
theorem Written.references_eq {ts : List Token} {cs : List Char} (h : Written ts cs) :
    references cs = ts.flatMap Token.references := by
  induction h with
  | nil => rfl
  | blank hc _ ih => rw [Template.references_char (not_dollar_of_blank hc), ih]
  | token hs _ he h ih =>
    rw [Template.references_of_parts (parts_spelled hs he h), references_spelled hs, ih, List.flatMap_cons]

/-- What a token ends before is told by the next character. -/
theorem Token.EndsBefore.of_head {t : Token} {cs ds : List Char} (h : t.EndsBefore cs) (hhead : ds.head? = cs.head?) :
    t.EndsBefore ds := by
  cases t with
  | name text => simpa only [EndsBefore, Lexeme.Stops, hhead] using h
  | not => simpa only [EndsBefore, hhead] using h
  | compare op =>
    cases op with
    | eq | lt | gt => simpa only [EndsBefore, hhead] using h
    | _ => trivial
  | _ => trivial

theorem Token.writable_mapLiteral {t : Token} (h : t.Writable) (f : String → String) : (t.mapLiteral f).Writable := by
  cases t with
  | literal text => trivial
  | _ => exact h

theorem Token.endsBefore_mapLiteral {t : Token} {cs : List Char} (h : t.EndsBefore cs) (f : String → String) :
    (t.mapLiteral f).EndsBefore cs := by
  cases t with
  | literal text => trivial
  | _ => exact h

section
variable (s : Scope) (locals : Bindings)

/-- What is not a literal is left as it is. -/
theorem Token.fillFrom_spell {t : Token} (hother : ∀ text, t ≠ .literal text)
    (hname : ∀ n, t = .name n → Template.references n.toList = []) : s.fillFrom locals 0 t.spell = t.spell := by
  refine Template.fillFrom_of_references s locals ?_
  rw [references_spelled (.only hother)]
  exact references_of_other hother hname

theorem fillFrom_quoted (body : List Char) :
    s.fillFrom locals 0 ('"' :: (body ++ ['"'])) = '"' :: (s.fillFrom locals 0 body ++ ['"']) := by
  obtain ⟨hopen, hclose⟩ := parts_quoted body
  have hquote : s.fillFrom locals 0 ['"'] = ['"'] :=
    Template.fillFrom_of_references s locals (Template.references_of_plain (by decide))
  rw [Template.fillFrom_of_parts s locals hopen, Template.fillFrom_of_parts s locals hclose, hquote]
  rfl

theorem Token.Spelled.head?_fillFrom {t : Token} {w : List Char} (hs : t.Spelled w)
    (hname : ∀ n, t = .name n → Template.references n.toList = []) :
    (s.fillFrom locals 0 w).head? = w.head? := by
  cases hs with
  | literal _ => rw [fillFrom_quoted]; rfl
  | only hother => rw [fillFrom_spell s locals hother hname]

/-- A token, its spelling filled, is spelled like the token with its text filled. -/
theorem Token.Spelled.fill {t : Token} {w : List Char} (hs : t.Spelled w)
    (hname : ∀ n, t = .name n → Template.references n.toList = [])
    (hvalues : ∀ r ∈ t.references, IsInert (Template.Part.fill s locals (.reference r))) :
    (t.mapLiteral (s.fill locals)).Spelled (s.fillFrom locals 0 w) := by
  cases hs with
  | @literal body text h =>
    rw [fillFrom_quoted]
    refine .literal ?_
    rw [Scope.fill, String.toList_ofList]
    exact h.fill.2 s locals hvalues
  | only hother =>
    have hsame : t.mapLiteral (s.fill locals) = t := by
      cases t with
      | literal text => exact absurd rfl (hother text)
      | _ => rfl
    rw [hsame, fillFrom_spell s locals hother hname]
    exact .only hother

variable {ts : List Token} {cs : List Char} (hnames : ∀ n, .name n ∈ ts → references n.toList = [])
include hnames

theorem Written.head?_fillFrom (h : Written ts cs) : (s.fillFrom locals 0 cs).head? = cs.head? := by
  induction h with
  | nil => rfl
  | blank hc _ => rw [Template.fillFrom_char s locals (not_dollar_of_blank hc)]; rfl
  | token hs _ he h ih =>
    have hhead := hs.head?_fillFrom s locals fun n hn => hnames n (hn ▸ List.mem_cons_self)
    rw [Template.fillFrom_of_parts s locals (parts_spelled hs he h), List.head?_append, List.head?_append, hhead,
      ih fun n hn => hnames n (List.mem_cons_of_mem _ hn)]

theorem Written.fill (h : Written ts cs)
    (hvalues : ∀ r ∈ ts.flatMap Token.references, IsInert (Template.Part.fill s locals (.reference r))) :
    Written (ts.map (Token.mapLiteral (s.fill locals))) (s.fillFrom locals 0 cs) := by
  induction h with
  | nil => exact .nil
  | blank hc _ ih =>
    rw [Template.fillFrom_char s locals (not_dollar_of_blank hc)]
    exact .blank hc (ih hnames hvalues)
  | @token t w ts cs hs hw he h ih =>
    rw [List.flatMap_cons, List.forall_mem_append] at hvalues
    have hrest : ∀ n, .name n ∈ ts → references n.toList = [] := fun n hn => hnames n (List.mem_cons_of_mem _ hn)
    have hspelled := hs.fill s locals (fun n hn => hnames n (hn ▸ List.mem_cons_self)) hvalues.1
    have hends : t.EndsBefore (s.fillFrom locals 0 cs) := he.of_head (h.head?_fillFrom s locals hrest)
    rw [Template.fillFrom_of_parts s locals (parts_spelled hs he h)]
    exact .token hspelled (Token.writable_mapLiteral hw _) (Token.endsBefore_mapLiteral hends _)
      (ih hrest hvalues.2)

end

/-! What references are filled with. -/

theorem isInert_stamp (millis : Nat) : IsInert (Time.stamp millis).toList := by
  rw [Time.stamp, String.toList_ofList]
  exact isInert_of_forall (by decide) (by decide) (Time.stampText_chars _)

theorem isInert_toString (millis : Nat) : IsInert (toString millis).toList := by
  refine isInert_of_forall (p := Char.isDigit) (by decide) (by decide) fun c hc => ?_
  have hdigits : c ∈ Nat.toDigits 10 millis := by simpa using hc
  exact Nat.isDigit_of_mem_toDigits (by decide) (by decide) hdigits

theorem isInert_instantText? {millis : Nat} {format : Option String} {text : String}
    (h : Scope.instantText? millis format = some text) : IsInert text.toList := by
  unfold Scope.instantText? at h
  split at h
  · rw [← Option.some.inj h]
    exact isInert_toString millis
  · rw [← Option.some.inj (Option.ite_none_right_eq_some.1 h).2]
    exact isInert_stamp millis

/-- The ends of a range bring neither. -/
theorem isInert_bound? {s : Scope} {r : Reference} {text : String} (h : s.bound? r = some text) :
    IsInert text.toList := by
  unfold Scope.bound? at h
  obtain ⟨range, _, h⟩ := Option.bind_eq_some_iff.1 h
  split at h
  · exact isInert_instantText? h
  · split at h
    · exact isInert_instantText? h
    · cases h

theorem isInert_of_mem_references {cs : List Char} {r : Reference} (h : r ∈ references cs) : IsInert r.spelling := by
  induction cs using Template.parts_induction with
  | nil => cases h
  | char c cs hc ih =>
    rw [Template.references_char hc] at h
    exact ih h
  | reference r' tail rest hr hspelling hstops ih =>
    rw [Template.references_reference hr hspelling rfl, List.mem_cons] at h
    rcases h with rfl | h
    · rw [hspelling]
      exact List.forall_mem_cons.2 ⟨by decide, isInert_of_unstopped hstops⟩
    · exact ih h

/-- The variables that a text refers to, the ends of a range apart, have values without quotes and backslashes, if
any. -/
def FillsInertly (s : Scope) (locals : Bindings) (text : String) : Prop :=
  ∀ r ∈ references text.toList, s.bound? r = none →
    ∀ v ∈ (locals.lookup r.name).or (s.globals.lookup r.name), IsInert v.text.toList

/-- It is enough that no variable at all has such a value. -/
theorem fillsInertly_of_bindings {s : Scope} {locals : Bindings}
    (h : ∀ b ∈ locals ++ s.globals, IsInert b.2.text.toList) (text : String) : FillsInertly s locals text := by
  intro r _ _ v hv
  rcases Option.or_eq_some_iff.1 hv with hlocal | ⟨_, hglobal⟩
  · exact h _ (List.mem_append_left _ (Keyed.mem_of_lookup hlocal))
  · exact h _ (List.mem_append_right _ (Keyed.mem_of_lookup hglobal))

theorem fillsInertly_iff {s : Scope} {locals : Bindings} {text : String} : FillsInertly s locals text ↔
    ∀ r ∈ references text.toList, IsInert (Template.Part.fill s locals (.reference r)) := by
  refine forall₂_congr fun r hr => ?_
  rw [Template.Part.fill, Scope.lookup?]
  cases hbound : s.bound? r with
  | some filled => simp [isInert_bound? hbound]
  | none =>
    cases (locals.lookup r.name).or (s.globals.lookup r.name) with
    | none => simp [isInert_of_mem_references hr]
    | some v => simp

/-- The references that a token holds in a literal. -/
def Token.quotedReferences : Token → List Reference
  | literal text => Template.references text.toList
  | _ => []

theorem Token.quotedReferences_sublist (t : Token) : t.quotedReferences.Sublist t.references := by
  cases t with
  | literal text => exact List.Sublist.refl _
  | _ => exact List.nil_sublist _

/-- All references of a text stand in its literals. -/
def QuotedOnly (text : String) : Prop :=
  ∀ ts, tokens? text = .ok ts → ∀ t ∈ ts, t.references = t.quotedReferences

theorem quotedReferences_flatMap_iff (ts : List Token) :
    (∀ t ∈ ts, t.references = t.quotedReferences) ↔
      ts.flatMap Token.references = ts.flatMap Token.quotedReferences := by
  induction ts with
  | nil => simp
  | cons t ts ih =>
    rw [List.forall_mem_cons, ih, List.flatMap_cons, List.flatMap_cons]
    constructor
    · rintro ⟨ht, hts⟩
      rw [ht, hts]
    · intro h
      have htail : (ts.flatMap Token.quotedReferences).length ≤ (ts.flatMap Token.references).length :=
        (List.Sublist.flatMap_right ts fun t _ => t.quotedReferences_sublist).length_le
      have hhead := t.quotedReferences_sublist.length_le
      have hlength := congrArg List.length h
      rw [List.length_append, List.length_append] at hlength
      exact List.append_inj h (by omega)

/-- Then what a text refers to is what its literals refer to. -/
theorem quotedOnly_iff {text : String} {ts : List Token} (h : tokens? text = .ok ts) :
    QuotedOnly text ↔ references text.toList = ts.flatMap Token.quotedReferences := by
  rw [(tokens?_eq_ok_iff.1 h).references_eq, ← quotedReferences_flatMap_iff]
  constructor
  · intro hquoted
    exact hquoted ts h
  · intro hrefs us hus
    obtain rfl : ts = us := Except.ok.inj (h.symm.trans hus)
    exact hrefs

/-- As long as no value brings a quote or a backslash, a filter whose variables all stand in literals is read, filled,
as the tree it is read as before, with the quoted texts filled. -/
theorem Expr.parse?_fill {text : String} {e : Expr} (h : Expr.parse? text = .ok e) (hquoted : QuotedOnly text)
    (s : Scope) (locals : Bindings) (hvalues : FillsInertly s locals text) :
    Expr.parse? (s.fill locals text) = .ok (e.mapQuoted (s.fill locals)) := by
  obtain ⟨ts, hts, hderives⟩ := parse?_eq_ok_iff.1 h
  have hwritten := tokens?_eq_ok_iff.1 hts
  have hinert := fillsInertly_iff.1 hvalues
  rw [hwritten.references_eq] at hinert
  have hfilled := hwritten.fill s locals (fun n hn => hquoted ts hts _ hn) hinert
  refine parse?_eq_ok_iff.2 ⟨ts.map (Token.mapLiteral (s.fill locals)), tokens?_eq_ok_iff.2 ?_, ?_⟩
  · rw [Scope.fill, String.toList_ofList]
    exact hfilled
  · exact hderives.mapQuoted (s.fill locals)

theorem Expr.parse?_fill_escapes_and_formats :
    let text := "name = \"a\\\"$v\" && !(state.Contains(\"${w:raw}\", \"${__from:iso}|$none\"))"
    let s : Scope := { globals := [("v", .one "x' && y"), ("w", .many ["p", "q"])], range := some ⟨0, 1⟩ }
    Expr.parse? (s.fill [] text) = .ok (.and [
      .clause (.compare "name" .eq (.quoted "a\"x' && y")),
      .not (.group (.clause (.call "state" "Contains"
        [.quoted "\x7bp,q\x7d", .quoted "1970-01-01T00:00:00.000Z|$none"])))]) := by
  intro text s
  let e : Expr := .and [
    .clause (.compare "name" .eq (.quoted "a\"$v")),
    .not (.group (.clause (.call "state" "Contains"
      [.quoted "$\x7bw:raw\x7d", .quoted "$\x7b__from:iso\x7d|$none"])))]
  have hparse : Expr.parse? text = .ok e := Outcome.toOption_eq_some_iff.1 (by decide +kernel)
  have htokens : tokens? text = .ok e.tokens := Outcome.toOption_eq_some_iff.1 (by decide +kernel)
  have hquoted : QuotedOnly text := (quotedOnly_iff htokens).2 (by decide +kernel)
  have hvalues : FillsInertly s [] text := fillsInertly_of_bindings (by decide +kernel) text
  rw [Expr.parse?_fill hparse hquoted s [] hvalues]
  decide +kernel

/-- A value with a quote ends its literal: the filter is malformed, or has another clause. -/
theorem Expr.parse?_fill_loose_quote :
    let text := "f = \"$v\""
    let ends : Scope := { globals := [("v", .one "\"")] }
    let adds : Scope := { globals := [("v", .one "x\" || g = \"y")] }
    Expr.parse? text = .ok (.clause (.compare "f" .eq (.quoted "$v"))) ∧ QuotedOnly text ∧
    (∀ e, Expr.parse? (ends.fill [] text) ≠ .ok e) ∧
    Expr.parse? (adds.fill [] text) = .ok (.or [
      .clause (.compare "f" .eq (.quoted "x")), .clause (.compare "g" .eq (.quoted "y"))]) := by
  intro text ends adds
  have htokens : tokens? text = .ok [.name "f", .compare .eq, .literal "$v"] :=
    Outcome.toOption_eq_some_iff.1 (by decide +kernel)
  refine ⟨Outcome.toOption_eq_some_iff.1 (by decide +kernel), (quotedOnly_iff htokens).2 (by decide +kernel), ?_,
    Outcome.toOption_eq_some_iff.1 (by decide +kernel)⟩
  intro e h
  have hnone : (Expr.parse? (ends.fill [] text)).toOption = none := by decide +kernel
  rw [h] at hnone
  cases hnone

end RecordSource.Filter
