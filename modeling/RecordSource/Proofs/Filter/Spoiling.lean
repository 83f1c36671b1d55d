import RecordSource.Proofs.Filter.Filling

/-!
Values that spoil a filter. In a filter written without escapes, one value with a quote or a backslash is enough: what
the filled text is read as, if anything, is not the tree with its quoted texts filled.
-/
namespace RecordSource.Filter
open Template (references Scope Bindings)

theorem Token.eq_backslash_of_unescape? {e : Char} (h : unescape? e = some '\\') : e = '\\' := by
  unfold unescape? at h
  split at h <;> first | rfl | exact absurd h (by decide)

namespace Decodes
variable {body text rest rest' : List Char}

/-- A literal behind its text by some backslashes never catches up: each one that is due costs it two, and where the
text ends its own quote is still due. -/
theorem ne_of_behind (h : Decodes body text) (n : Nat) :
    List.replicate (n + 1) '\\' ++ (body ++ '"' :: rest) ≠ text ++ '"' :: rest' := by
  induction h generalizing n with
  | nil =>
    intro heq
    exact absurd (List.cons.inj heq).1 (by decide)
  | char _ hbackslash _ _ =>
    intro heq
    exact hbackslash (List.cons.inj heq).1.symm
  | @escape e d body text he _ ih =>
    intro heq
    obtain ⟨rfl, htail⟩ := List.cons.inj heq
    obtain rfl := Token.eq_backslash_of_unescape? he
    refine ih (n + 1) (Eq.trans ?_ htail)
    rw [List.replicate_succ', List.replicate_succ']
    simp

/-- What is read in a literal is what is written there only without quotes and backslashes. -/
theorem inert_of_same (h : Decodes body text) (heq : body ++ '"' :: rest = text ++ '"' :: rest') :
    IsInert text ∧ rest = rest' := by
  induction h with
  | nil => exact ⟨List.forall_mem_nil _, (List.cons.inj heq).2⟩
  | char hquote hbackslash _ ih =>
    obtain ⟨hinert, hrest⟩ := ih (List.cons.inj heq).2
    exact ⟨List.forall_mem_cons.2 ⟨⟨hquote, hbackslash⟩, hinert⟩, hrest⟩
  | @escape e d body text he h _ =>
    obtain ⟨rfl, htail⟩ := List.cons.inj heq
    obtain rfl := Token.eq_backslash_of_unescape? he
    exact absurd htail (h.ne_of_behind 0)

/-- Without escapes a literal reads as it is written. -/
theorem eq_of_no_backslash (h : Decodes body text) (hplain : '\\' ∉ body) : body = text := by
  induction h with
  | nil => rfl
  | char _ _ _ ih => rw [ih (List.not_mem_of_not_mem_cons hplain)]
  | escape _ _ _ => exact absurd List.mem_cons_self hplain

end Decodes

/-- The text of a literal. -/
def Token.quoted? : Token → Option String
  | literal text => some text
  | _ => none

theorem filterMap_quoted?_mapLiteral (f : String → String) (ts : List Token) :
    (ts.map (Token.mapLiteral f)).filterMap Token.quoted? = (ts.filterMap Token.quoted?).map f := by
  induction ts with
  | nil => rfl
  | cons t ts ih =>
    cases t with
    | literal text => exact congrArg (f text :: ·) ih
    | _ => exact ih

/-- How calls are written does not touch literals. -/
theorem filterMap_quoted?_asWritten (ts : List Token) :
    (asWritten ts).filterMap Token.quoted? = ts.filterMap Token.quoted? := by
  fun_induction asWritten ts with
  | case1 n ts ih => exact ih
  | case2 t ts _ ih => rw [List.filterMap_cons, List.filterMap_cons, ih]
  | case3 => rfl

section
variable (s : Scope) (locals : Bindings)

/-- A filled text is inert only if everything that was filled in is. -/
theorem isInert_of_fillFrom {cs : List Char} (h : IsInert (s.fillFrom locals 0 cs)) :
    ∀ r ∈ references cs, IsInert (Template.Part.fill s locals (.reference r)) := by
  intro r hr c hc
  obtain ⟨p, hp, hpr⟩ := List.mem_filterMap.1 hr
  have hpart : p = .reference r := by
    cases p with
    | char _ => cases hpr
    | reference _ => exact congrArg _ (Option.some.inj hpr)
  refine h c ?_
  rw [Template.fillFrom_zero]
  exact List.mem_flatMap.2 ⟨p, hp, hpart ▸ hc⟩

/-- The literals of a filled text are the filled literals only if all that was filled in is inert. -/
theorem Written.isInert_of_filled {ts us : List Token} {cs : List Char} (h : Written ts cs) (hplain : '\\' ∉ cs)
    (hnames : ∀ n, .name n ∈ ts → references n.toList = []) (hfilled : Written us (s.fillFrom locals 0 cs))
    (htexts : us.filterMap Token.quoted? = (ts.filterMap Token.quoted?).map (s.fill locals)) :
    ∀ r ∈ ts.flatMap Token.references, IsInert (Template.Part.fill s locals (.reference r)) := by
  induction h generalizing us with
  | nil => exact fun _ hr => nomatch hr
  | blank hc _ ih =>
    rw [Template.fillFrom_char s locals (not_dollar_of_blank hc)] at hfilled
    exact ih (List.not_mem_of_not_mem_cons hplain) hnames (hfilled.of_blank hc) htexts
  | @token t w ts cs hs hw he h ih =>
    rw [List.mem_append, not_or] at hplain
    have hname : ∀ n, t = .name n → references n.toList = [] := fun n hn => hnames n (hn ▸ List.mem_cons_self)
    have hrest : ∀ n, .name n ∈ ts → references n.toList = [] := fun n hn => hnames n (List.mem_cons_of_mem _ hn)
    rw [Template.fillFrom_of_parts s locals (parts_spelled hs he h)] at hfilled
    rw [List.flatMap_cons, List.forall_mem_append]
    cases hs with
    | @literal body text hbody =>
      have hbodyPlain : '\\' ∉ body := fun hmem => hplain.1 (List.mem_cons_of_mem _ (List.mem_append_left _ hmem))
      obtain rfl := hbody.eq_of_no_backslash hbodyPlain
      rw [fillFrom_quoted, List.cons_append, List.append_assoc] at hfilled
      obtain ⟨filled, vs, read, rest, rfl, hcut, hread, hrestFilled⟩ := hfilled.of_quote
      obtain ⟨hfill, hrestTexts⟩ := List.cons.inj htexts
      rw [hfill, Scope.fill, String.toList_ofList] at hread
      obtain ⟨hinert, rfl⟩ := hread.inert_of_same hcut.symm
      exact ⟨isInert_of_fillFrom s locals hinert, ih hplain.2 hrest hrestFilled hrestTexts⟩
    | only hother =>
      rw [Token.fillFrom_spell s locals hother hname] at hfilled
      have hends : t.EndsBefore (s.fillFrom locals 0 cs) := he.of_head (h.head?_fillFrom s locals hrest)
      obtain ⟨vs, rfl, hrestFilled⟩ := hfilled.of_spelled (.only hother) hw hends
      have hrestTexts : vs.filterMap Token.quoted? = (ts.filterMap Token.quoted?).map (s.fill locals) := by
        cases t with
        | literal text => exact absurd rfl (hother text)
        | _ => exact htexts
      rw [Token.references_of_other hother hname]
      exact ⟨List.forall_mem_nil _, ih hplain.2 hrest hrestFilled hrestTexts⟩

end

/-- A filter written without escapes, its variables all in literals, is read, filled, as the tree it is read as before
with the quoted texts filled, exactly as long as no value brings a quote or a backslash. -/
theorem Expr.parse?_fill_iff {text : String} {e : Expr} (h : Expr.parse? text = .ok e) (hquoted : QuotedOnly text)
    (hplain : '\\' ∉ text.toList) (s : Scope) (locals : Bindings) :
    Expr.parse? (s.fill locals text) = .ok (e.mapQuoted (s.fill locals)) ↔ FillsInertly s locals text := by
  obtain ⟨ts, hts, hderives⟩ := parse?_eq_ok_iff.1 h
  have hwritten := tokens?_eq_ok_iff.1 hts
  have hnames : ∀ n, .name n ∈ ts → references n.toList = [] := fun n hn => hquoted ts hts _ hn
  rw [fillsInertly_iff, hwritten.references_eq, parse?_eq_ok_iff]
  have hmapped : Derives (ts.map (Token.mapLiteral (s.fill locals))) (.disjunction (e.mapQuoted (s.fill locals))) :=
    hderives.mapQuoted (s.fill locals)
  constructor
  · rintro ⟨us, hus, hfilled⟩
    have hsame := congrArg (List.filterMap Token.quoted?) (hfilled.tokens_eq.symm.trans hmapped.tokens_eq)
    rw [filterMap_quoted?_asWritten, filterMap_quoted?_asWritten, filterMap_quoted?_mapLiteral] at hsame
    rw [tokens?_eq_ok_iff, Scope.fill, String.toList_ofList] at hus
    exact hwritten.isInert_of_filled s locals hplain hnames hus hsame
  · intro hinert
    refine ⟨_, tokens?_eq_ok_iff.2 ?_, hmapped⟩
    rw [Scope.fill, String.toList_ofList]
    exact hwritten.fill s locals hnames hinert

end RecordSource.Filter
