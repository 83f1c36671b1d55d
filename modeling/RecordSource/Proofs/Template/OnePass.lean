import Mathlib.Data.List.Basic
import RecordSource.Proofs.Template.Pattern

/-!
Filling as one pass over a text. At each `$` a reference in braces is taken if one fits there, else the longest one
without; what is put for it comes from the range, a local or a global binding, or is the reference itself, and is not
looked at again. So what a text is filled to is made of its own parts, and depends on nothing but what its references
name.
-/
namespace RecordSource.Template

namespace Reference

/-- A letter or an underscore, and then letters, digits and underscores. -/
def IsName (cs : List Char) : Prop :=
  ∃ c rest, cs = c :: rest ∧ startsName c = true ∧ ∀ d ∈ rest, continuesName d = true

def IsFormat (cs : List Char) : Prop := cs ≠ [] ∧ ∀ d ∈ cs, continuesFormat d = true

inductive InBraces : Reference → Prop
  | name {name : List Char} (h : IsName name) :
    InBraces ⟨String.ofList name, none, '$' :: '\x7b' :: (name ++ ['\x7d'])⟩
  | formatted {name format : List Char} (h : IsName name) (hformat : IsFormat format) :
    InBraces ⟨String.ofList name, some (String.ofList format),
      '$' :: '\x7b' :: (name ++ ':' :: (format ++ ['\x7d']))⟩

inductive IsBare : Reference → Prop
  | name {name : List Char} (h : IsName name) : IsBare ⟨String.ofList name, none, '$' :: name⟩

/-- The reference at the front of a text: one in braces if one fits there, else the longest one without. -/
structure TakenAt (r : Reference) (cs : List Char) : Prop where
  fits : r.spelling <+: cs
  preferred : r.InBraces ∨ r.IsBare ∧ (∀ b : Reference, b.InBraces → ¬b.spelling <+: cs) ∧
    ∀ b : Reference, b.IsBare → b.spelling <+: cs → b.spelling.length ≤ r.spelling.length

/-! What is read is what is taken. -/

theorem IsName.continues {name : List Char} (h : IsName name) : ∀ c ∈ name, continuesName c = true := by
  obtain ⟨c, rest, rfl, hc, hrest⟩ := h
  exact List.forall_mem_cons.2 ⟨continuesName_of_startsName hc, hrest⟩

theorem name?_eq_some_iff {cs name rest : List Char} :
    name? cs = some (name, rest) ↔
      IsName name ∧ name = cs.takeWhile continuesName ∧ rest = cs.dropWhile continuesName := by
  cases cs with
  | nil =>
    constructor
    · intro h
      cases h
    · rintro ⟨⟨_, _, rfl, _⟩, hname, _⟩
      cases hname
  | cons c cs =>
    rw [name?_cons]
    constructor
    · intro h
      split at h
      · next hc =>
        have hcontinues := continuesName_of_startsName hc
        cases h
        exact ⟨⟨c, _, rfl, hc, fun d hd => List.mem_takeWhile_imp hd⟩, by simp [hcontinues], by simp [hcontinues]⟩
      · cases h
    · rintro ⟨⟨d, more, rfl, hd, _⟩, hname, rfl⟩
      have hcontinues : continuesName c = true := by
        by_contra hc
        rw [List.takeWhile_cons_of_neg hc] at hname
        cases hname
      rw [List.takeWhile_cons_of_pos hcontinues, List.cons.injEq] at hname
      obtain ⟨rfl, rfl⟩ := hname
      rw [if_pos hd, List.dropWhile_cons_of_pos hcontinues]

theorem IsName.name?_append {name : List Char} (h : IsName name) {c : Char} (hc : continuesName c = false)
    (rest : List Char) : name? (name ++ c :: rest) = some (name, c :: rest) := by
  rw [name?_eq_some_iff, List.takeWhile_append_of_pos h.continues, List.dropWhile_append_of_pos h.continues]
  exact ⟨h, by simp [hc], by simp [hc]⟩

theorem IsFormat.ending?_append {format : List Char} (h : IsFormat format) (rest : List Char) :
    ending? (':' :: (format ++ '\x7d' :: rest)) = some (some format) := by
  have hclose : continuesFormat '\x7d' = false := by decide
  rw [ending?_colon, List.takeWhile_append_of_pos h.2, List.dropWhile_append_of_pos h.2]
  simp [hclose, h.1]

theorem isFormat_of_ending? {cs format : List Char} (h : ending? cs = some (some format)) : IsFormat format := by
  cases cs with
  | nil => cases h
  | cons c cs =>
    by_cases hclose : c = '\x7d'
    · subst hclose
      cases h
    · by_cases hcolon : c = ':'
      · subst hcolon
        rw [ending?_colon] at h
        split at h
        · next hboth =>
          cases h
          exact ⟨hboth.1, fun d hd => List.mem_takeWhile_imp hd⟩
        · cases h
      · rw [ending?_of_ne hclose hcolon] at h
        cases h

/-- A reference in braces is read exactly where one fits. -/
theorem braced?_eq_some_iff {cs : List Char} {r : Reference} :
    braced? cs = some r ↔ r.InBraces ∧ r.spelling <+: '$' :: '\x7b' :: cs := by
  constructor
  · intro h
    obtain ⟨tail, rest, hspelling, hcs, _⟩ := braced?_tiles h
    refine ⟨?_, ?_⟩
    · obtain ⟨⟨name, behind⟩, hname, h⟩ := Option.bind_eq_some_iff.1 h
      obtain ⟨format, hformat, h⟩ := Option.bind_eq_some_iff.1 h
      obtain rfl := Option.some.inj h
      have hname := (name?_eq_some_iff.1 hname).1
      cases format with
      | none => exact .name hname
      | some format => simpa using InBraces.formatted hname (isFormat_of_ending? hformat)
    · rw [hspelling, hcs]
      exact ⟨rest, by simp⟩
  · rintro ⟨hbraces, rest, hrest⟩
    cases hbraces with
    | @name name hname =>
      obtain rfl : name ++ '\x7d' :: rest = cs := by simpa using hrest
      simp [braced?, hname.name?_append (by decide : continuesName '\x7d' = false), ending?]
    | @formatted name format hname hformat =>
      obtain rfl : name ++ ':' :: (format ++ '\x7d' :: rest) = cs := by simpa using hrest
      simp [braced?, hname.name?_append (by decide : continuesName ':' = false), hformat.ending?_append]

theorem prefix_of_isName {name cs : List Char} (h : IsName name) (hfront : name <+: cs) :
    name <+: cs.takeWhile continuesName := by
  obtain ⟨rest, rfl⟩ := hfront
  rw [List.takeWhile_append_of_pos h.continues]
  exact List.prefix_append name _

/-- The longest run of such characters that a name begins is a name. -/
theorem IsName.takeWhile {name cs : List Char} (h : IsName name) (hfront : name <+: cs.takeWhile continuesName) :
    IsName (cs.takeWhile continuesName) := by
  obtain ⟨c, rest, rfl, hc, _⟩ := h
  obtain ⟨more, hmore⟩ := hfront
  refine ⟨c, rest ++ more, hmore.symm, hc, ?_⟩
  intro d hd
  refine List.mem_takeWhile_imp (l := cs) ?_
  rw [← hmore]
  exact List.mem_cons_of_mem c hd

/-- The reference that is read after a `$` is the one that is taken there. -/
theorem read?_eq_some_iff {cs : List Char} {r : Reference} : read? cs = some r ↔ r.TakenAt ('$' :: cs) := by
  by_cases hopen : ∃ cs', cs = '\x7b' :: cs'
  · obtain ⟨cs', rfl⟩ := hopen
    refine braced?_eq_some_iff.trans ⟨fun h => ⟨h.2, .inl h.1⟩, fun h => ⟨?_, h.fits⟩⟩
    rcases h.preferred with hbraces | ⟨⟨_, _, rfl, hc, _⟩, _⟩
    · exact hbraces
    · -- No name begins with a brace.
      obtain ⟨_, hfits⟩ := h.fits
      simp only [List.cons_append, List.cons.injEq] at hfits
      rw [hfits.2.1] at hc
      cases hc
  · have hnone : ∀ b : Reference, b.InBraces → ¬b.spelling <+: '$' :: cs := by
      rintro _ hb ⟨rest, hrest⟩
      cases hb <;> exact hopen ⟨_, (List.cons.inj hrest).2.symm⟩
    have hread : read? cs = (name? cs).map fun found => ⟨String.ofList found.1, none, '$' :: found.1⟩ := by
      cases cs with
      | nil => rfl
      | cons c cs => exact read?_of_ne (fun hc => hopen ⟨cs, by rw [hc]⟩) cs
    rw [hread]
    constructor
    · intro h
      obtain ⟨⟨name, rest⟩, hname, rfl⟩ := Option.map_eq_some_iff.1 h
      obtain ⟨hisName, rfl, _⟩ := name?_eq_some_iff.1 hname
      refine ⟨List.cons_prefix_cons.2 ⟨rfl, List.takeWhile_prefix _⟩, .inr ⟨.name hisName, hnone, ?_⟩⟩
      rintro _ ⟨hb⟩ hfits
      have hfront := prefix_of_isName hb (List.cons_prefix_cons.1 hfits).2
      exact Nat.succ_le_succ hfront.length_le
    · intro h
      rcases h.preferred with hbraces | ⟨hbare, _, hlongest⟩
      · exact absurd h.fits (hnone r hbraces)
      · cases hbare with
        | @name name hname =>
          have hfits := prefix_of_isName hname (List.cons_prefix_cons.1 h.fits).2
          have hlength := hlongest _ (.name (hname.takeWhile hfits))
            (List.cons_prefix_cons.2 ⟨rfl, List.takeWhile_prefix _⟩)
          have hsame : name = cs.takeWhile continuesName :=
            hfits.eq_of_length_le (Nat.le_of_succ_le_succ hlength)
          have hfound : name? cs = some (name, cs.dropWhile continuesName) :=
            name?_eq_some_iff.2 ⟨hname, hsame, rfl⟩
          rw [hfound]
          rfl

theorem TakenAt.spelling_eq {r : Reference} {cs : List Char} (h : r.TakenAt cs) : ∃ tail, r.spelling = '$' :: tail := by
  rcases h.preferred with hbraces | ⟨hbare, _⟩
  · cases hbraces <;> exact ⟨_, rfl⟩
  · cases hbare
    exact ⟨_, rfl⟩

theorem TakenAt.head {r : Reference} {c : Char} {cs : List Char} (h : r.TakenAt (c :: cs)) : c = '$' := by
  obtain ⟨tail, htail⟩ := h.spelling_eq
  have hfits := h.fits
  rw [htail] at hfits
  exact (List.cons_prefix_cons.1 hfits).1.symm

end Reference

namespace Scope

/-- The instant of the range that a name stands for. -/
inductive Names (s : Scope) : String → Nat → Prop
  | start {range : Range} (h : s.range = some range) : Names s "__from" range.start
  | stop {range : Range} (h : s.range = some range) : Names s "__to" range.stop

/-- The text of an instant of the range: milliseconds without a format, else a timestamp. -/
inductive Bounds (s : Scope) (r : Reference) : String → Prop
  | millis {n : Nat} (h : s.Names r.name n) (hformat : r.format = none) : Bounds s r (toString n)
  | stamp {n : Nat} (h : s.Names r.name n) (hformat : r.format = some "date" ∨ r.format = some "iso") :
    Bounds s r (Time.stamp n)

/-- What is put for a reference: an end of the range, else the local binding, else the global one, else the reference as
it is written. -/
inductive Puts (s : Scope) (locals : Bindings) (r : Reference) : List Char → Prop
  | bound {text : String} (h : s.Bounds r text) : Puts s locals r text.toList
  | ofLocal {v : Value} (h : ∀ text, ¬s.Bounds r text) (hlocal : locals.lookup r.name = some v) :
    Puts s locals r v.text.toList
  | ofGlobal {v : Value} (h : ∀ text, ¬s.Bounds r text) (hlocal : locals.lookup r.name = none)
    (hglobal : s.globals.lookup r.name = some v) : Puts s locals r v.text.toList
  | kept (h : ∀ text, ¬s.Bounds r text) (hlocal : locals.lookup r.name = none)
    (hglobal : s.globals.lookup r.name = none) : Puts s locals r r.spelling

/-- One pass from left to right: a reference that is taken is put in one piece, every other character is copied. -/
inductive Scans (s : Scope) (locals : Bindings) : List Char → List Char → Prop
  | done : Scans s locals [] []
  | reference {r : Reference} {rest text out : List Char} (htaken : r.TakenAt (r.spelling ++ rest))
    (hputs : s.Puts locals r text) (h : Scans s locals rest out) :
    Scans s locals (r.spelling ++ rest) (text ++ out)
  | copy {c : Char} {cs out : List Char} (hnone : ∀ r : Reference, ¬r.TakenAt (c :: cs)) (h : Scans s locals cs out) :
    Scans s locals (c :: cs) (c :: out)

variable {s : Scope} {locals : Bindings} {r : Reference}

theorem instantText?_eq_some_iff {n : Nat} {format : Option String} {text : String} :
    instantText? n format = some text ↔ format = none ∧ toString n = text ∨
      (format = some "date" ∨ format = some "iso") ∧ Time.stamp n = text := by
  cases format with
  | none => simp [instantText?]
  | some format => by_cases h : format = "date" ∨ format = "iso" <;> simp [instantText?, h]

theorem bound?_eq_some_iff {text : String} : s.bound? r = some text ↔ s.Bounds r text := by
  have hnames : s.bound? r = some text ↔ ∃ n, s.Names r.name n ∧ instantText? n r.format = some text := by
    unfold bound?
    cases hrange : s.range with
    | none =>
      constructor
      · intro h
        cases h
      · rintro ⟨n, hn, _⟩
        generalize r.name = name at hn
        cases hn with
        | start h | stop h => cases hrange.symm.trans h
    | some range =>
      simp only [Option.bind_eq_bind, Option.bind_some]
      constructor
      · intro h
        split at h
        · next hname => exact ⟨_, hname ▸ .start hrange, h⟩
        · split at h
          · next hname => exact ⟨_, hname ▸ .stop hrange, h⟩
          · cases h
      · rintro ⟨n, hn, htext⟩
        generalize r.name = name at hn
        cases hn with
        | start h =>
          obtain rfl := Option.some.inj (hrange.symm.trans h)
          exact htext
        | stop h =>
          obtain rfl := Option.some.inj (hrange.symm.trans h)
          exact htext
  rw [hnames]
  constructor
  · rintro ⟨n, hn, htext⟩
    rcases instantText?_eq_some_iff.1 htext with ⟨hformat, rfl⟩ | ⟨hformat, rfl⟩
    · exact .millis hn hformat
    · exact .stamp hn hformat
  · intro h
    cases h with
    | millis hn hformat => exact ⟨_, hn, instantText?_eq_some_iff.2 (.inl ⟨hformat, rfl⟩)⟩
    | stamp hn hformat => exact ⟨_, hn, instantText?_eq_some_iff.2 (.inr ⟨hformat, rfl⟩)⟩

theorem fill_reference (s : Scope) (locals : Bindings) (r : Reference) : (Part.reference r).fill s locals =
    match s.bound? r, (locals.lookup r.name).or (s.globals.lookup r.name) with
    | some text, _ => text.toList
    | none, some v => v.text.toList
    | none, none => r.spelling := by
  rw [Part.fill, lookup?]
  cases s.bound? r with
  | some text => rfl
  | none => cases (locals.lookup r.name).or (s.globals.lookup r.name) <;> rfl

/-- A reference is filled with what is put for it. -/
theorem puts_iff {text : List Char} : s.Puts locals r text ↔ text = (Part.reference r).fill s locals := by
  have hunbound : s.bound? r = none ↔ ∀ text, ¬s.Bounds r text := by
    simp only [← bound?_eq_some_iff, Option.eq_none_iff_forall_ne_some]
  rw [fill_reference]
  constructor
  · intro h
    cases h with
    | bound h => rw [bound?_eq_some_iff.2 h]
    | ofLocal h hlocal => rw [hunbound.2 h, hlocal, Option.some_or]
    | ofGlobal h hlocal hglobal => rw [hunbound.2 h, hlocal, hglobal, Option.none_or]
    | kept h hlocal hglobal => rw [hunbound.2 h, hlocal, hglobal, Option.none_or]
  · rintro rfl
    cases hbound : s.bound? r with
    | some text => exact .bound (bound?_eq_some_iff.1 hbound)
    | none =>
      cases hlocal : locals.lookup r.name with
      | some v => exact .ofLocal (hunbound.1 hbound) hlocal
      | none =>
        cases hglobal : s.globals.lookup r.name with
        | some v => exact .ofGlobal (hunbound.1 hbound) hlocal hglobal
        | none => exact .kept (hunbound.1 hbound) hlocal hglobal

/-- A text is filled exactly to what one pass over it makes of it. -/
theorem scans_iff {cs out : List Char} : Scans s locals cs out ↔ s.fillFrom locals 0 cs = out := by
  constructor
  · intro h
    induction h with
    | done => rfl
    | @reference r rest text out htaken hputs _ ih =>
      obtain ⟨tail, htail⟩ := htaken.spelling_eq
      rw [htail, List.cons_append] at htaken
      have hread := Reference.read?_eq_some_iff.2 htaken
      rw [htail, List.cons_append, fillFrom_reference s locals hread htail rfl, ← puts_iff.1 hputs, ih]
    | @copy c cs out hnone _ ih =>
      rw [fillFrom_char, ih]
      rintro rfl
      rw [Option.eq_none_iff_forall_ne_some]
      exact fun r hr => hnone r (Reference.read?_eq_some_iff.1 hr)
  · rintro rfl
    induction cs using parts_induction with
    | nil => exact .done
    | char c cs hc ih =>
      rw [fillFrom_char s locals hc]
      refine .copy ?_ ih
      intro r htaken
      obtain rfl := htaken.head
      rw [← Reference.read?_eq_some_iff, hc rfl] at htaken
      cases htaken
    | reference r tail rest hr hspelling _ ih =>
      have htaken := Reference.read?_eq_some_iff.1 hr
      rw [← List.cons_append, ← hspelling] at htaken
      rw [fillFrom_reference s locals hr hspelling rfl, ← List.cons_append, ← hspelling]
      exact .reference htaken (puts_iff.2 rfl) ih

/-- What is put for a reference depends on the bindings of its name, and on the range if it is named. -/
theorem fill_reference_congr {s' : Scope} {locals' : Bindings} (hlocal : locals.lookup r.name = locals'.lookup r.name)
    (hglobal : s.globals.lookup r.name = s'.globals.lookup r.name)
    (hrange : r.name = "__from" ∨ r.name = "__to" → s.range = s'.range) :
    (Part.reference r).fill s locals = (Part.reference r).fill s' locals' := by
  have hbound : s.bound? r = s'.bound? r := by
    unfold bound?
    by_cases hname : r.name = "__from" ∨ r.name = "__to"
    · rw [hrange hname]
    · rw [not_or] at hname
      cases s.range <;> cases s'.range <;> simp [hname]
  rw [fill_reference, fill_reference, hbound, hlocal, hglobal]

end Scope

theorem mem_references_iff {cs : List Char} {r : Reference} : r ∈ references cs ↔ .reference r ∈ parts cs := by
  rw [references, List.mem_filterMap]
  constructor
  · rintro ⟨p, hp, hr⟩
    cases p with
    | char => cases hr
    | reference r' =>
      cases hr
      exact hp
  · intro h
    exact ⟨_, h, rfl⟩

/-- Filling is one pass from left to right. It replaces all that the pattern of references matches, and comes exactly to
what the scan makes of the text. The parts of the text make it up, and what it is filled to is made of the same parts: a
character stays, and for a reference stands what is put for it, in one piece. Two fillings are the same if the names
that occur in references are bound alike, and the ends of the range are the same if they are named. -/
theorem fill_one_pass (text : String) :
    (∀ s locals, (s.fill locals text).toList =
        Reference.pattern.replaceAll (fun w => (Part.reference w.reference).fill s locals) text.toList ∧
      ∀ out, s.fill locals text = out ↔ s.Scans locals text.toList out.toList) ∧
    ((parts text.toList).flatMap Part.spelling = text.toList ∧
      ∀ s locals, (s.fill locals text).toList = (parts text.toList).flatMap (Part.fill s locals)) ∧
    ∀ (s : Scope) (locals : Bindings) (s' : Scope) (locals' : Bindings),
      (∀ r ∈ references text.toList, locals.lookup r.name = locals'.lookup r.name ∧
        s.globals.lookup r.name = s'.globals.lookup r.name ∧
        (r.name = "__from" ∨ r.name = "__to" → s.range = s'.range)) →
      s.fill locals text = s'.fill locals' text := by
  have hparts : ∀ (s : Scope) (locals : Bindings),
      (s.fill locals text).toList = (parts text.toList).flatMap (Part.fill s locals) := by
    intro s locals
    rw [Scope.fill, String.toList_ofList, fillFrom_zero]
  refine ⟨?_, ⟨flatMap_spelling_parts text.toList, hparts⟩, ?_⟩
  · intro s locals
    refine ⟨?_, ?_⟩
    · rw [Scope.fill, String.toList_ofList, fillFrom_eq_replaceFrom]
      rfl
    · intro out
      rw [Scope.scans_iff, ← String.toList_inj, Scope.fill, String.toList_ofList]
  · intro s locals s' locals' h
    rw [← String.toList_inj, hparts, hparts]
    refine List.flatMap_congr ?_
    intro p hp
    cases p with
    | char c => rfl
    | reference r =>
      obtain ⟨hlocal, hglobal, hrange⟩ := h r (mem_references_iff.2 hp)
      exact Scope.fill_reference_congr hlocal hglobal hrange

/-- Values that look like references, one reference without a value, one that is not closed, and a `$` before another;
what else is bound makes no difference. -/
theorem fill_one_pass_values_like_references :
    let text := "$a \x7bx\x7d $$b$\x7b__now:date\x7d$\x7b__to\x7d$\x7bb:csv"
    let out := "$\x7bb\x7d \x7bx\x7d $\x7b$a,y\x7d$\x7b__now:date\x7d7$\x7bb:csv"
    let locals : Bindings := [("a", .one "$\x7bb\x7d")]
    let s : Scope := { globals := [("b", .many ["$a", "y"])], range := some ⟨0, 7⟩ }
    let s' : Scope := { s with globals := [("x", .one "z"), ("b", .many ["$a", "y"]), ("csv", .one "z")] }
    (∀ r ∈ references text.toList, locals.lookup r.name = locals.lookup r.name ∧
      s.globals.lookup r.name = s'.globals.lookup r.name ∧
      (r.name = "__from" ∨ r.name = "__to" → s.range = s'.range)) ∧
    s.Scans locals text.toList out.toList ∧ s'.fill locals text = out := by
  intro text out locals s s'
  obtain ⟨hpass, _, hsame⟩ := fill_one_pass text
  have hout : s.fill locals text = out := by decide +kernel
  have halike : ∀ r ∈ references text.toList, locals.lookup r.name = locals.lookup r.name ∧
      s.globals.lookup r.name = s'.globals.lookup r.name ∧
      (r.name = "__from" ∨ r.name = "__to" → s.range = s'.range) := by decide +kernel
  exact ⟨halike, ((hpass s locals).2 out).1 hout, (hsame s locals s' locals halike).symm.trans hout⟩

end RecordSource.Template
