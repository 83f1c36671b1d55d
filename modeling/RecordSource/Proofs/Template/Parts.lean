import Mathlib.Data.List.TakeWhile
import RecordSource.Template.Fill

/-!
The parts of a text with variables: characters that stand for themselves, and references. Filling a text replaces its
references one by one. What a reader of references sees of a text ends at the first character that no reference goes on
with, so a text may be cut into parts piece by piece wherever such a character stands.
-/
namespace RecordSource.Template

/-- A character that no reference goes on with after its `$`. -/
def isStop (c : Char) : Bool := !continuesName c && c != '\x7b' && c != '\x7d' && c != ':'

/-- What comes next, if anything does, is a character that no reference goes on with. -/
def Stops (cs : List Char) : Prop := ∀ c ∈ cs.head?, isStop c = true

theorem stops_nil : Stops [] := fun _ h => nomatch h

theorem stops_cons {c : Char} (h : isStop c = true) (cs : List Char) : Stops (c :: cs) := by
  intro d hd
  obtain rfl := Option.some.inj hd
  exact h

/-- Two texts that agree up to a stop, or up to the end. -/
inductive Alike : List Char → List Char → Prop
  | stop {xs ys : List Char} (hx : Stops xs) (hy : Stops ys) : Alike xs ys
  | cons {xs ys : List Char} (c : Char) (h : Alike xs ys) : Alike (c :: xs) (c :: ys)

namespace Alike

theorem append_stops (xs : List Char) {ys : List Char} (h : Stops ys) : Alike (xs ++ ys) xs := by
  induction xs with
  | nil => exact .stop h stops_nil
  | cons c xs ih => exact .cons c ih

variable {xs ys : List Char}

theorem head?_iff (h : Alike xs ys) {c : Char} (hc : isStop c = false) : xs.head? = some c ↔ ys.head? = some c := by
  cases h with
  | stop hx hy =>
    constructor
    · intro hhead
      rw [hx c hhead] at hc
      cases hc
    · intro hhead
      rw [hy c hhead] at hc
      cases hc
  | cons d h => rfl

variable {p : Char → Bool} (hp : ∀ c, p c = true → isStop c = false)
include hp

theorem takeWhile_of_stops (h : Stops xs) : xs.takeWhile p = [] ∧ xs.dropWhile p = xs := by
  cases xs with
  | nil => exact ⟨rfl, rfl⟩
  | cons c xs =>
    have hc : ¬p c = true := by
      intro htrue
      have hstop := h c rfl
      rw [hp c htrue] at hstop
      cases hstop
    exact ⟨List.takeWhile_cons_of_neg hc, List.dropWhile_cons_of_neg hc⟩

theorem takeWhile_eq (h : Alike xs ys) :
    xs.takeWhile p = ys.takeWhile p ∧ Alike (xs.dropWhile p) (ys.dropWhile p) := by
  induction h with
  | stop hx hy =>
    obtain ⟨hxt, hxd⟩ := takeWhile_of_stops hp hx
    obtain ⟨hyt, hyd⟩ := takeWhile_of_stops hp hy
    rw [hxt, hyt, hxd, hyd]
    exact ⟨rfl, .stop hx hy⟩
  | @cons xs ys c h ih =>
    cases hc : p c with
    | false => simpa [List.takeWhile_cons, List.dropWhile_cons, hc] using Alike.cons c h
    | true => simpa [List.takeWhile_cons, List.dropWhile_cons, hc] using ih

end Alike

namespace Reference

theorem isStop_of_continuesName {c : Char} (h : continuesName c = true) : isStop c = false := by
  rw [isStop, h]
  rfl

theorem ending?_colon (cs : List Char) : ending? (':' :: cs) =
    if cs.takeWhile continuesFormat ≠ [] ∧ (cs.dropWhile continuesFormat).head? = some '\x7d' then
      some (some (cs.takeWhile continuesFormat))
    else none := by
  simp only [ending?]
  split
  · next h => rw [if_neg (fun hboth => hboth.1 h)]
  · next h hne => rw [if_pos ⟨hne, by rw [h]; rfl⟩]
  · next hne h =>
    rw [if_neg]
    rintro ⟨_, hhead⟩
    obtain ⟨tail, htail⟩ := List.head?_eq_some_iff.1 hhead
    exact h tail htail

theorem ending?_of_ne {c : Char} (hbrace : c ≠ '\x7d') (hcolon : c ≠ ':') (cs : List Char) :
    ending? (c :: cs) = none := by
  unfold ending?
  split
  · next h => exact absurd (List.cons.inj h).1 hbrace
  · next h => exact absurd (List.cons.inj h).1 hcolon
  · rfl

theorem ending?_of_stops {cs : List Char} (h : Stops cs) : ending? cs = none := by
  cases cs with
  | nil => rfl
  | cons c cs =>
    have hc := h c rfl
    refine ending?_of_ne ?_ ?_ cs
    · rintro rfl
      exact absurd hc (by decide)
    · rintro rfl
      exact absurd hc (by decide)

theorem ending?_alike {xs ys : List Char} (h : Alike xs ys) : ending? xs = ending? ys := by
  cases h with
  | stop hx hy => rw [ending?_of_stops hx, ending?_of_stops hy]
  | @cons xs ys c h =>
    by_cases hbrace : c = '\x7d'
    · rw [hbrace]
      rfl
    · by_cases hcolon : c = ':'
      · obtain ⟨htaken, hrest⟩ := h.takeWhile_eq (p := continuesFormat) fun _ => isStop_of_continuesName
        have hclose : isStop '\x7d' = false := by decide
        simp only [hcolon, ending?_colon, htaken, hrest.head?_iff hclose]
      · rw [ending?_of_ne hbrace hcolon, ending?_of_ne hbrace hcolon]

theorem name?_cons (c : Char) (cs : List Char) : name? (c :: cs) =
    if startsName c then some (c :: cs.takeWhile continuesName, cs.dropWhile continuesName) else none := rfl

theorem continuesName_of_startsName {c : Char} (h : startsName c = true) : continuesName c = true := by
  simp only [startsName, Bool.or_eq_true] at h
  rcases h with halpha | hscore
  · simp [continuesName, Char.isAlphanum, halpha]
  · simp [continuesName, hscore]

theorem not_startsName {c : Char} (h : isStop c = true) : startsName c = false := by
  cases hstarts : startsName c with
  | false => rfl
  | true =>
    rw [isStop_of_continuesName (continuesName_of_startsName hstarts)] at h
    cases h

theorem name?_of_stops {cs : List Char} (h : Stops cs) : name? cs = none := by
  cases cs with
  | nil => rfl
  | cons c cs => rw [name?_cons, not_startsName (h c rfl), if_neg Bool.false_ne_true]

theorem name?_alike {xs ys : List Char} (h : Alike xs ys) :
    (name? xs = none ∧ name? ys = none) ∨
      ∃ name xs' ys', name? xs = some (name, xs') ∧ name? ys = some (name, ys') ∧ Alike xs' ys' := by
  cases h with
  | stop hx hy => exact .inl ⟨name?_of_stops hx, name?_of_stops hy⟩
  | @cons xs ys c h =>
    obtain ⟨htaken, hrest⟩ := h.takeWhile_eq (p := continuesName) fun _ => isStop_of_continuesName
    rw [name?_cons, name?_cons]
    split
    · rw [htaken]
      exact .inr ⟨_, _, _, rfl, rfl, hrest⟩
    · exact .inl ⟨rfl, rfl⟩

theorem braced?_alike {xs ys : List Char} (h : Alike xs ys) : braced? xs = braced? ys := by
  unfold braced?
  rcases name?_alike h with ⟨hx, hy⟩ | ⟨name, xs', ys', hx, hy, h'⟩
  · rw [hx, hy]
  · rw [hx, hy]
    simp only [Option.bind_eq_bind, Option.bind_some, ending?_alike h']

theorem read?_of_ne {c : Char} (h : c ≠ '\x7b') (cs : List Char) : read? (c :: cs) =
    (name? (c :: cs)).map fun (name, _) => ⟨String.ofList name, none, '$' :: name⟩ := by
  unfold read?
  split
  · next hcons => exact absurd (List.cons.inj hcons).1 h
  · rfl

theorem read?_of_stops {cs : List Char} (h : Stops cs) : read? cs = none := by
  cases cs with
  | nil => rfl
  | cons c cs =>
    have hc : c ≠ '\x7b' := by
      rintro rfl
      exact absurd (h _ rfl) (by decide)
    rw [read?_of_ne hc, name?_of_stops h]
    rfl

/-- Texts that agree up to a stop begin with the same reference, if any. -/
theorem read?_alike {xs ys : List Char} (h : Alike xs ys) : read? xs = read? ys := by
  cases h with
  | stop hx hy => rw [read?_of_stops hx, read?_of_stops hy]
  | @cons xs ys c h =>
    by_cases hc : c = '\x7b'
    · rw [hc]
      exact braced?_alike h
    · rw [read?_of_ne hc, read?_of_ne hc]
      rcases name?_alike (h.cons c) with ⟨hx, hy⟩ | ⟨name, xs', ys', hx, hy, _⟩
      · rw [hx, hy]
      · rw [hx, hy]
        rfl

/-! What a reference takes of a text. -/

theorem name?_tiles {cs name rest : List Char} (h : name? cs = some (name, rest)) :
    cs = name ++ rest ∧ ∀ c ∈ name, isStop c = false := by
  cases cs with
  | nil => cases h
  | cons c cs =>
    rw [name?_cons] at h
    split at h
    · next hc =>
      cases h
      refine ⟨by simp, ?_⟩
      intro d hd
      rcases List.mem_cons.1 hd with rfl | hd
      · cases hstop : isStop d with
        | false => rfl
        | true =>
          rw [not_startsName hstop] at hc
          cases hc
      · exact isStop_of_continuesName (List.mem_takeWhile_imp hd)
    · cases h

/-- How a format is written after the name. -/
def formatSpelling : Option (List Char) → List Char
  | none => []
  | some format => ':' :: format

theorem ending?_tiles {cs : List Char} {format : Option (List Char)} (h : ending? cs = some format) :
    ∃ rest, cs = formatSpelling format ++ '\x7d' :: rest ∧ ∀ c ∈ formatSpelling format, isStop c = false := by
  cases cs with
  | nil => cases h
  | cons c cs =>
    by_cases hbrace : c = '\x7d'
    · subst hbrace
      obtain rfl : none = format := Option.some.inj h
      exact ⟨cs, rfl, by simp [formatSpelling]⟩
    · by_cases hcolon : c = ':'
      · subst hcolon
        rw [ending?_colon] at h
        split at h
        · next hformat =>
          obtain rfl := Option.some.inj h
          obtain ⟨rest, hrest⟩ := List.head?_eq_some_iff.1 hformat.2
          refine ⟨rest, ?_, List.forall_mem_cons.2 ⟨by decide, ?_⟩⟩
          · rw [formatSpelling, List.cons_append, ← hrest, List.takeWhile_append_dropWhile]
          · intro d hd
            exact isStop_of_continuesName (List.mem_takeWhile_imp hd)
        · cases h
      · rw [ending?_of_ne hbrace hcolon] at h
        cases h

theorem braced?_tiles {cs : List Char} {r : Reference} (h : braced? cs = some r) :
    ∃ tail rest, r.spelling = '$' :: '\x7b' :: tail ∧ cs = tail ++ rest ∧ ∀ c ∈ tail, isStop c = false := by
  unfold braced? at h
  obtain ⟨⟨name, rest⟩, hname, h⟩ := Option.bind_eq_some_iff.1 h
  obtain ⟨format, hformat, h⟩ := Option.bind_eq_some_iff.1 h
  obtain rfl := Option.some.inj h
  obtain ⟨rfl, hstops⟩ := name?_tiles hname
  obtain ⟨rest, rfl, hformatStops⟩ := ending?_tiles hformat
  refine ⟨name ++ formatSpelling format ++ ['\x7d'], rest, ?_, by simp, ?_⟩
  · cases format <;> simp [formatSpelling]
  · intro c hc
    rcases List.mem_append.1 hc with hc | hc
    · exact (List.mem_append.1 hc).elim (hstops c) (hformatStops c)
    · rw [List.mem_singleton.1 hc]
      decide

/-- A reference is spelled without a character that ends it, and the text goes on after it. -/
theorem read?_tiles {cs : List Char} {r : Reference} (h : read? cs = some r) :
    ∃ tail rest, r.spelling = '$' :: tail ∧ cs = tail ++ rest ∧ ∀ c ∈ tail, isStop c = false := by
  cases cs with
  | nil => cases h
  | cons c cs =>
    by_cases hc : c = '\x7b'
    · subst hc
      obtain ⟨tail, rest, hspelling, rfl, hstops⟩ := braced?_tiles h
      exact ⟨'\x7b' :: tail, rest, hspelling, rfl, List.forall_mem_cons.2 ⟨by decide, hstops⟩⟩
    · rw [read?_of_ne hc] at h
      obtain ⟨⟨name, rest⟩, hname, rfl⟩ := Option.map_eq_some_iff.1 h
      obtain ⟨htile, hstops⟩ := name?_tiles hname
      exact ⟨name, rest, rfl, htile, hstops⟩

end Reference

/-- A part of a text with variables. -/
inductive Part where
  | char (c : Char)
  | reference (r : Reference)
  deriving DecidableEq, Repr

/-- Walks a text; the first argument counts the characters of a reference already read. -/
def partsFrom : Nat → List Char → List Part
  | _, [] => []
  | skip + 1, _ :: cs => partsFrom skip cs
  | 0, c :: cs =>
    if c = '$' then
      match Reference.read? cs with
      | some r => .reference r :: partsFrom (r.spelling.length - 1) cs
      | none => .char c :: partsFrom 0 cs
    else .char c :: partsFrom 0 cs

/-- The parts of a text. -/
def parts (cs : List Char) : List Part := partsFrom 0 cs

/-- The references of a text. -/
def references (cs : List Char) : List Reference := (parts cs).filterMap fun
  | .char _ => none
  | .reference r => some r

/-- What a part is filled with. -/
def Part.fill (s : Scope) (locals : Bindings) : Part → List Char
  | char c => [c]
  | reference r =>
    match s.lookup? locals r with
    | some text => text.toList
    | none => r.spelling

theorem fillFrom_eq (s : Scope) (locals : Bindings) (skip : Nat) (cs : List Char) :
    s.fillFrom locals skip cs = (partsFrom skip cs).flatMap (Part.fill s locals) := by
  induction cs generalizing skip with
  | nil => cases skip <;> rfl
  | cons c cs ih =>
    cases skip with
    | succ skip => exact ih skip
    | zero =>
      rw [Scope.fillFrom, partsFrom]
      by_cases hc : c = '$'
      · rw [if_pos hc, if_pos hc]
        cases Reference.read? cs with
        | none => exact congrArg _ (ih 0)
        | some r => exact congrArg _ (ih _)
      · rw [if_neg hc, if_neg hc]
        exact congrArg _ (ih 0)

theorem partsFrom_eq (skip : Nat) (cs : List Char) : partsFrom skip cs = parts (cs.drop skip) := by
  induction cs generalizing skip with
  | nil => cases skip <;> rfl
  | cons c cs ih =>
    cases skip with
    | zero => rfl
    | succ skip => exact ih skip

@[simp] theorem parts_nil : parts [] = [] := rfl

/-- A character stands for itself where no reference begins. -/
theorem parts_char {c : Char} {cs : List Char} (h : c = '$' → Reference.read? cs = none) :
    parts (c :: cs) = .char c :: parts cs := by
  rw [parts, partsFrom]
  split
  · next hc => rw [h hc]; rfl
  · rfl

theorem parts_reference {cs tail rest : List Char} {r : Reference} (h : Reference.read? cs = some r)
    (hspelling : r.spelling = '$' :: tail) (hcs : cs = tail ++ rest) :
    parts ('$' :: cs) = .reference r :: parts rest := by
  rw [parts, partsFrom, if_pos rfl, h]
  dsimp only
  rw [partsFrom_eq, hspelling, hcs]
  simp

/-- A text is read from its front: a character that stands for itself, or a reference with its whole spelling. -/
theorem parts_induction {motive : List Char → Prop} (nil : motive [])
    (char : ∀ c cs, (c = '$' → Reference.read? cs = none) → motive cs → motive (c :: cs))
    (reference : ∀ r tail rest, Reference.read? (tail ++ rest) = some r → r.spelling = '$' :: tail →
      (∀ c ∈ tail, isStop c = false) → motive rest → motive ('$' :: (tail ++ rest))) : ∀ cs, motive cs
  | [] => nil
  | c :: cs => by
    by_cases hc : c = '$'
    · cases hread : Reference.read? cs with
      | none => exact char c cs (fun _ => hread) (parts_induction nil char reference cs)
      | some r =>
        obtain ⟨tail, rest, hspelling, rfl, hstops⟩ := Reference.read?_tiles hread
        rw [hc]
        exact reference r tail rest hread hspelling hstops (parts_induction nil char reference rest)
    · exact char c cs (fun h => absurd h hc) (parts_induction nil char reference cs)
  termination_by cs => cs.length

/-- A text is cut into parts piece by piece before a character that no reference goes on with. -/
theorem parts_append (xs : List Char) {ys : List Char} (h : Stops ys) : parts (xs ++ ys) = parts xs ++ parts ys := by
  induction xs using parts_induction with
  | nil => rfl
  | char c xs hc ih =>
    have hread : Reference.read? (xs ++ ys) = Reference.read? xs := Reference.read?_alike (.append_stops xs h)
    rw [List.cons_append, parts_char (by rwa [hread]), parts_char hc, ih]
    rfl
  | reference r tail rest hr hspelling hstops ih =>
    have hread : Reference.read? (tail ++ rest ++ ys) = some r :=
      (Reference.read?_alike (.append_stops _ h)).trans hr
    rw [List.cons_append, parts_reference hread hspelling (List.append_assoc tail rest ys),
      parts_reference hr hspelling rfl, ih]
    rfl

/-- Without a `$` all characters stand for themselves. -/
theorem parts_of_plain {xs : List Char} (h : '$' ∉ xs) : parts xs = xs.map .char := by
  induction xs with
  | nil => rfl
  | cons c xs ih =>
    rw [List.mem_cons, not_or] at h
    rw [parts_char (fun hc => absurd hc.symm h.1), ih h.2]
    rfl

theorem parts_append_of_plain {xs : List Char} (h : '$' ∉ xs) (ys : List Char) :
    parts (xs ++ ys) = parts xs ++ parts ys := by
  induction xs with
  | nil => rfl
  | cons c xs ih =>
    rw [List.mem_cons, not_or] at h
    have hc : ∀ zs, parts (c :: zs) = .char c :: parts zs := fun _ => parts_char fun hc => absurd hc.symm h.1
    rw [List.cons_append, hc, hc, ih h.2]
    rfl

/-- A character that no reference goes on with, and that begins none, is the end of a piece. -/
theorem parts_append_of_last (xs : List Char) {c : Char} (hstop : isStop c = true) (hc : c ≠ '$') (ys : List Char) :
    parts ((xs ++ [c]) ++ ys) = parts (xs ++ [c]) ++ parts ys := by
  have hcut : ∀ zs, parts (xs ++ c :: zs) = parts xs ++ .char c :: parts zs := by
    intro zs
    rw [parts_append xs (stops_cons hstop zs), parts_char fun h => absurd h hc]
  rw [List.append_assoc, List.singleton_append, hcut, hcut, parts_nil, List.append_assoc]
  rfl

/-- How a part is written. -/
def Part.spelling : Part → List Char
  | char c => [c]
  | reference r => r.spelling

/-- The parts of a text make it up again. -/
theorem flatMap_spelling_parts (cs : List Char) : (parts cs).flatMap Part.spelling = cs := by
  induction cs using parts_induction with
  | nil => rfl
  | char c cs hc ih =>
    rw [parts_char hc, List.flatMap_cons, ih]
    rfl
  | reference r tail rest hr hspelling _ ih =>
    rw [parts_reference hr hspelling rfl, List.flatMap_cons, ih, Part.spelling, hspelling]
    rfl

/-! References and fillings, by the parts of a text. -/

theorem references_of_parts {cs xs ys : List Char} (h : parts cs = parts xs ++ parts ys) :
    references cs = references xs ++ references ys := by
  rw [references, references, references, h, List.filterMap_append]

theorem references_char {c : Char} {cs : List Char} (h : c = '$' → Reference.read? cs = none) :
    references (c :: cs) = references cs := by
  rw [references, parts_char h]
  rfl

theorem references_reference {cs tail rest : List Char} {r : Reference} (h : Reference.read? cs = some r)
    (hspelling : r.spelling = '$' :: tail) (hcs : cs = tail ++ rest) :
    references ('$' :: cs) = r :: references rest := by
  rw [references, parts_reference h hspelling hcs]
  rfl

section
variable (s : Scope) (locals : Bindings)

theorem fillFrom_zero (cs : List Char) : s.fillFrom locals 0 cs = (parts cs).flatMap (Part.fill s locals) :=
  fillFrom_eq s locals 0 cs

theorem fillFrom_of_parts {cs xs ys : List Char} (h : parts cs = parts xs ++ parts ys) :
    s.fillFrom locals 0 cs = s.fillFrom locals 0 xs ++ s.fillFrom locals 0 ys := by
  rw [fillFrom_zero, fillFrom_zero, fillFrom_zero, h, List.flatMap_append]

theorem fillFrom_char {c : Char} {cs : List Char} (h : c = '$' → Reference.read? cs = none) :
    s.fillFrom locals 0 (c :: cs) = c :: s.fillFrom locals 0 cs := by
  rw [fillFrom_zero, parts_char h, fillFrom_zero]
  rfl

theorem fillFrom_reference {cs tail rest : List Char} {r : Reference} (h : Reference.read? cs = some r)
    (hspelling : r.spelling = '$' :: tail) (hcs : cs = tail ++ rest) :
    s.fillFrom locals 0 ('$' :: cs) = (Part.reference r).fill s locals ++ s.fillFrom locals 0 rest := by
  rw [fillFrom_zero, parts_reference h hspelling hcs, fillFrom_zero]
  rfl

/-- A text without references is left as it is. -/
theorem fillFrom_of_references {cs : List Char} (h : references cs = []) : s.fillFrom locals 0 cs = cs := by
  have hfill : ∀ p ∈ parts cs, p.fill s locals = p.spelling := by
    intro p hp
    cases p with
    | char c => rfl
    | reference r =>
      have hr : r ∈ references cs := List.mem_filterMap.2 ⟨_, hp, rfl⟩
      rw [h] at hr
      cases hr
  rw [fillFrom_zero, List.flatMap_def, List.map_congr_left hfill, ← List.flatMap_def, flatMap_spelling_parts]

end

theorem references_of_plain {cs : List Char} (h : '$' ∉ cs) : references cs = [] := by
  rw [references, parts_of_plain h, List.filterMap_map]
  exact List.filterMap_eq_nil_iff.2 fun _ _ => rfl

end RecordSource.Template
