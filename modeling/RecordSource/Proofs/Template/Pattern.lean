import RecordSource.Proofs.Template.Parts

/-!
References as a pattern. A pattern matches the front of a text in several ways, of which the first counts: alternatives
are tried in order, and a repetition takes as many characters as it can before it takes fewer. What a pattern of
references matches first, with its groups, is the reference that is read.
-/
namespace RecordSource.Template

inductive Pattern where
  | one (p : Char → Bool)
  | many (p : Char → Bool)
  | seq (a b : Pattern)
  | alt (a b : Pattern)
  | opt (a : Pattern)
  /-- Remembers under a number what it matches. -/
  | group (n : Nat) (a : Pattern)

/-- One way to match: what is taken, what the groups hold of it, and the text behind it. -/
structure Way where
  taken : List Char
  groups : List (Nat × List Char) := []
  rest : List Char
  deriving DecidableEq, Repr

namespace Way

/-- A way to go on from the text behind another. -/
def followed (w v : Way) : Way := ⟨w.taken ++ v.taken, w.groups ++ v.groups, v.rest⟩

def push (c : Char) (w : Way) : Way := { w with taken := c :: w.taken }

/-- Remembers what is taken. -/
def remember (n : Nat) (w : Way) : Way := { w with groups := (n, w.taken) :: w.groups }

/-- The reference that the groups tell of: the name is in one of two, the format in another. -/
def reference (w : Way) : Reference where
  name := String.ofList (((w.groups.lookup 1).or (w.groups.lookup 3)).getD [])
  format := (w.groups.lookup 2).map String.ofList
  spelling := w.taken

end Way

namespace Pattern

/-- The runs of such characters at the front of a text, the longest first and the empty one last. -/
def runs (p : Char → Bool) : List Char → List Way
  | [] => [⟨[], [], []⟩]
  | c :: cs => (if p c then (runs p cs).map (Way.push c) else []) ++ [⟨[], [], c :: cs⟩]

/-- The ways to match the front of a text, in the order in which they are tried. -/
def ways : Pattern → List Char → List Way
  | one _, [] => []
  | one p, c :: cs => if p c then [⟨[c], [], cs⟩] else []
  | many p, cs => runs p cs
  | seq a b, cs => (ways a cs).flatMap fun w => (ways b w.rest).map w.followed
  | alt a b, cs => ways a cs ++ ways b cs
  | opt a, cs => ways a cs ++ [⟨[], [], cs⟩]
  | group n a, cs => (ways a cs).map (Way.remember n)

def first? (a : Pattern) (cs : List Char) : Option Way := (ways a cs).head?

/-- Walks a text and puts something for all that matches; the first argument counts the characters of a match already
replaced. -/
def replaceFrom (a : Pattern) (put : Way → List Char) : Nat → List Char → List Char
  | _, [] => []
  | skip + 1, _ :: cs => replaceFrom a put skip cs
  | 0, c :: cs =>
    match a.first? (c :: cs) with
    | some w => put w ++ replaceFrom a put (w.taken.length - 1) cs
    | none => c :: replaceFrom a put 0 cs

/-- Puts something for all that a pattern matches in a text, from left to right. -/
def replaceAll (a : Pattern) (put : Way → List Char) (cs : List Char) : List Char := replaceFrom a put 0 cs

def char (c : Char) : Pattern := one (· == c)

@[simp] theorem ways_char_cons (c : Char) (cs : List Char) : (char c).ways (c :: cs) = [⟨[c], [], cs⟩] := by
  simp [char, ways]

theorem ways_char_of_ne {c d : Char} (h : d ≠ c) (cs : List Char) : (char c).ways (d :: cs) = [] := by
  simp [char, ways, h]

theorem runs_eq (p : Char → Bool) (cs : List Char) :
    ∃ shorter, runs p cs = ⟨cs.takeWhile p, [], cs.dropWhile p⟩ :: shorter ∧
      ∀ w ∈ shorter, ∃ c rest, w.rest = c :: rest ∧ p c = true := by
  induction cs with
  | nil => exact ⟨[], rfl, List.forall_mem_nil _⟩
  | cons c cs ih =>
    obtain ⟨shorter, hruns, hshorter⟩ := ih
    cases hc : p c with
    | false => exact ⟨[], by simp [runs, hc], List.forall_mem_nil _⟩
    | true =>
      refine ⟨shorter.map (Way.push c) ++ [⟨[], [], c :: cs⟩], by simp [runs, hc, hruns, Way.push], ?_⟩
      rw [List.forall_mem_append, List.forall_mem_map, List.forall_mem_singleton]
      exact ⟨hshorter, c, cs, rfl, hc⟩

/-- If nothing comes of a run that could be longer, all comes of the longest. -/
theorem flatMap_runs {β : Type} {p : Char → Bool} {k : Way → List β}
    (h : ∀ w c rest, w.rest = c :: rest → p c = true → k w = []) (cs : List Char) :
    (runs p cs).flatMap k = k ⟨cs.takeWhile p, [], cs.dropWhile p⟩ := by
  obtain ⟨shorter, hruns, hshorter⟩ := runs_eq p cs
  have hnone : shorter.flatMap k = [] := by
    rw [List.flatMap_eq_nil_iff]
    intro w hw
    obtain ⟨c, rest, hrest, hc⟩ := hshorter w hw
    exact h w c rest hrest hc
  rw [hruns, List.flatMap_cons, hnone, List.append_nil]

/-- A character of one kind, and then as many as there are of another. -/
def word (p q : Char → Bool) : Pattern := seq (one p) (many q)

theorem ways_word_cons (p q : Char → Bool) (c : Char) (cs : List Char) :
    (word p q).ways (c :: cs) = if p c then (runs q cs).map (Way.push c) else [] := by
  have hpush : (⟨[c], [], cs⟩ : Way).followed = Way.push c := rfl
  cases hc : p c <;> simp [word, ways, hc, hpush]

end Pattern

namespace Reference
open Pattern

/-- A name, with a mark before it: what follows the `$` of a reference without braces. -/
def namePattern (n : Nat) : Pattern := .group n (word startsName continuesName)

def formatPattern : Pattern := .group 2 (word continuesFormat continuesFormat)

/-- What stands after the name in braces. -/
def endingPattern : Pattern := .seq (.opt (.seq (char ':') formatPattern)) (char '\x7d')

def bracedPattern : Pattern := .seq (char '\x7b') (.seq (namePattern 1) endingPattern)

/-- A reference in braces, else one without. -/
def pattern : Pattern := .alt (.seq (char '$') bracedPattern) (.seq (char '$') (namePattern 3))

theorem ways_ending_close (cs : List Char) : endingPattern.ways ('\x7d' :: cs) = [⟨['\x7d'], [], cs⟩] := by
  simp [endingPattern, ways, ways_char_of_ne, Way.followed]

theorem ways_ending_of_ne {c : Char} (hcolon : c ≠ ':') (hclose : c ≠ '\x7d') (cs : List Char) :
    endingPattern.ways (c :: cs) = [] := by
  simp [endingPattern, ways, ways_char_of_ne hcolon, ways_char_of_ne hclose]

/-- The closing brace behind a format. -/
theorem ways_close (cs : List Char) : (char '\x7d').ways cs =
    if cs.head? = some '\x7d' then [⟨['\x7d'], [], cs.tail⟩] else [] := by
  cases cs with
  | nil => rfl
  | cons c cs => by_cases hc : c = '\x7d' <;> simp [hc, ways_char_of_ne]

theorem ways_ending_colon (cs : List Char) : endingPattern.ways (':' :: cs) =
    if cs.takeWhile continuesFormat ≠ [] ∧ (cs.dropWhile continuesFormat).head? = some '\x7d' then
      [⟨':' :: (cs.takeWhile continuesFormat ++ ['\x7d']), [(2, cs.takeWhile continuesFormat)],
        (cs.dropWhile continuesFormat).tail⟩]
    else [] := by
  cases cs with
  | nil => rfl
  | cons c cs =>
    have hopen : endingPattern.ways (':' :: c :: cs) = (formatPattern.ways (c :: cs)).flatMap fun w =>
        ((char '\x7d').ways w.rest).map (Way.followed ⟨':' :: w.taken, w.groups, w.rest⟩) := by
      simp [endingPattern, ways, ways_char_of_ne, Way.followed, List.flatMap_map]
    rw [hopen, formatPattern, ways, ways_word_cons]
    cases hc : continuesFormat c with
    | false => simp [hc]
    | true =>
      -- A format that could be longer has no closing brace behind it.
      rw [if_pos rfl, List.map_map, List.flatMap_map, flatMap_runs]
      · by_cases hclose : (cs.dropWhile continuesFormat).head? = some '\x7d' <;>
          simp [hc, ways_close, hclose, Way.push, Way.remember, Way.followed]
      · intro w d rest hrest hd
        have hne : d ≠ '\x7d' := by
          rintro rfl
          exact absurd hd (by decide)
        simp [Way.push, Way.remember, hrest, ways_char_of_ne hne]

/-- The ending of a reference in braces is read as it is matched. -/
theorem ways_ending (cs : List Char) : ∃ rest, endingPattern.ways cs =
    ((ending? cs).map fun format =>
      ⟨formatSpelling format ++ ['\x7d'], (format.map fun f => (2, f)).toList, rest⟩).toList := by
  cases cs with
  | nil => exact ⟨[], rfl⟩
  | cons c cs =>
    by_cases hclose : c = '\x7d'
    · subst hclose
      exact ⟨cs, ways_ending_close cs⟩
    · by_cases hcolon : c = ':'
      · subst hcolon
        refine ⟨(cs.dropWhile continuesFormat).tail, ?_⟩
        rw [ways_ending_colon, ending?_colon]
        split
        · rfl
        · rfl
      · exact ⟨[], by rw [ways_ending_of_ne hcolon hclose, ending?_of_ne hclose hcolon]; rfl⟩

theorem ways_name (n : Nat) (c : Char) (cs : List Char) : (namePattern n).ways (c :: cs) =
    if startsName c then
      (runs continuesName cs).map fun w => ⟨c :: w.taken, (n, c :: w.taken) :: w.groups, w.rest⟩
    else [] := by
  rw [namePattern, ways, ways_word_cons]
  split
  · rw [List.map_map]
    rfl
  · rfl

theorem first?_braced (cs : List Char) :
    ((Pattern.seq (char '$') bracedPattern).first? ('$' :: '\x7b' :: cs)).map Way.reference = braced? cs := by
  have hopen : (Pattern.seq (char '$') bracedPattern).ways ('$' :: '\x7b' :: cs) =
      ((namePattern 1).ways cs).flatMap fun w =>
        (endingPattern.ways w.rest).map (Way.followed ⟨'$' :: '\x7b' :: w.taken, w.groups, w.rest⟩) := by
    simp [bracedPattern, ways, Way.followed, List.map_flatMap, Function.comp_def]
    rfl
  rw [first?, hopen]
  cases cs with
  | nil => rfl
  | cons c cs =>
    rw [ways_name, braced?, name?_cons]
    cases hc : startsName c with
    | false => rfl
    | true =>
      obtain ⟨rest, hending⟩ := ways_ending (cs.dropWhile continuesName)
      rw [if_pos rfl, if_pos rfl, List.flatMap_map, flatMap_runs]
      · -- The longest name decides: its groups are the parts of the reference.
        simp only [hending, Option.bind_eq_bind, Option.bind_some]
        cases ending? (cs.dropWhile continuesName) with
        | none => rfl
        | some format =>
          cases format <;> simp [Way.followed, Way.reference, formatSpelling, List.lookup_cons]
      · intro w d rest hrest hd
        have hcolon : d ≠ ':' := by
          rintro rfl
          exact absurd hd (by decide)
        have hclose : d ≠ '\x7d' := by
          rintro rfl
          exact absurd hd (by decide)
        simp [hrest, ways_ending_of_ne hcolon hclose]

theorem first?_bare (cs : List Char) :
    ((Pattern.seq (char '$') (namePattern 3)).first? ('$' :: cs)).map Way.reference =
      (name? cs).map fun (name, _) => ⟨String.ofList name, none, '$' :: name⟩ := by
  have hopen : (Pattern.seq (char '$') (namePattern 3)).ways ('$' :: cs) =
      ((namePattern 3).ways cs).map (Way.push '$') := by
    have hpush : (⟨['$'], [], cs⟩ : Way).followed = Way.push '$' := rfl
    simp [ways, hpush]
  rw [first?, hopen]
  cases cs with
  | nil => rfl
  | cons c cs =>
    rw [ways_name, name?_cons]
    cases hc : startsName c with
    | false => rfl
    | true =>
      obtain ⟨shorter, hruns, _⟩ := runs_eq continuesName cs
      simp [hruns, Way.push, Way.reference, List.lookup_cons]

/-- What the pattern matches first after a `$` is the reference that is read there. -/
theorem first?_pattern (cs : List Char) : (pattern.first? ('$' :: cs)).map Way.reference = read? cs := by
  have halt : pattern.first? ('$' :: cs) = ((Pattern.seq (char '$') bracedPattern).first? ('$' :: cs)).or
      ((Pattern.seq (char '$') (namePattern 3)).first? ('$' :: cs)) := List.head?_append
  rw [halt]
  cases cs with
  | nil => rfl
  | cons c cs =>
    by_cases hc : c = '\x7b'
    · subst hc
      have hbare : (Pattern.seq (char '$') (namePattern 3)).first? ('$' :: '\x7b' :: cs) = none := by
        simp [first?, ways, ways_name, startsName]
      rw [hbare, Option.or_none, first?_braced]
      rfl
    · have hbraced : (Pattern.seq (char '$') bracedPattern).first? ('$' :: c :: cs) = none := by
        simp [first?, bracedPattern, ways, ways_char_of_ne hc]
      rw [hbraced, Option.none_or, first?_bare, read?_of_ne hc]

theorem first?_of_ne {c : Char} (h : c ≠ '$') (cs : List Char) : pattern.first? (c :: cs) = none := by
  simp [first?, pattern, ways, ways_char_of_ne h]

end Reference

/-- Filling a text replaces all that the pattern of references matches. -/
theorem fillFrom_eq_replaceFrom (s : Scope) (locals : Bindings) (skip : Nat) (cs : List Char) :
    s.fillFrom locals skip cs =
      Reference.pattern.replaceFrom (fun w => (Part.reference w.reference).fill s locals) skip cs := by
  induction cs generalizing skip with
  | nil => cases skip <;> rfl
  | cons c cs ih =>
    cases skip with
    | succ skip => exact ih skip
    | zero =>
      rw [Scope.fillFrom, Pattern.replaceFrom]
      by_cases hc : c = '$'
      · subst hc
        rw [if_pos rfl, ← Reference.first?_pattern]
        cases Reference.pattern.first? ('$' :: cs) with
        | none => exact congrArg _ (ih 0)
        | some w => exact congrArg _ (ih _)
      · rw [if_neg hc, Reference.first?_of_ne hc, ih]

end RecordSource.Template
