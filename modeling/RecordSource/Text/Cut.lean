/-!
Cutting and joining texts: pieces between separators, what follows a mark, a word replaced wherever it stands, a
wrapping taken off. Joining the pieces of a text gives the text back.
-/
namespace RecordSource.Text

/-- The pieces of a text between the occurrences of a separator; there is always at least one. -/
def pieces (sep : Char) : List Char → List (List Char)
  | [] => [[]]
  | c :: cs =>
    if c = sep then [] :: pieces sep cs
    else match pieces sep cs with
      | [] => [[c]]
      | p :: ps => (c :: p) :: ps

/-- Texts one after another with a text between any two of them. -/
def joinWith (sep : List Char) : List (List Char) → List Char
  | [] => []
  | [p] => p
  | p :: q :: ps => p ++ sep ++ joinWith sep (q :: ps)

@[simp] theorem joinWith_nil (sep : List Char) : joinWith sep [] = [] := rfl

@[simp] theorem joinWith_singleton (sep p : List Char) : joinWith sep [p] = p := rfl

theorem pieces_ne_nil (sep : Char) (cs : List Char) : pieces sep cs ≠ [] := by
  cases cs with
  | nil => simp [pieces]
  | cons c cs =>
    unfold pieces
    split
    · simp
    · split <;> simp

theorem joinWith_pieces (sep : Char) (cs : List Char) : joinWith [sep] (pieces sep cs) = cs := by
  induction cs with
  | nil => rfl
  | cons c cs ih =>
    unfold pieces
    split
    · next h =>
      subst h
      cases hp : pieces c cs with
      | nil => exact absurd hp (pieces_ne_nil c cs)
      | cons p ps => rw [← ih, hp]; simp [joinWith]
    · cases hp : pieces sep cs with
      | nil => exact absurd hp (pieces_ne_nil sep cs)
      | cons p ps =>
        rw [hp] at ih
        cases ps with
        | nil => simp_all [joinWith]
        | cons q qs => simp only [joinWith, List.cons_append] at ih ⊢; rw [ih]

theorem pieces_eq_splitOn (sep : Char) (cs : List Char) : pieces sep cs = cs.splitOn sep := by
  induction cs with
  | nil => exact (List.splitOn_nil sep).symm
  | cons c cs ih =>
    rw [List.splitOn_cons_eq_if_modifyHead, ← ih, pieces]
    by_cases hc : c = sep
    · rw [if_pos hc, if_pos (beq_iff_eq.2 hc)]
    · rw [if_neg hc, if_neg (mt beq_iff_eq.1 hc)]
      cases hp : pieces sep cs with
      | nil => exact absurd hp (pieces_ne_nil sep cs)
      | cons p ps => rfl

theorem joinWith_eq_intercalate (sep : List Char) (ps : List (List Char)) :
    joinWith sep ps = sep.intercalate ps := by
  match ps with
  | [] => rfl
  | [p] => exact List.intercalate_singleton.symm
  | p :: q :: ps => rw [joinWith, joinWith_eq_intercalate sep (q :: ps), List.intercalate_cons_cons]

/-- Texts without the separator are the pieces of what they are joined to. -/
theorem pieces_joinWith {sep : Char} {ps : List (List Char)} (h : ∀ p ∈ ps, sep ∉ p) (hne : ps ≠ []) :
    pieces sep (joinWith [sep] ps) = ps := by
  rw [pieces_eq_splitOn, joinWith_eq_intercalate, List.splitOn_intercalate sep h hne]

/-- What follows a given beginning, if the text begins with it. -/
def after? : List Char → List Char → Option (List Char)
  | [], cs => some cs
  | _ :: _, [] => none
  | w :: ws, c :: cs => if w = c then after? ws cs else none

theorem after?_eq_some_iff {ws cs rest : List Char} : after? ws cs = some rest ↔ cs = ws ++ rest := by
  induction ws generalizing cs with
  | nil => simp [after?]
  | cons w ws ih =>
    cases cs with
    | nil => simp [after?]
    | cons c cs =>
      by_cases h : w = c
      · simp [after?, h, ih]
      · simp [after?, h, Ne.symm h]

theorem after?_cons_of_ne {w c : Char} (h : w ≠ c) (ws cs : List Char) : after? (w :: ws) (c :: cs) = none := by
  simp [after?, h]

/-- What is made of the text behind a mark, at the first place of the mark where anything is. -/
def firstAfter? {β : Type} (mark : List Char) (f : List Char → Option β) : List Char → Option β
  | [] => (after? mark []).bind f
  | c :: cs => ((after? mark (c :: cs)).bind f).or (firstAfter? mark f cs)

section
variable {β : Type} {mark : List Char} {f : List Char → Option β}

theorem firstAfter?_mark_append {rest : List Char} {b : β} (h : f rest = some b) :
    firstAfter? mark f (mark ++ rest) = some b := by
  have hhere : (after? mark (mark ++ rest)).bind f = some b := by
    rw [after?_eq_some_iff.2 rfl, Option.bind_some, h]
  cases htext : mark ++ rest with
  | nil => rwa [firstAfter?, ← htext]
  | cons c cs => rw [firstAfter?, ← htext, hhere, Option.some_or]

theorem firstAfter?_cons_of_none {c : Char} {cs : List Char} (h : after? mark (c :: cs) = none) :
    firstAfter? mark f (c :: cs) = firstAfter? mark f cs := by
  rw [firstAfter?, h, Option.bind_none, Option.none_or]

/-- Where its first character does not stand, a mark is not found. -/
theorem firstAfter?_append_of_notMem {m : Char} {before : List Char} (h : m ∉ before) (cs : List Char) :
    firstAfter? (m :: mark) f (before ++ cs) = firstAfter? (m :: mark) f cs := by
  induction before with
  | nil => rfl
  | cons b before ih =>
    rw [List.mem_cons, not_or] at h
    rw [List.cons_append, firstAfter?_cons_of_none (after?_cons_of_ne h.1 _ _), ih h.2]

end

/-- The inside of a text that begins and ends with the given characters, which must be two. -/
def inside? (first last : Char) : List Char → Option (List Char)
  | [] => none
  | c :: cs =>
    if c = first then
      match cs.reverse with
      | d :: ds => if d = last then some ds.reverse else none
      | [] => none
    else none

theorem inside?_eq_some_iff {first last : Char} {cs ds : List Char} :
    inside? first last cs = some ds ↔ cs = first :: (ds ++ [last]) := by
  cases cs with
  | nil => simp [inside?]
  | cons c cs =>
    by_cases hc : c = first
    · subst hc
      cases hr : cs.reverse with
      | nil =>
        have : cs = [] := by simpa using hr
        subst this
        simp [inside?]
      | cons e es =>
        have : cs = es.reverse ++ [e] := by
          rw [← List.reverse_reverse cs, hr]; simp
        subst this
        by_cases he : e = last
        · subst he; simp [inside?]
        · simp [inside?, he]
    · simp [inside?, hc]

/-- Walks a text and puts `new` for `old` wherever it stands, left to right; the first argument counts
characters of an occurrence already replaced. -/
def replaceFrom (old new : List Char) : Nat → List Char → List Char
  | _, [] => []
  | skip + 1, _ :: cs => replaceFrom old new skip cs
  | 0, c :: cs =>
    if (after? old (c :: cs)).isSome then new ++ replaceFrom old new (old.length - 1) cs
    else c :: replaceFrom old new 0 cs

/-- Puts `new` for every occurrence of the nonempty text `old`. -/
def replace (old new cs : List Char) : List Char := replaceFrom old new 0 cs

example : pieces ',' ['a', ',', ',', 'b'] = [['a'], [], ['b']] := by decide

example : replace ['a', 'b'] ['x'] ['a', 'a', 'b', 'b'] = ['a', 'x', 'b'] := by decide

end RecordSource.Text
