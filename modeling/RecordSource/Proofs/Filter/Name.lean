import RecordSource.Filter.Reading
import RecordSource.Filter.Render
import Mathlib.Tactic.SplitIfs

/-!
Texts that read as one name, and how the name of a call falls apart into target and method. A dot parts them only
where all brackets and quotes before it are closed again.
-/
namespace RecordSource.Filter

/-- A text that reads as one name and leaves nothing. -/
def IsName (cs : List Char) : Prop :=
  cs.head?.any Token.isNameChar = true ∧ Lexeme.name? .bare cs = some (cs, [])

instance : DecidablePred IsName := fun cs =>
  inferInstanceAs (Decidable (cs.head?.any Token.isNameChar = true ∧ Lexeme.name? .bare cs = some (cs, [])))

namespace Lexeme

theorem name?_quoted_cons {c : Char} (hc : c ≠ '\\') (cs : List Char) :
    name? .quoted (c :: cs) = (name? (.ofQuoted c) cs).map fun (s, rest) => (c :: s, rest) := by
  cases cs <;> simp [name?, hc]

/-- Reading what was read as a name again. -/
theorem name?_self {place : Place} {cs s rest : List Char} (h : name? place cs = some (s, rest)) :
    name? place s = some (s, []) := by
  fun_induction name? place cs generalizing s rest with
  | case1 => simp_all [name?]
  | case2 | case7 => simp at h
  | case5 =>
    simp only [Option.some.injEq, Prod.mk.injEq] at h
    rw [← h.1, name?]
  | case3 _ _ hc ih | case4 _ hc ih | case6 _ _ ih | case8 _ _ ih =>
    obtain ⟨⟨t, q⟩, ht, heq⟩ := Option.map_eq_some_iff.1 h
    simp only [Prod.mk.injEq] at heq
    obtain ⟨rfl, rfl⟩ := heq
    simp_all [name?]
  | case9 c cs hc ih =>
    obtain ⟨⟨t, q⟩, ht, heq⟩ := Option.map_eq_some_iff.1 h
    simp only [Prod.mk.injEq] at heq
    obtain ⟨rfl, rfl⟩ := heq
    rw [name?_quoted_cons hc, ih ht]
    rfl

/-- A name that is whole goes on with what can go on after it. -/
theorem name?_append {place : Place} {cs s : List Char} (h : name? place cs = some (s, [])) (ds : List Char) :
    name? place (cs ++ ds) = (name? .bare ds).map fun (t, rest) => (s ++ t, rest) := by
  fun_induction name? place cs generalizing s with
  | case1 =>
    simp only [Option.some.injEq, Prod.mk.injEq, and_true] at h
    subst h
    simp
  | case2 | case5 | case7 => simp at h
  | case3 _ _ hc ih | case4 _ hc ih | case6 _ _ ih | case8 _ _ ih =>
    obtain ⟨⟨t, q⟩, ht, heq⟩ := Option.map_eq_some_iff.1 h
    simp only [Prod.mk.injEq] at heq
    obtain ⟨rfl, rfl⟩ := heq
    simp_all [name?, Function.comp_def]
  | case9 c cs hc ih =>
    obtain ⟨⟨t, q⟩, ht, heq⟩ := Option.map_eq_some_iff.1 h
    simp only [Prod.mk.injEq] at heq
    obtain ⟨rfl, rfl⟩ := heq
    rw [List.cons_append, name?_quoted_cons hc, ih ht]
    simp [Function.comp_def]

/-- What a name never goes on with. -/
def Stops (ds : List Char) : Prop := ∀ d ∈ ds.head?, Token.isNameChar d = false ∧ d ≠ '['

theorem stops_nil : Stops [] := fun _ hd => by cases hd

theorem stops_cons {d : Char} (hd : Token.isNameChar d = false) (hb : d ≠ '[') (ds : List Char) :
    Stops (d :: ds) := by
  rintro _ ⟨⟩
  exact ⟨hd, hb⟩

theorem name?_of_stops {ds : List Char} (h : Stops ds) : name? .bare ds = some ([], ds) := by
  cases ds with
  | nil => rfl
  | cons d ds =>
    obtain ⟨hd, hb⟩ := h d rfl
    simp [name?, hd, hb]

theorem name?_plain {cs : List Char} (h : ∀ c ∈ cs, Token.isNameChar c = true) :
    name? .bare cs = some (cs, []) := by
  induction cs with
  | nil => rfl
  | cons c cs ih =>
    rw [List.forall_mem_cons] at h
    simp [name?, h.1, ih h.2]

/-- Without a bracket a name has nothing but the characters of names. -/
theorem plain_of_name? {cs s rest : List Char} (h : name? .bare cs = some (s, rest)) (hb : '[' ∉ s) :
    ∀ c ∈ s, Token.isNameChar c = true := by
  induction cs generalizing s with
  | nil => simp_all [name?]
  | cons d cs ih =>
    by_cases hd : Token.isNameChar d = true
    · rw [name?, if_pos hd] at h
      obtain ⟨⟨t, q⟩, ht, heq⟩ := Option.map_eq_some_iff.1 h
      simp only [Prod.mk.injEq] at heq
      obtain ⟨rfl, rfl⟩ := heq
      have ht' := ih ht (fun hm => hb (List.mem_cons_of_mem _ hm))
      exact List.forall_mem_cons.2 ⟨hd, ht'⟩
    · rw [name?, if_neg hd] at h
      split at h
      · next hd' =>
        obtain ⟨⟨t, q⟩, _, heq⟩ := Option.map_eq_some_iff.1 h
        simp only [Prod.mk.injEq] at heq
        obtain ⟨rfl, rfl⟩ := heq
        exact absurd (List.mem_cons.2 (.inl hd'.symm)) hb
      · simp only [Option.some.injEq, Prod.mk.injEq] at h
        simp [← h.1]

end Lexeme

namespace IsName

theorem exists_cons {cs : List Char} (h : IsName cs) :
    ∃ c ds, cs = c :: ds ∧ Token.isNameChar c = true := by
  obtain ⟨hc, _⟩ := h
  cases cs with
  | nil => simp at hc
  | cons c ds => exact ⟨c, ds, rfl, by simpa using hc⟩

theorem ne_empty {s : String} (h : IsName s.toList) : s ≠ "" := by
  rintro rfl
  obtain ⟨c, ds, hcs, _⟩ := h.exists_cons
  simp at hcs

theorem append {cs ds : List Char} (h : IsName cs) (hd : Lexeme.name? .bare ds = some (ds, [])) :
    IsName (cs ++ ds) := by
  obtain ⟨c, es, rfl, hc⟩ := h.exists_cons
  refine ⟨by simpa using hc, ?_⟩
  rw [Lexeme.name?_append h.2, hd]
  rfl

theorem plain {cs : List Char} (h : IsName cs) (hb : '[' ∉ cs) : ∀ c ∈ cs, Token.isNameChar c = true :=
  Lexeme.plain_of_name? h.2 hb

end IsName

namespace Reading

/-- How many brackets are open after a text, and whether a quote is. -/
def brackets : Nat × Bool → List Char → Nat × Bool
  | s, [] => s
  | (depth, quoted), c :: cs =>
    if c = '"' then brackets (depth, !quoted) cs
    else if c = '[' && !quoted then brackets (depth + 1, quoted) cs
    else if c = ']' && !quoted then brackets (depth - 1, quoted) cs
    else brackets (depth, quoted) cs

theorem brackets_append (s : Nat × Bool) (cs ds : List Char) :
    brackets s (cs ++ ds) = brackets (brackets s cs) ds := by
  induction cs generalizing s with
  | nil => rfl
  | cons c cs ih =>
    obtain ⟨depth, quoted⟩ := s
    simp only [List.cons_append, brackets]
    split_ifs <;> exact ih _

theorem lastDot?_tiles {depth : Nat} {quoted : Bool} {cs before after : List Char}
    (h : lastDot? depth quoted cs = some (before, after)) : cs = before ++ '.' :: after := by
  induction cs generalizing depth quoted before with
  | nil => simp [lastDot?] at h
  | cons c cs ih =>
    simp only [lastDot?] at h
    split at h
    · next b a hin =>
      simp only [Option.some.injEq, Prod.mk.injEq] at h
      obtain ⟨rfl, rfl⟩ := h
      split_ifs at hin <;> simp [ih hin]
    · split at h
      · next hc =>
        simp only [Option.some.injEq, Prod.mk.injEq] at h
        obtain ⟨rfl, rfl⟩ := h
        simp at hc
        simp [hc]
      · cases h

end Reading

/-- The written name of a call: one name, and one that falls apart into its target and method again. -/
def IsCallName (target method : String) : Prop :=
  IsName (Clause.callName target method) ∧
    ∀ args, Reading.callOf (String.ofList (Clause.callName target method)) args = .call target method args

/-- A name whose only parting dot stands in front: it calls a free function, and that has no dot. -/
def IsDotted (name : String) : Prop := ∃ method, Reading.lastDot? 0 false name.toList = some ([], method)

theorem not_isDotted {name : String} (h : name.toList.head? ≠ some '.') : ¬ IsDotted name := by
  rintro ⟨method, hmethod⟩
  simp [Reading.lastDot?_tiles hmethod] at h

/-- All other names are the written names of the calls they make. -/
theorem callOf_eq {name : String} (hname : IsName name.toList) (hdot : ¬ IsDotted name) :
    ∃ target method, IsCallName target method ∧ Clause.callName target method = name.toList ∧
      ∀ args, Reading.callOf name args = .call target method args := by
  cases h : Reading.lastDot? 0 false name.toList with
  | none =>
    have hcall : ∀ args, Reading.callOf name args = .call "" name args := fun args => by simp [Reading.callOf, h]
    have hwritten : Clause.callName "" name = name.toList := rfl
    exact ⟨"", name, ⟨by rwa [hwritten], fun args => by simpa [hwritten] using hcall args⟩, hwritten, hcall⟩
  | some parts =>
    obtain ⟨before, after⟩ := parts
    have htiles := Reading.lastDot?_tiles h
    have hne : before ≠ [] := by
      rintro rfl
      exact hdot ⟨after, h⟩
    have hcall : ∀ args, Reading.callOf name args = .call (String.ofList before) (String.ofList after) args :=
      fun args => by simp [Reading.callOf, h]
    have hwritten : Clause.callName (String.ofList before) (String.ofList after) = name.toList := by
      simp [Clause.callName, String.ofList_eq_empty_iff, hne, htiles]
    exact ⟨_, _, ⟨by rwa [hwritten], fun args => by simpa [hwritten] using hcall args⟩, hwritten, hcall⟩

/-- A name after which a method can be called. -/
structure IsPath (path : String) : Prop where
  name : IsName path.toList
  closed : Reading.brackets (0, false) path.toList = (0, false)

theorem IsPath.ne_empty {path : String} (h : IsPath path) : path ≠ "" := h.name.ne_empty

end RecordSource.Filter
