import RecordSource.Proofs.Filter.Name

/-!
Where the name of a call falls apart. The scan of a name tells which of its dots stand outside its indexers, and knows
escapes in quoted keys; the parting of a name counts brackets and quotes, escaped or not. The two agree on names whose
indexers have neither an escaped quote nor a bracket of their own.
-/
namespace RecordSource.Filter

/-- The scan of a name stands outside the indexers behind the text. -/
def Whole (cs : List Char) : Prop := Lexeme.name? .bare cs = some (cs, [])

/-- The last dot of a name behind a text of some kind. -/
structure LastDot (P : List Char → Prop) (name before after : List Char) : Prop where
  tiles : name = before ++ '.' :: after
  holds : P before
  last : ∀ before' after', name = before' ++ '.' :: after' → P before' → before'.length ≤ before.length

/-- A call of the name falls apart at the last dot outside the indexers; without one it is a free function. -/
structure PartsRight (name : String) : Prop where
  method : ∀ before after, LastDot Whole name.toList before after →
    ∀ args, Reading.callOf name args = .call (String.ofList before) (String.ofList after) args
  free : (∀ before after, name.toList = before ++ '.' :: after → ¬ Whole before) →
    ∀ args, Reading.callOf name args = .call "" name args

theorem eq_of_length_eq {c d : Char} {before after before' after' : List Char}
    (h : before ++ c :: after = before' ++ d :: after') (hlength : before.length = before'.length) :
    before = before' ∧ after = after' := by
  obtain ⟨hbefore, hrest⟩ := List.append_inj h hlength
  exact ⟨hbefore, (List.cons.inj hrest).2⟩

namespace LastDot
variable {P Q : List Char → Prop} {name : List Char}

theorem unique {before after before' after' : List Char} (h : LastDot P name before after)
    (h' : LastDot P name before' after') : before = before' ∧ after = after' := by
  have hlength := Nat.le_antisymm (h'.last _ _ h.tiles h.holds) (h.last _ _ h'.tiles h'.holds)
  exact eq_of_length_eq (h.tiles.symm.trans h'.tiles) hlength

/-- A name with a dot behind a text of the kind has a last one. -/
theorem exists_of {before after : List Char} (htiles : name = before ++ '.' :: after) (holds : P before) :
    ∃ before' after', LastDot P name before' after' := by
  rcases Classical.em (∃ before' after', name = before' ++ '.' :: after' ∧ P before' ∧ before.length < before'.length)
    with hmore | hlast
  · obtain ⟨before', after', htiles', holds', hlonger⟩ := hmore
    have hfits : name.length = before'.length + (after'.length + 1) := by
      rw [htiles', List.length_append, List.length_cons]
    exact exists_of htiles' holds'
  · refine ⟨before, after, htiles, holds, ?_⟩
    intro before' after' htiles' holds'
    exact Nat.le_of_not_lt fun hlonger => hlast ⟨before', after', htiles', holds', hlonger⟩
termination_by name.length - before.length

theorem congr (h : ∀ before after, name = before ++ '.' :: after → (P before ↔ Q before)) {before after : List Char} :
    LastDot P name before after ↔ LastDot Q name before after := by
  constructor
  · intro hP
    exact ⟨hP.tiles, (h _ _ hP.tiles).1 hP.holds, fun _ _ ht hQ => hP.last _ _ ht ((h _ _ ht).2 hQ)⟩
  · intro hQ
    exact ⟨hQ.tiles, (h _ _ hQ.tiles).2 hQ.holds, fun _ _ ht hP => hQ.last _ _ ht ((h _ _ ht).1 hP)⟩

end LastDot

/-- Behind a dot that no other one follows there is none. -/
theorem length_le_of_no_dot {before after before' after' : List Char} (hdot : '.' ∉ after)
    (h : before ++ '.' :: after = before' ++ '.' :: after') : before'.length ≤ before.length := by
  refine Nat.le_of_not_lt ?_
  intro hlonger
  obtain ⟨skipped, rfl⟩ : ∃ skipped, before' = before ++ '.' :: skipped := by
    rcases List.append_eq_append_iff.1 h with ⟨as, hbefore, has⟩ | ⟨as, hbefore, _⟩
    · cases as with
      | nil => simp [hbefore] at hlonger
      | cons a as =>
        obtain ⟨rfl, _⟩ := List.cons.inj has
        exact ⟨as, hbefore⟩
    · rw [hbefore, List.length_append] at hlonger
      omega
  rw [List.append_assoc, List.append_cancel_left_eq, List.cons_append, List.cons.injEq] at h
  exact hdot (by simp [h.2])

namespace Reading

/-! A name is parted at the last dot before which its brackets and quotes are closed. -/

theorem brackets_cons (s : Nat × Bool) (c : Char) (cs : List Char) :
    brackets s (c :: cs) = brackets (brackets s [c]) cs := brackets_append s [c] cs

theorem ne_of_isNameChar {c d : Char} (hc : Token.isNameChar c = true) (hd : Token.isNameChar d = false) : c ≠ d := by
  rintro rfl
  simp [hd] at hc

theorem brackets_isNameChar {c : Char} (hc : Token.isNameChar c = true) (s : Nat × Bool) (cs : List Char) :
    brackets s (c :: cs) = brackets s cs := by
  have hquote : c ≠ '"' := ne_of_isNameChar hc rfl
  have hopen : c ≠ '[' := ne_of_isNameChar hc rfl
  have hclose : c ≠ ']' := ne_of_isNameChar hc rfl
  simp [brackets, hquote, hopen, hclose]

theorem brackets_plain {cs : List Char} (h : ∀ c ∈ cs, Token.isNameChar c = true) (s : Nat × Bool) :
    brackets s cs = s := by
  induction cs with
  | nil => rfl
  | cons c cs ih =>
    rw [List.forall_mem_cons] at h
    rw [brackets_isNameChar h.1, ih h.2]

theorem lastDot?_cons (s : Nat × Bool) (c : Char) (cs : List Char) :
    lastDot? s.1 s.2 (c :: cs) = match lastDot? (brackets s [c]).1 (brackets s [c]).2 cs with
      | some (before, after) => some (c :: before, after)
      | none => if c = '.' ∧ s = (0, false) then some ([], cs) else none := by
  obtain ⟨depth, quoted⟩ := s
  have hinside : (if c = '"' then lastDot? depth (!quoted) cs
      else if c = '[' && !quoted then lastDot? (depth + 1) quoted cs
      else if c = ']' && !quoted then lastDot? (depth - 1) quoted cs
      else lastDot? depth quoted cs) =
      lastDot? (brackets (depth, quoted) [c]).1 (brackets (depth, quoted) [c]).2 cs := by
    simp only [brackets]
    split_ifs <;> rfl
  rw [lastDot?, hinside]
  cases lastDot? (brackets (depth, quoted) [c]).1 (brackets (depth, quoted) [c]).2 cs with
  | some parts => rfl
  | none =>
    have hdot : (c = '.' && !quoted && depth == 0) = true ↔ c = '.' ∧ (depth, quoted) = (0, false) := by
      cases quoted <;> simp
    exact ite_congr (propext hdot) (fun _ => rfl) fun _ => rfl

theorem ne_of_lastDot?_none {s : Nat × Bool} {cs : List Char} (h : lastDot? s.1 s.2 cs = none) :
    ∀ before after, cs = before ++ '.' :: after → brackets s before ≠ (0, false) := by
  induction cs generalizing s with
  | nil => simp
  | cons c cs ih =>
    rw [lastDot?_cons] at h
    split at h
    · cases h
    · next hin =>
      intro before after hcs
      cases before with
      | nil =>
        obtain ⟨rfl, rfl⟩ := List.cons.inj hcs
        intro hs
        have hs : s = (0, false) := hs
        simp [hs] at h
      | cons d before =>
        obtain ⟨rfl, rfl⟩ := List.cons.inj hcs
        rw [brackets_cons]
        exact ih hin before after rfl

theorem lastDot?_last {s : Nat × Bool} {cs before after : List Char} (h : lastDot? s.1 s.2 cs = some (before, after)) :
    LastDot (brackets s · = (0, false)) cs before after := by
  induction cs generalizing s before with
  | nil => cases h
  | cons c cs ih =>
    have htiles := lastDot?_tiles h
    rw [lastDot?_cons] at h
    split at h
    · next b a hin =>
      cases h
      obtain ⟨_, hclosed, hlast⟩ := ih hin
      refine ⟨htiles, by rwa [brackets_cons], ?_⟩
      intro before' after' hcs hclosed'
      cases before' with
      | nil => exact Nat.zero_le _
      | cons d before' =>
        obtain ⟨rfl, rfl⟩ := List.cons.inj hcs
        rw [brackets_cons] at hclosed'
        exact Nat.succ_le_succ (hlast before' after' rfl hclosed')
    · next hin =>
      split at h
      · next hdot =>
        cases h
        refine ⟨htiles, hdot.2, ?_⟩
        intro before' after' hcs hclosed'
        cases before' with
        | nil => exact Nat.le_refl _
        | cons d before' =>
          obtain ⟨rfl, rfl⟩ := List.cons.inj hcs
          rw [brackets_cons] at hclosed'
          exact absurd hclosed' (ne_of_lastDot?_none hin before' after' rfl)
      · cases h

theorem lastDot?_eq_some_iff {s : Nat × Bool} {cs before after : List Char} :
    lastDot? s.1 s.2 cs = some (before, after) ↔ LastDot (brackets s · = (0, false)) cs before after := by
  refine ⟨lastDot?_last, ?_⟩
  intro hlast
  cases h : lastDot? s.1 s.2 cs with
  | none => exact absurd hlast.holds (ne_of_lastDot?_none h before after hlast.tiles)
  | some parts =>
    obtain ⟨rfl, rfl⟩ := hlast.unique (lastDot?_last h)
    rfl

/-- Brackets and quotes, escaped or not, are closed behind the text. -/
def Closed (cs : List Char) : Prop := brackets (0, false) cs = (0, false)

theorem ne_of_tiles {name : String} {before after : List Char} (h : name.toList = before ++ '.' :: after) :
    String.ofList after ≠ name := by
  rintro rfl
  have hlength := congrArg List.length h
  simp at hlength
  omega

theorem callOf_eq_iff {name : String} {before after : List Char} (h : name.toList = before ++ '.' :: after) :
    (∀ args, callOf name args = .call (String.ofList before) (String.ofList after) args) ↔
      LastDot Closed name.toList before after := by
  have hiff : lastDot? 0 false name.toList = some (before, after) ↔ LastDot Closed name.toList before after :=
    lastDot?_eq_some_iff (s := (0, false))
  rw [← hiff]
  unfold callOf
  cases hdot : lastDot? 0 false name.toList with
  | none => simp [(ne_of_tiles h).symm]
  | some parts =>
    obtain ⟨target, method⟩ := parts
    simp [← String.toList_inj]

end Reading

/-- A name falls apart right exactly if its last dot outside the indexers is the last one with the brackets closed. -/
theorem partsRight_iff {name : String} : PartsRight name ↔
    ∀ before after, LastDot Whole name.toList before after ↔ LastDot Reading.Closed name.toList before after := by
  constructor
  · intro h before after
    have hwhole {before after : List Char} (hlast : LastDot Whole name.toList before after) :
        LastDot Reading.Closed name.toList before after :=
      (Reading.callOf_eq_iff hlast.tiles).1 (h.method before after hlast)
    refine ⟨hwhole, ?_⟩
    intro hclosed
    -- some dot stands outside the indexers, for a free function's name would be parted at this one
    rcases Classical.em (∃ before after, name.toList = before ++ '.' :: after ∧ Whole before) with hsome | hnone
    · obtain ⟨_, _, htiles, holds⟩ := hsome
      obtain ⟨before', after', hlast⟩ := LastDot.exists_of htiles holds
      obtain ⟨rfl, rfl⟩ := hclosed.unique (hwhole hlast)
      exact hlast
    · have hfree := h.free (fun before after htiles holds => hnone ⟨before, after, htiles, holds⟩) []
      rw [(Reading.callOf_eq_iff hclosed.tiles).2 hclosed, Clause.call.injEq] at hfree
      exact absurd hfree.2.1 (Reading.ne_of_tiles hclosed.tiles)
  · intro h
    refine ⟨fun before after hlast => (Reading.callOf_eq_iff hlast.tiles).2 ((h before after).1 hlast), ?_⟩
    intro hnone args
    cases hdot : Reading.lastDot? 0 false name.toList with
    | none => simp only [Reading.callOf, hdot]
    | some parts =>
      obtain ⟨before, after⟩ := parts
      have hlast := (h before after).2 (Reading.lastDot?_last (s := (0, false)) hdot)
      exact absurd hlast.holds (hnone before after hlast.tiles)

theorem partsRight_of_agree {name : String}
    (h : ∀ before after, name.toList = before ++ '.' :: after → (Whole before ↔ Reading.Closed before)) :
    PartsRight name := partsRight_iff.2 fun _ _ => LastDot.congr h

/-! Indexers on which scan and parting agree. -/

namespace Lexeme

/-- How brackets and quotes stand at a place of a name. -/
def Place.brackets : Place → Nat × Bool
  | bare => (0, false)
  | indexer => (1, false)
  | quoted => (1, true)

/-- No indexer has an escaped quote, or a bracket of its own. -/
def IsSimple : Place → List Char → Prop
  | _, [] => True
  | .bare, c :: cs => if c = '[' then IsSimple .indexer cs else IsSimple .bare cs
  | .indexer, c :: cs => c ≠ '[' ∧ IsSimple (.ofIndexer c) cs
  | .quoted, c :: cs =>
    if c = '\\' then
      match cs with
      | [] => True
      | e :: ds => e ≠ '"' ∧ IsSimple .quoted ds
    else IsSimple (.ofQuoted c) cs

theorem isSimple_quoted_cons {c : Char} (hc : c ≠ '\\') (cs : List Char) :
    IsSimple .quoted (c :: cs) ↔ IsSimple (.ofQuoted c) cs := by
  cases cs <;> simp [IsSimple, hc]

theorem map_cons_eq_whole_iff {c : Char} {cs : List Char} {o : Option (List Char × List Char)} :
    (o.map fun (s, rest) => (c :: s, rest)) = some (c :: cs, []) ↔ o = some (cs, []) := by
  simp [Option.map_eq_some_iff]

theorem brackets_ofIndexer {c : Char} (hc : c ≠ '[') (cs : List Char) :
    Reading.brackets Place.indexer.brackets (c :: cs) = Reading.brackets (Place.ofIndexer c).brackets cs := by
  by_cases hclose : c = ']'
  · subst hclose
    rfl
  · by_cases hquote : c = '"' <;> simp [Reading.brackets, Place.brackets, Place.ofIndexer, hc, hclose, hquote]

theorem brackets_ofQuoted (c : Char) (cs : List Char) :
    Reading.brackets Place.quoted.brackets (c :: cs) = Reading.brackets (Place.ofQuoted c).brackets cs := by
  by_cases hquote : c = '"' <;> simp [Reading.brackets, Place.brackets, Place.ofQuoted, hquote]

/-- A part of a name on whose indexers scan and parting agree is a whole name exactly if its brackets are closed. -/
theorem whole_iff_closed {place : Place} {cs rest : List Char}
    (hname : name? place (cs ++ rest) = some (cs ++ rest, [])) (hsimple : IsSimple place (cs ++ rest)) :
    name? place cs = some (cs, []) ↔ Reading.brackets place.brackets cs = (0, false) := by
  fun_induction name? place cs with
  | case1 => simp [Reading.brackets, Place.brackets]
  | case2 place hplace =>
    cases place <;> simp_all [Reading.brackets, Place.brackets]
  | case3 c cs hc ih =>
    have hopen : c ≠ '[' := Reading.ne_of_isNameChar hc rfl
    simp only [List.cons_append, name?, hc, if_true, map_cons_eq_whole_iff] at hname
    simp only [List.cons_append, IsSimple, hopen, if_false] at hsimple
    rw [map_cons_eq_whole_iff, ih hname hsimple, Reading.brackets_isNameChar hc]
  | case4 cs hc ih =>
    rw [List.cons_append, name?, if_neg hc, if_pos rfl, map_cons_eq_whole_iff] at hname
    simp only [List.cons_append, IsSimple, if_true] at hsimple
    rw [map_cons_eq_whole_iff, ih hname hsimple]
    rfl
  | case5 c cs hc hb =>
    simp [name?, hc, hb] at hname
  | case6 c cs ih =>
    simp only [List.cons_append, name?, map_cons_eq_whole_iff] at hname
    obtain ⟨hopen, hsimple⟩ := hsimple
    rw [map_cons_eq_whole_iff, ih hname hsimple, brackets_ofIndexer hopen]
  | case7 => simp [Reading.brackets, Place.brackets]
  | case8 e ds ih =>
    -- an escape: the parting counts what is escaped, which is no quote here
    have hname : name? .quoted (ds ++ rest) = some (ds ++ rest, []) := by
      simpa [name?, Option.map_eq_some_iff] using hname
    obtain ⟨hquote, hsimple⟩ : e ≠ '"' ∧ IsSimple .quoted (ds ++ rest) := by simpa [IsSimple] using hsimple
    have hwhole : ((name? .quoted ds).map fun (s, rest) => ('\\' :: e :: s, rest)) = some ('\\' :: e :: ds, []) ↔
        name? .quoted ds = some (ds, []) := by simp [Option.map_eq_some_iff]
    have hbackslash : Place.ofQuoted '\\' = .quoted := rfl
    have hescaped : Place.ofQuoted e = .quoted := if_neg hquote
    rw [hwhole, ih hname hsimple, brackets_ofQuoted, hbackslash, brackets_ofQuoted, hescaped]
  | case9 c cs hc ih =>
    rw [List.cons_append, name?_quoted_cons hc, map_cons_eq_whole_iff] at hname
    rw [List.cons_append, isSimple_quoted_cons hc] at hsimple
    rw [map_cons_eq_whole_iff, ih hname hsimple, brackets_ofQuoted]

end Lexeme

/-- A name whose indexers have neither an escaped quote nor a bracket of their own falls apart right. -/
theorem partsRight_of_isSimple {name : String} (hname : IsName name.toList)
    (hsimple : Lexeme.IsSimple .bare name.toList) : PartsRight name := by
  apply partsRight_of_agree
  intro before after hdot
  have hwhole := hname.2
  rw [hdot] at hwhole hsimple
  exact Lexeme.whole_iff_closed hwhole hsimple

/-! Methods called on a name. -/

section Method
variable {path method : String}

theorem toList_method : (path ++ "." ++ method).toList = path.toList ++ '.' :: method.toList := by simp

theorem lastDot_method {P : List Char → Prop} (hpath : P path.toList) (hdot : '.' ∉ method.toList) :
    LastDot P (path ++ "." ++ method).toList path.toList method.toList :=
  ⟨toList_method, hpath, fun _ _ htiles _ => length_le_of_no_dot hdot (toList_method.symm.trans htiles)⟩

/-- The parting finds the method exactly if the brackets before it are closed. -/
theorem callOf_method_iff (hpath : IsName path.toList) (hdot : '.' ∉ method.toList) :
    (∀ args, Reading.callOf (path ++ "." ++ method) args = .call path method args) ↔ IsPath path := by
  have htiles : (path ++ "." ++ method).toList = path.toList ++ '.' :: method.toList := toList_method
  have hiff := Reading.callOf_eq_iff htiles
  rw [String.ofList_toList, String.ofList_toList] at hiff
  rw [hiff]
  exact ⟨fun h => ⟨hpath, h.holds⟩, fun h => lastDot_method h.closed hdot⟩

/-- A call of a method falls apart right exactly if the method can be called on the name. -/
theorem partsRight_method_iff (hpath : IsName path.toList) (hdot : '.' ∉ method.toList) :
    PartsRight (path ++ "." ++ method) ↔ IsPath path := by
  have hwhole : LastDot Whole _ _ _ := lastDot_method hpath.2 hdot
  rw [partsRight_iff]
  constructor
  · intro h
    exact ⟨hpath, ((h _ _).1 hwhole).holds⟩
  · intro h before after
    have hclosed : LastDot Reading.Closed _ _ _ := lastDot_method h.closed hdot
    constructor
    · intro hlast
      obtain ⟨rfl, rfl⟩ := hwhole.unique hlast
      exact hclosed
    · intro hlast
      obtain ⟨rfl, rfl⟩ := hclosed.unique hlast
      exact hwhole

/-- The written name of a method reads as the call exactly if the method can be called on the name. -/
theorem isCallName_iff_isPath (hpath : IsName path.toList) (hplain : method.toList.all Token.isNameChar = true)
    (hdot : '.' ∉ method.toList) : IsCallName path method ↔ IsPath path := by
  have hwritten : Clause.callName path method = path.toList ++ '.' :: method.toList := if_neg hpath.ne_empty
  have hname : IsName (Clause.callName path method) := by
    rw [hwritten]
    exact hpath.append (Lexeme.name?_plain (List.forall_mem_cons.2 ⟨by decide, List.all_eq_true.1 hplain⟩))
  have htext : String.ofList (Clause.callName path method) = path ++ "." ++ method := by
    rw [hwritten, ← toList_method, String.ofList_toList]
  rw [IsCallName, htext, callOf_method_iff hpath hdot]
  exact and_iff_right hname

/-- Methods can be called on a name without indexers. -/
theorem IsPath.of_plain (hne : path ≠ "") (hplain : ∀ c ∈ path.toList, Token.isNameChar c = true) : IsPath path := by
  refine ⟨⟨?_, Lexeme.name?_plain hplain⟩, Reading.brackets_plain hplain _⟩
  obtain ⟨c, cs, hcs⟩ := List.exists_cons_of_ne_nil (mt String.toList_eq_nil_iff.1 hne)
  simpa [hcs] using hplain c (by simp [hcs])

theorem IsPath.isCallName (hpath : IsPath path) (hplain : method.toList.all Token.isNameChar = true)
    (hdot : '.' ∉ method.toList) : IsCallName path method := (isCallName_iff_isPath hpath.name hplain hdot).2 hpath

end Method

end RecordSource.Filter
