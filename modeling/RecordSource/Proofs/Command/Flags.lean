import RecordSource.Command.Options
import RecordSource.Outcome

/-!
Command lines with a flag and without it. Wherever the flag stands, a reading that takes it is matched word by word by a
reading of the other words, which comes to the same options but for the flag.
-/
namespace RecordSource.Command
open Outcome (bind_eq_ok_iff map_eq_ok_iff)

namespace Words

theorem accept_eq_ok_iff {w v : Words} {k : Key} {value : String} : w.accept k value = .ok v ↔
    (k.repeats = true ∨ w.has k = false) ∧ k.fault? value = none ∧ v = { w with given := w.given ++ [(k, value)] } := by
  unfold accept
  cases k.repeats <;> cases w.has k <;> cases k.fault? value <;> simp [eq_comm]

theorem settle_of_none {w : Words} (h : w.pending = none) : w.settle = .ok w := by
  rw [settle, h]

theorem settle_of_some {w : Words} {k : Key} {value : String} (h : w.pending = some (k, some value)) :
    w.settle = { w with pending := none }.accept k value := by
  rw [settle, h]

/-- Nothing is pending after it is looked at. -/
theorem settle_eq_ok {w v : Words} (h : w.settle = .ok v) :
    v.pending = none ∧ v.domainSeen = w.domainSeen ∧ v.plain = w.plain := by
  match hpending : w.pending with
  | none =>
    rw [settle_of_none hpending] at h
    obtain rfl := Except.ok.inj h
    exact ⟨hpending, rfl, rfl⟩
  | some (k, none) =>
    rw [settle, hpending] at h
    cases h
  | some (k, some value) =>
    rw [settle_of_some hpending] at h
    obtain ⟨_, _, rfl⟩ := accept_eq_ok_iff.1 h
    exact ⟨rfl, rfl, rfl⟩

/-- Whether only plain words follow does not matter to what is pending. -/
theorem settle_plain {w v : Words} (h : w.settle = .ok v) :
    { w with plain := true }.settle = .ok { v with plain := true } := by
  obtain ⟨given, pending, domainSeen, plain⟩ := w
  match pending with
  | none =>
    obtain rfl := Except.ok.inj h
    rfl
  | some (k, none) => cases h
  | some (k, some value) =>
    obtain ⟨hfree, hfault, rfl⟩ := accept_eq_ok_iff.1 h
    exact accept_eq_ok_iff.2 ⟨hfree, hfault, rfl⟩

/-- Where the second step succeeds, so does the first, and what they come to is related. -/
def Matches (R : Words → Words → Prop) (x x' : Except Usage Words) : Prop :=
  ∀ v', x' = .ok v' → ∃ v, x = .ok v ∧ R v v'

namespace Matches
variable {R S : Words → Words → Prop} {x x' : Except Usage Words}

theorem of_error (x : Except Usage Words) (u : Usage) : Matches R x (.error u) := by
  intro v' hv
  cases hv

theorem of_ok {w w' : Words} (h : R w w') : Matches R (.ok w) (.ok w') := by
  intro v' hv
  obtain rfl := Except.ok.inj hv
  exact ⟨w, rfl, h⟩

theorem bind (hx : Matches R x x') {f f' : Words → Except Usage Words}
    (hf : ∀ v v', R v v' → Matches S (f v) (f' v')) : Matches S (x.bind f) (x'.bind f') := by
  intro v' hv
  obtain ⟨u', hu, hf'⟩ := bind_eq_ok_iff.1 hv
  obtain ⟨u, hx, hR⟩ := hx u' hu
  obtain ⟨v, hv, hS⟩ := hf u u' hR v' hf'
  exact ⟨v, bind_eq_ok_iff.2 ⟨u, hx, hv⟩, hS⟩

theorem imp (hx : Matches R x x') (h : ∀ v v', R v v' → S v v') : Matches S x x' := by
  intro v' hv
  obtain ⟨v, hv, hR⟩ := hx v' hv
  exact ⟨v, hv, h v v' hR⟩

end Matches

/-- The same reading but for a flag, which is among the second words only. -/
structure Lacks (flag : Key) (w w' : Words) : Prop where
  given : w.given = w'.given.filter (·.1 != flag)
  flagged : w'.has flag = true
  pending : w.pending = w'.pending
  domainSeen : w.domainSeen = w'.domainSeen
  plain : w.plain = w'.plain

/-- The second reading has taken the flag, and the first may still have to look at what was pending before it. -/
inductive Behind (flag : Key) (w w' : Words) : Prop
  | even (h : Lacks flag w w')
  | late {v : Words} (hsettle : w.settle = .ok v) (h : Lacks flag v w')

section
variable {flag : Key} (hflag : flag.repeats = false) {w w' : Words}

namespace Lacks

theorem has_eq (h : Lacks flag w w') {k : Key} (hk : k ≠ flag) : w.has k = w'.has k := by
  rw [has, has, h.given, List.any_filter]
  congr 1
  funext e
  cases heq : e.1 == k with
  | false => simp
  | true =>
    rw [beq_iff_eq] at heq
    simp [heq, hk]

theorem has_flag (h : Lacks flag w w') : w.has flag = false := by
  rw [has, h.given, List.any_filter, List.any_eq_false]
  simp

theorem values_eq (h : Lacks flag w w') {k : Key} (hk : k ≠ flag) : w.values k = w'.values k := by
  rw [values, values, h.given, List.filter_filter]
  congr 2
  funext e
  cases heq : e.1 == k with
  | false => rfl
  | true =>
    rw [beq_iff_eq] at heq
    simp [heq, hk]

theorem value?_eq (h : Lacks flag w w') {k : Key} (hk : k ≠ flag) : w.value? k = w'.value? k := by
  rw [value?, value?, h.given]
  generalize w'.given = given
  induction given with
  | nil => rfl
  | cons e given ih =>
    obtain ⟨other, value⟩ := e
    by_cases hother : other = flag
    · have hne : (k == other) = false := by simpa [hother] using hk
      rw [List.filter_cons_of_neg (by simpa using hother), List.lookup_cons, hne, ih]
    · rw [List.filter_cons_of_pos (by simpa using hother), List.lookup_cons, List.lookup_cons, ih]

theorem with_pending (h : Lacks flag w w') (p : Option (Key × Option String)) :
    Lacks flag { w with pending := p } { w' with pending := p } :=
  ⟨h.given, h.flagged, rfl, h.domainSeen, h.plain⟩

include hflag

theorem accept (h : Lacks flag w w') (k : Key) (value : String) :
    Matches (Lacks flag) (w.accept k value) (w'.accept k value) := by
  intro v' hv
  obtain ⟨hfree, hfault, rfl⟩ := accept_eq_ok_iff.1 hv
  have hk : k ≠ flag := by
    rintro rfl
    simp [hflag, h.flagged] at hfree
  refine ⟨_, accept_eq_ok_iff.2 ⟨by rwa [h.has_eq hk], hfault, rfl⟩, ?_, ?_, h.pending, h.domainSeen, h.plain⟩
  · simp [h.given, hk]
  · have hany : w'.given.any (·.1 == flag) = true := h.flagged
    rw [has, List.any_append, hany, Bool.true_or]

theorem settle (h : Lacks flag w w') : Matches (Lacks flag) w.settle w'.settle := by
  match hpending : w'.pending with
  | none =>
    rw [settle_of_none hpending, settle_of_none (h.pending.trans hpending)]
    exact .of_ok h
  | some (k, none) =>
    rw [Words.settle.eq_def w', hpending]
    exact .of_error _ _
  | some (k, some value) =>
    rw [settle_of_some hpending, settle_of_some (h.pending.trans hpending)]
    exact (h.with_pending none).accept hflag k value

end Lacks

namespace Behind

theorem domainSeen (h : Behind flag w w') : w.domainSeen = w'.domainSeen := by
  cases h with
  | even h => exact h.domainSeen
  | late hsettle h => rw [← h.domainSeen, (settle_eq_ok hsettle).2.1]

theorem plain (h : Behind flag w w') : w.plain = w'.plain := by
  cases h with
  | even h => exact h.plain
  | late hsettle h => rw [← h.plain, (settle_eq_ok hsettle).2.2]

theorem plain_true (h : Behind flag w w') : Behind flag { w with plain := true } { w' with plain := true } := by
  cases h with
  | even h => exact .even ⟨h.given, h.flagged, h.pending, h.domainSeen, rfl⟩
  | late hsettle h => exact .late (settle_plain hsettle) ⟨h.given, h.flagged, h.pending, h.domainSeen, rfl⟩

include hflag

/-- Once it has looked at what is pending, the first reading has caught up. -/
theorem settle (h : Behind flag w w') : Matches (Lacks flag) w.settle w'.settle := by
  cases h with
  | even h => exact h.settle hflag
  | late hsettle h =>
    rw [hsettle, settle_of_none (h.pending ▸ (settle_eq_ok hsettle).1)]
    exact .of_ok h

theorem option (h : Behind flag w w') (name : String) (value? : Option String) :
    Matches (Lacks flag) (w.option name value?) (w'.option name value?) := by
  unfold Words.option
  cases Key.named.lookup name with
  | none => exact .of_error _ _
  | some k =>
    cases value? with
    | some value =>
      dsimp only
      split
      · exact (h.settle hflag).bind fun u u' hu => hu.accept hflag k value
      · exact .of_error _ _
    | none =>
      refine (h.settle hflag).bind ?_
      intro u u' hu
      split
      · exact .of_ok (hu.with_pending _)
      · cases k
        case help | version => exact .of_error _ _
        all_goals exact hu.accept hflag _ _

theorem letters (h : Behind flag w w') (first : Char) :
    Matches (Lacks flag) (w.letters first) (w'.letters first) := by
  unfold Words.letters
  split
  · exact (h.settle hflag).bind fun _ _ _ => .of_error _ _
  · split
    · exact (h.settle hflag).bind fun _ _ _ => .of_error _ _
    · exact .of_error _ _

theorem plainWord (h : Behind flag w w') (word : String) :
    Matches (Lacks flag) (w.plainWord word) (w'.plainWord word) := by
  unfold Words.plainWord
  rw [h.domainSeen]
  split
  · exact .of_error _ _
  · intro v' hv
    obtain ⟨u', hu', rfl⟩ := map_eq_ok_iff.1 hv
    obtain ⟨u, hu, hlacks⟩ := h.settle hflag u' hu'
    refine ⟨_, map_eq_ok_iff.2 ⟨u, hu, rfl⟩, ?_⟩
    exact ⟨hlacks.given, hlacks.flagged, rfl, rfl, hlacks.plain⟩

/-- A word without dashes is the value that is waited for, if one is. -/
theorem bareWord (h : Behind flag w w') (word : String) : Matches (Behind flag)
    (match w.pending with
      | some (k, none) => .ok { w with pending := some (k, some word) }
      | _ => w.plainWord word)
    (match w'.pending with
      | some (k, none) => .ok { w' with pending := some (k, some word) }
      | _ => w'.plainWord word) := by
  have hplain := (h.plainWord hflag word).imp fun v v' => Behind.even
  cases h with
  | even h =>
    rw [h.pending]
    match w'.pending with
    | some (k, none) => exact .of_ok (.even (h.with_pending _))
    | some (k, some value) => exact hplain
    | none => exact hplain
  | late hsettle h =>
    rw [← h.pending, (settle_eq_ok hsettle).1]
    match hpending : w.pending with
    | some (k, none) =>
      rw [Words.settle, hpending] at hsettle
      cases hsettle
    | some (k, some value) => exact hplain
    | none => exact hplain

/-- One word more. -/
theorem next (h : Behind flag w w') (word : String) : Matches (Behind flag) (w.next word) (w'.next word) := by
  have heven : ∀ v v', Lacks flag v v' → Behind flag v v' := fun v v' => .even
  unfold Words.next
  by_cases hplain : w'.plain = true
  · rw [if_pos (h.plain.trans hplain), if_pos hplain]
    exact (h.plainWord hflag word).imp heven
  · rw [if_neg (h.plain ▸ hplain), if_neg hplain]
    split
    · exact .of_ok h.plain_true
    · dsimp only
      split
      · exact (h.option hflag _ _).imp heven
      · exact (h.option hflag _ _).imp heven
    · exact (h.letters hflag _).imp heven
    · exact h.bareWord hflag word

/-- All the words that follow. -/
theorem foldlM (h : Behind flag w w') (words : List String) :
    Matches (Behind flag) (words.foldlM Words.next w) (words.foldlM Words.next w') := by
  induction words generalizing w w' with
  | nil => exact .of_ok h
  | cons word words ih =>
    rw [List.foldlM_cons, List.foldlM_cons]
    exact (h.next hflag word).bind fun v v' hv => ih hv

end Behind
end

/-! The flag that has a filter shown and not sent. -/

theorem mem_of_accept {w v : Words} {k : Key} {value : String} (h : w.accept k value = .ok v) : v.has k = true := by
  obtain ⟨_, _, rfl⟩ := accept_eq_ok_iff.1 h
  rw [has, List.any_append]
  simp

/-- A flag that is accepted was not given before. -/
theorem Lacks.of_accept {w w' : Words} {flag : Key} {value : String} (hflag : flag.repeats = false)
    (h : w.accept flag value = .ok w') : Lacks flag w w' := by
  have hflagged := mem_of_accept h
  obtain ⟨hfree, _, rfl⟩ := accept_eq_ok_iff.1 h
  refine ⟨?_, hflagged, rfl, rfl, rfl⟩
  rw [hflag] at hfree
  have hnew : w.has flag = false := by simpa using hfree
  rw [has, List.any_eq_false] at hnew
  have hkept : w.given.filter (·.1 != flag) = w.given := by
    rw [List.filter_eq_self]
    intro e he
    simpa using hnew e he
  simp [List.filter_append, hkept]

theorem next_compileOnly {w : Words} (h : w.plain = false) :
    w.next "--compile-only" = w.settle.bind fun w => w.accept .compileOnly "" := by
  rw [next, h]
  rfl

/-- After two dashes there are no more flags, and the word names no domain. -/
theorem settle_ne_ok_of_plain {w w' v : Words} (hplain : w.plain = true) (hnext : w.next "--compile-only" = .ok w')
    {words : List String} (hrun : words.foldlM next w' = .ok v) (u : Words) : v.settle ≠ .ok u := by
  rw [next, if_pos hplain, plainWord] at hnext
  split at hnext
  · cases hnext
  · obtain ⟨seen, hseen, rfl⟩ := map_eq_ok_iff.1 hnext
    cases words with
    | nil =>
      obtain rfl := Except.ok.inj hrun
      intro h
      rw [settle_of_some rfl] at h
      obtain ⟨_, hfault, _⟩ := accept_eq_ok_iff.1 h
      exact absurd hfault (by decide)
    | cons word words =>
      have hword : next { seen with pending := some (.domain, some "--compile-only"), domainSeen := true } word =
          .error .unknownArgument := by
        rw [next, if_pos ((settle_eq_ok hseen).2.2.trans hplain), plainWord, if_pos rfl]
      rw [List.foldlM_cons, hword] at hrun
      cases hrun

theorem Lacks.fromEnvironment {w w' : Words} {flag k : Key} (h : Lacks flag w w') (hk : k ≠ flag)
    (value? : Option String) : Lacks flag (w.fromEnvironment k value?) (w'.fromEnvironment k value?) := by
  cases value? with
  | none => exact h
  | some value =>
    unfold Words.fromEnvironment
    dsimp only
    rw [h.has_eq hk]
    split
    · exact h
    · refine ⟨?_, ?_, h.pending, h.domainSeen, h.plain⟩
      · simp [h.given, hk]
      · have hany : w'.given.any (·.1 == flag) = true := h.flagged
        rw [has, List.any_append, hany, Bool.true_or]

theorem Lacks.complete {w w' : Words} (h : Lacks .compileOnly w w') :
    Matches (Lacks .compileOnly) w.complete w'.complete := by
  unfold Words.complete
  simp only [h.has_eq, ne_eq, reduceCtorEq, not_false_eq_true]
  split
  · exact .of_error _ _
  · split
    · exact .of_error _ _
    · exact .of_ok h

theorem read_eq (url? apiKey? : Option String) (words : List String) : read url? apiKey? words =
    (words.foldlM next {}).bind fun w => w.settle.bind fun w =>
      ((w.fromEnvironment .url url?).fromEnvironment .apiKey apiKey?).complete := rfl

theorem read_compileOnly (url? apiKey? : Option String) (before after : List String) :
    Matches (Lacks .compileOnly) (read url? apiKey? (before ++ after))
      (read url? apiKey? (before ++ "--compile-only" :: after)) := by
  rw [read_eq, read_eq, List.foldlM_append, List.foldlM_append]
  cases hbefore : before.foldlM next {} with
  | error u => exact .of_error _ _
  | ok w =>
    change Matches _ ((after.foldlM next w).bind _) ((List.foldlM next w ("--compile-only" :: after)).bind _)
    rw [List.foldlM_cons]
    intro v' hv
    obtain ⟨r', hr, hrest⟩ := bind_eq_ok_iff.1 hv
    obtain ⟨w', hflag, hafter⟩ := bind_eq_ok_iff.1 hr
    cases hplain : w.plain with
    | true =>
      obtain ⟨u, hu, _⟩ := bind_eq_ok_iff.1 hrest
      exact absurd hu (settle_ne_ok_of_plain hplain hflag hafter u)
    | false =>
      rw [next_compileOnly hplain] at hflag
      obtain ⟨u, hu, haccept⟩ := bind_eq_ok_iff.1 hflag
      have hbehind : Behind .compileOnly w w' := .late hu (.of_accept rfl haccept)
      -- The words after the flag carry the two readings on, and at their end the first catches up.
      obtain ⟨r, hr, hbehind⟩ := hbehind.foldlM rfl after r' hafter
      rw [hr]
      refine (hbehind.settle rfl).bind ?_ v' hrest
      intro u u' hu
      exact ((hu.fromEnvironment (by decide) url?).fromEnvironment (by decide) apiKey?).complete

end Words

theorem Options.ofWords_of_lacks {w w' : Words} (h : w.Lacks .compileOnly w') (d : Domain) :
    ofWords d w = { ofWords d w' with compileOnly := false } ∧ (ofWords d w').compileOnly = true := by
  refine ⟨?_, h.flagged⟩
  simp [ofWords, h.value?_eq, h.has_eq, h.has_flag, h.values_eq]

/-- A command line that is read with the flag is read without it, wherever it stands, and comes to the same options but
for the flag. -/
theorem Options.parse?_compileOnly {url? apiKey? : Option String} {before after : List String} {o : Options}
    (h : parse? url? apiKey? (before ++ "--compile-only" :: after) = .ok o) :
    o.compileOnly = true ∧ parse? url? apiKey? (before ++ after) = .ok { o with compileOnly := false } := by
  obtain ⟨w', hread, hdomain⟩ := bind_eq_ok_iff.1 h
  obtain ⟨w, hw, hlacks⟩ := Words.read_compileOnly url? apiKey? before after w' hread
  cases hd : (w'.value? .domain).bind Domain.ofWord? with
  | none =>
    rw [hd] at hdomain
    cases hdomain
  | some d =>
    rw [hd] at hdomain
    obtain rfl := Except.ok.inj hdomain
    obtain ⟨heq, hflag⟩ := ofWords_of_lacks hlacks d
    refine ⟨hflag, bind_eq_ok_iff.2 ⟨w, hw, ?_⟩⟩
    rw [hlacks.value?_eq (by decide), hd, ← heq]

end RecordSource.Command
