import RecordSource.Proofs.Filter.Grammar

/-!
Reading accepts exactly what the grammar derives. One way, a reading stands for derivations of the tokens it has
taken, and every token it takes keeps that so. The other way, every phrase carries a reading over its tokens.
-/
namespace RecordSource.Filter

/-! What a reading stands for. -/

namespace Level

/-- The tokens since a level was opened, up to where an item may begin. -/
def Opens (l : Level) (ts : List Token) : Prop :=
  ∃ as is, ts = as ++ is ++ List.replicate l.negations .not ∧
    Followed .or .conjunction as l.alternatives.reverse ∧ Followed .and .unary is l.items.reverse

/-- The tokens since a level was opened, up to the end of an item. -/
def Closes (l : Level) (ts : List Token) : Prop :=
  l.negations = 0 ∧ ∃ as is, ts = as ++ is ∧
    Followed .or .conjunction as l.alternatives.reverse ∧ Derives is (.conjuncts l.items.reverse)

theorem opens_empty : Opens {} [] := ⟨[], [], by simp, .nil, .nil⟩

theorem Opens.not {l : Level} {ts : List Token} (h : l.Opens ts) :
    Opens { l with negations := l.negations + 1 } (ts ++ [.not]) := by
  obtain ⟨as, is, rfl, ha, hi⟩ := h
  exact ⟨as, is, by simp [List.replicate_succ'], ha, hi⟩

theorem derives_negate {us : List Token} {e : Expr} (h : Derives us (.unary e)) (n : Nat) :
    Derives (List.replicate n .not ++ us) (.unary (negate n e)) := by
  induction n with
  | zero => simpa [negate] using h
  | succ n ih => simpa [negate, List.replicate_succ] using ih.not

theorem Opens.add {l : Level} {ts us : List Token} {e : Expr} (h : l.Opens ts) (he : Derives us (.unary e)) :
    (l.add e).Closes (ts ++ us) := by
  obtain ⟨as, is, rfl, ha, hi⟩ := h
  have hitems := hi.close .conjuncts .conjunct .moreConjuncts (derives_negate he l.negations)
  exact ⟨rfl, as, is ++ (List.replicate l.negations .not ++ us), by simp, ha, by simpa [Level.add] using hitems⟩

theorem Closes.and {l : Level} {ts : List Token} (h : l.Closes ts) : l.Opens (ts ++ [.and]) := by
  obtain ⟨hn, as, is, rfl, ha, hi⟩ := h
  exact ⟨as, is ++ [.and], by simp [hn], ha, hi.conjuncts_followed⟩

theorem Closes.or {l : Level} {ts : List Token} (h : l.Closes ts) : l.alternative.Opens (ts ++ [.or]) := by
  obtain ⟨_, as, is, rfl, ha, hi⟩ := h
  have hs := ha.snoc hi.conjunction
  exact ⟨as ++ is ++ [.or], [], by simp [alternative], by simpa [alternative] using hs, .nil⟩

theorem Closes.disjunction {l : Level} {ts : List Token} (h : l.Closes ts) :
    Derives ts (.disjunction l.close) := by
  obtain ⟨_, as, is, rfl, ha, hi⟩ := h
  have hs := ha.close .disjuncts .disjunct .moreDisjuncts hi.conjunction
  simpa [close, alternative] using hs.disjunction

end Level

/-- The tokens before the innermost level, up to and with its parenthesis. -/
inductive Stacked : List Level → List Token → Prop
  | nil : Stacked [] []
  | cons {l outer us ts} (h : l.Opens ts) (rest : Stacked outer us) :
    Stacked (l :: outer) (us ++ ts ++ [.openParen])

/-- The tokens of the innermost level. -/
def Stage.Reads (level : Level) : Stage → List Token → Prop
  | .item, ts => level.Opens ts
  | .named n, ts => ∃ us, ts = us ++ [.name n] ∧ level.Opens us
  | .value field op, ts => ∃ us, ts = us ++ [.name field, .compare op] ∧ level.Opens us
  | .argument n args, ts => ∃ us vs, ts = us ++ .name n :: .openParen :: vs ∧ level.Opens us ∧
      Followed .comma .operand vs args
  | .argumentEnd n args, ts => ∃ us vs, ts = us ++ .name n :: .openParen :: vs ∧ level.Opens us ∧
      Derives vs (.arguments args)
  | .finished, ts => level.Closes ts

namespace Reading

/-- The tokens that a reading has taken. -/
def Reads (r : Reading) (ts : List Token) : Prop :=
  ∃ us vs, ts = us ++ vs ∧ Stacked r.outer us ∧ r.stage.Reads r.level vs

theorem operand?_eq_some_iff {t : Token} {v : Operand} : operand? t = some v ↔ t = v.token := by
  cases t <;> cases v <;> simp [operand?, Operand.token]

theorem afterItem_reads {level : Level} {outer : List Level} {us vs : List Token} {t : Token} {r : Reading}
    (ho : Stacked outer us) (hl : level.Closes vs) (h : afterItem level outer t = .ok r) :
    r.Reads (us ++ vs ++ [t]) := by
  cases t with
  | or =>
    cases h
    exact ⟨us, vs ++ [Token.or], by simp, ho, hl.or⟩
  | and =>
    cases h
    exact ⟨us, vs ++ [Token.and], by simp, ho, hl.and⟩
  | closeParen =>
    cases ho with
    | nil => cases h
    | cons hup rest =>
      cases h
      exact ⟨_, _, by simp, rest, hup.add hl.disjunction.parentheses.primary⟩
  | _ => cases h

theorem clause_reads {r : Reading} {c : Clause} {us vs ws : List Token} (ho : Stacked r.outer us)
    (hl : r.level.Opens vs) (hc : Derives ws (.clause c)) :
    Reads { r with stage := .finished, level := r.level.add (.clause c) } (us ++ (vs ++ ws)) :=
  ⟨us, vs ++ ws, rfl, ho, hl.add hc.clause.primary⟩

/-- A token that a reading takes is one more token that it stands for. -/
theorem Reads.next {r r' : Reading} {ts : List Token} {t : Token} (h : r.Reads ts) (hn : r.next t = .ok r') :
    r'.Reads (ts ++ [t]) := by
  obtain ⟨us, vs, rfl, ho, hs⟩ := h
  obtain ⟨stage, level, outer⟩ := r
  cases stage with
  | item =>
    cases t with
    | not =>
      cases hn
      exact ⟨us, vs ++ [Token.not], by simp, ho, hs.not⟩
    | openParen =>
      cases hn
      exact ⟨us ++ vs ++ [.openParen], [], by simp, .cons hs ho, Level.opens_empty⟩
    | name n =>
      cases hn
      exact ⟨us, vs ++ [.name n], by simp, ho, vs, rfl, hs⟩
    | _ => cases hn
  | named n =>
    obtain ⟨ws, rfl, hw⟩ := hs
    cases t with
    | compare op =>
      cases hn
      exact ⟨us, ws ++ [.name n, .compare op], by simp, ho, ws, rfl, hw⟩
    | openParen =>
      cases hn
      exact ⟨us, ws ++ [.name n, .openParen], by simp, ho, ws, [], rfl, hw, .nil⟩
    | _ => exact afterItem_reads ho (hw.add Derives.term.clause.primary) hn
  | value field op =>
    obtain ⟨ws, rfl, hw⟩ := hs
    simp only [Reading.next] at hn
    split at hn
    · next v hv =>
      cases hn
      obtain rfl := operand?_eq_some_iff.1 hv
      have hc : Derives [.name field, .compare op, v.token] (.clause (.compare field op v)) :=
        .comparison (.operand v)
      simpa using clause_reads ho hw hc
    · cases hn
  | argument n args =>
    obtain ⟨ws, as, rfl, hw, ha⟩ := hs
    simp only [Reading.next] at hn
    split at hn
    · next v hv =>
      cases hn
      obtain rfl := operand?_eq_some_iff.1 hv
      have hargs := ha.close .arguments .argument .moreArguments (Derives.operand v)
      exact ⟨us, ws ++ .name n :: .openParen :: (as ++ [v.token]), by simp, ho, ws, as ++ [v.token], rfl, hw, hargs⟩
    · split at hn
      · next hc =>
        cases hn
        obtain ⟨rfl, rfl⟩ := hc
        cases ha
        simpa using clause_reads ho hw (Derives.emptyCall (n := n))
      · cases hn
  | argumentEnd n args =>
    obtain ⟨ws, as, rfl, hw, ha⟩ := hs
    cases t with
    | closeParen =>
      cases hn
      simpa using clause_reads ho hw (Derives.call (n := n) ha)
    | comma =>
      cases hn
      exact ⟨us, ws ++ .name n :: .openParen :: (as ++ [.comma]), by simp, ho, ws, as ++ [.comma], rfl, hw,
        ha.arguments_followed⟩
    | _ => cases hn
  | finished => exact afterItem_reads ho hs hn

/-- Where a reading may end, it stands for a derivation of all it has taken. -/
theorem Reads.result {r : Reading} {ts : List Token} {e : Expr} (h : r.Reads ts) (he : r.result = .ok e) :
    Derives ts (.disjunction e) := by
  obtain ⟨us, vs, rfl, ho, hs⟩ := h
  obtain ⟨stage, level, outer⟩ := r
  cases ho with
  | cons => cases stage <;> simp [Reading.result] at he
  | nil =>
    cases stage with
    | named n =>
      obtain ⟨ws, rfl, hw⟩ := hs
      simp only [Reading.result, List.isEmpty_nil, if_true, Except.ok.injEq] at he
      subst he
      exact (hw.add Derives.term.clause.primary).disjunction
    | finished =>
      simp only [Reading.result, List.isEmpty_nil, if_true, Except.ok.injEq] at he
      subst he
      exact hs.disjunction
    | _ => simp [Reading.result] at he

/-! How phrases carry a reading. -/

/-- Takes tokens in one after another. -/
def feed (r : Reading) : List Token → Except Problem Reading
  | [] => .ok r
  | t :: ts => (r.next t).bind fun r => feed r ts

theorem feed_append (r : Reading) (ts us : List Token) :
    r.feed (ts ++ us) = (r.feed ts).bind fun r => r.feed us := by
  induction ts generalizing r with
  | nil => rfl
  | cons t ts ih =>
    simp only [List.cons_append, feed]
    cases r.next t with
    | error => rfl
    | ok r => exact ih r

theorem feed_append_of_ok {r s : Reading} {ts : List Token} (h : r.feed ts = .ok s) (us : List Token) :
    r.feed (ts ++ us) = s.feed us := by
  rw [feed_append, h]
  rfl

/-- A finished item. A name alone is one only if the next token does not make more of it. -/
inductive Ends (level : Level) (outer : List Level) : Reading → Prop
  | finished : Ends level outer ⟨.finished, level, outer⟩
  | named {l n} (h : l.add (.clause (.term n)) = level) : Ends level outer ⟨.named n, l, outer⟩

namespace Ends
variable {level : Level} {outer : List Level} {r : Reading}

theorem next_and (h : Ends level outer r) : r.next .and = .ok { level, outer } := by
  cases h with
  | finished => rfl
  | named h => subst h; rfl

theorem next_or (h : Ends level outer r) : r.next .or = .ok { level := level.alternative, outer } := by
  cases h with
  | finished => rfl
  | named h => subst h; rfl

theorem next_closeParen {up : Level} (h : Ends level (up :: outer) r) :
    r.next .closeParen = .ok { stage := .finished, level := up.add (.group level.close), outer } := by
  cases h with
  | finished => rfl
  | named h => subst h; rfl

theorem result (h : Ends level [] r) : r.result = .ok level.close := by
  cases h with
  | finished => rfl
  | named h => subst h; rfl

end Ends

/-- Reading on from the start of an item ends in the given level. -/
def Carries (level : Level) (ts : List Token) (done : Level) : Prop :=
  ∀ outer, ∃ r, feed { level, outer } ts = .ok r ∧ Ends done outer r

theorem operand?_token (v : Operand) : operand? v.token = some v := operand?_eq_some_iff.2 rfl

end Reading

/-- How a reading goes over the tokens of a phrase. -/
def Phrase.Carried (ts : List Token) : Phrase → Prop
  | .operand v => ts = [v.token]
  | .arguments vs => ∀ n args level outer, Reading.feed ⟨.argument n args, level, outer⟩ ts =
      .ok ⟨.argumentEnd n (args ++ vs), level, outer⟩
  | .clause c => ∀ level, Reading.Carries level ts (level.add (.clause c))
  | .primary e | .unary e => ∀ level, Reading.Carries level ts (level.add e)
  | .conjuncts es => ∀ as is, Reading.Carries ⟨as, is, 0⟩ ts ⟨as, es.reverse ++ is, 0⟩
  | .conjunction e => ∀ as, ∃ done, Reading.Carries ⟨as, [], 0⟩ ts done ∧ done.alternative = ⟨e :: as, [], 0⟩
  | .disjuncts es => ∀ as, ∃ done, Reading.Carries ⟨as, [], 0⟩ ts done ∧
      done.alternative = ⟨es.reverse ++ as, [], 0⟩
  | .disjunction e => ∃ done, Reading.Carries {} ts done ∧ done.close = e

namespace Reading

theorem Carries.seq {level done : Level} {ts us : List Token} {t : Token} {middle : Level}
    (h : Carries level ts middle) (next : Level)
    (ht : ∀ {outer r}, Ends middle outer r → r.next t = .ok { level := next, outer })
    (hs : Carries next us done) : Carries level (ts ++ t :: us) done := by
  intro outer
  obtain ⟨r, hr, he⟩ := h outer
  obtain ⟨s, hs, hd⟩ := hs outer
  refine ⟨s, ?_, hd⟩
  rw [feed_append_of_ok hr, feed, ht he]
  exact hs

theorem Carries.parentheses {level done : Level} {ts : List Token} (h : Carries {} ts done) :
    Carries level (.openParen :: (ts ++ [.closeParen])) (level.add (.group done.close)) := by
  intro outer
  obtain ⟨r, hr, he⟩ := h (level :: outer)
  refine ⟨_, ?_, .finished⟩
  change feed { outer := level :: outer } (ts ++ [.closeParen]) = _
  rw [feed_append_of_ok hr, feed, he.next_closeParen]
  rfl

theorem carries_call {level : Level} {n : String} {ts : List Token} {vs : List Operand}
    (h : Phrase.Carried ts (.arguments vs)) :
    Carries level (.name n :: .openParen :: (ts ++ [.closeParen])) (level.add (.clause (callOf n vs))) := by
  intro outer
  refine ⟨_, ?_, .finished⟩
  change feed ⟨.argument n [], level, outer⟩ (ts ++ [.closeParen]) = _
  rw [feed_append_of_ok (h n [] level outer)]
  rfl

end Reading

theorem Level.negate_not (n : Nat) (e : Expr) : negate n (.not e) = .not (negate n e) := by
  induction n with
  | zero => rfl
  | succ n ih => rw [negate, negate, ih]

theorem Derives.carried {ts : List Token} {p : Phrase} (h : Derives ts p) : p.Carried ts := by
  induction h with
  | literal | name => rfl
  | @argument ts v _ ih =>
    intro n args level outer
    obtain rfl : ts = [v.token] := ih
    simp [Reading.feed, Reading.next, Reading.operand?_token, Except.bind]
  | @moreArguments ts us v vs _ _ ih more =>
    intro n args level outer
    obtain rfl : ts = [v.token] := ih
    have hrest := more n (args ++ [v]) level outer
    simpa [Reading.feed, Reading.next, Reading.operand?_token, Except.bind] using hrest
  | @comparison field op ts v _ ih =>
    intro level outer
    obtain rfl : ts = [v.token] := ih
    refine ⟨_, ?_, .finished⟩
    simp [Reading.feed, Reading.next, Reading.operand?_token, Except.bind]
  | emptyCall => exact fun level outer => ⟨_, rfl, .finished⟩
  | call _ ih => exact fun level => Reading.carries_call ih
  | term => exact fun level outer => ⟨_, rfl, .named rfl⟩
  | parentheses _ ih =>
    intro level
    obtain ⟨done, hc, rfl⟩ := ih
    exact hc.parentheses
  | clause _ ih => exact ih
  | @not ts e _ ih =>
    intro level outer
    have hadd : Level.add { level with negations := level.negations + 1 } e = level.add (.not e) := by
      simp [Level.add, Level.negate, Level.negate_not]
    obtain ⟨r, hr, he⟩ := ih { level with negations := level.negations + 1 } outer
    exact ⟨r, hr, hadd ▸ he⟩
  | primary _ ih => exact ih
  | conjunct _ ih => exact fun as is => ih ⟨as, is, 0⟩
  | @moreConjuncts ts us e es _ _ ih more =>
    intro as is
    have hfirst : Reading.Carries ⟨as, is, 0⟩ ts ⟨as, e :: is, 0⟩ := ih ⟨as, is, 0⟩
    have hrest := more as (e :: is)
    simp only [List.reverse_cons, List.append_assoc, List.singleton_append]
    exact hfirst.seq _ (fun he => he.next_and) hrest
  | conjunction _ ih => exact fun as => ⟨_, ih as [], by simp [Level.alternative]⟩
  | disjunct _ ih => exact ih
  | @moreDisjuncts ts us e es _ _ ih more =>
    intro as
    obtain ⟨middle, hfirst, hmiddle⟩ := ih as
    obtain ⟨done, hrest, hdone⟩ := more (e :: as)
    refine ⟨done, ?_, by simpa using hdone⟩
    exact hfirst.seq _ (fun he => he.next_or) (hmiddle ▸ hrest)
  | disjunction _ ih =>
    obtain ⟨done, hc, hdone⟩ := ih []
    exact ⟨done, hc, by simp [Level.close, hdone]⟩

namespace Reading

theorem run_eq_ok_iff {ending : Nat} {r : Reading} {ps : List Placed} {e : Expr} :
    run ending r ps = .ok e ↔ ∃ s, r.feed (ps.map Placed.token) = .ok s ∧ s.result = .ok e := by
  induction ps generalizing r with
  | nil => simp [run, feed, Outcome.mapError_eq_ok_iff]
  | cons p ps ih =>
    cases h : r.next p.token with
    | error => simp [run, feed, h, Except.bind]
    | ok r' => simp only [run, feed, h, List.map_cons, ih]; rfl

theorem Reads.feed {r s : Reading} {ts us : List Token} (h : r.Reads ts) (hs : r.feed us = .ok s) :
    s.Reads (ts ++ us) := by
  induction us generalizing r ts with
  | nil =>
    cases hs
    simpa using h
  | cons u us ih =>
    obtain ⟨r', hr, hrest⟩ := Outcome.bind_eq_ok_iff.1 hs
    simpa using ih (h.next hr) hrest

/-- A run gives exactly the trees that the grammar derives from its tokens. -/
theorem run_iff_derives {ending : Nat} {ps : List Placed} {e : Expr} :
    run ending {} ps = .ok e ↔ Derives (ps.map Placed.token) (.disjunction e) := by
  rw [run_eq_ok_iff]
  constructor
  · rintro ⟨s, hs, he⟩
    have hstart : Reads {} [] := ⟨[], [], rfl, .nil, Level.opens_empty⟩
    exact (hstart.feed hs).result he
  · intro h
    obtain ⟨done, hc, rfl⟩ := h.carried
    obtain ⟨s, hs, he⟩ := hc []
    exact ⟨s, hs, he.result⟩

theorem run_malformed_of_error {ending : Nat} {r : Reading} {ps : List Placed} {f : Fault}
    (h : run ending r ps = .error f) : ∃ offset problem, f = .malformed offset problem := by
  induction ps generalizing r with
  | nil =>
    obtain ⟨problem, _, rfl⟩ := (Outcome.mapError_eq_error_iff _).1 h
    exact ⟨ending, problem, rfl⟩
  | cons p ps ih =>
    cases hr : r.next p.token with
    | error problem => exact ⟨p.offset, problem, by simpa [run, hr] using h.symm⟩
    | ok r' => exact ih (by simpa [run, hr] using h)

end Reading

theorem parse?_of_scan {text : String} {ps : List Placed} (h : scan text = .ok ps) :
    Expr.parse? text = Reading.run text.utf8ByteSize {} ps := by
  rw [Expr.parse?, h]

/-! Faults of reading. Whatever cannot be read is malformed at some place. -/

namespace Lexeme

theorem literal?_malformed_of_error {start pos : Nat} {cs : List Char} {f : Fault}
    (h : literal? start pos cs = .error f) : ∃ offset problem, f = .malformed offset problem := by
  fun_induction literal? start pos cs with
  | case1 | case3 | case4 =>
    cases h
    exact ⟨_, _, rfl⟩
  | case2 => cases h
  | case5 _ _ _ _ _ _ ih | case6 _ _ _ _ _ ih => exact ih (Outcome.map_eq_error_iff.1 h)

theorem read?_malformed_of_error {pos : Nat} {c : Char} {cs : List Char} {f : Fault} (h : read? pos c cs = .error f) :
    ∃ offset problem, f = .malformed offset problem := by
  unfold read? at h
  split at h
  case h_1 | h_2 | h_3 => cases h
  case h_10 => exact literal?_malformed_of_error (Outcome.map_eq_error_iff.1 h)
  case h_11 =>
    split at h
    · split at h <;> cases h
      exact ⟨_, _, rfl⟩
    · cases h
      exact ⟨_, _, rfl⟩
  all_goals
    split at h <;> cases h <;> exact ⟨_, _, rfl⟩

end Lexeme

theorem scanFrom_malformed_of_error {pos : Nat} {cs : List Char} {f : Fault} (h : scanFrom pos cs = .error f) :
    ∃ offset problem, f = .malformed offset problem := by
  fun_induction scanFrom pos cs with
  | case1 => cases h
  | case2 _ _ _ _ ih => exact ih h
  | case3 _ _ _ _ fault hread =>
    cases h
    exact Lexeme.read?_malformed_of_error hread
  | case4 _ _ _ _ _ _ ih => exact ih (Outcome.map_eq_error_iff.1 h)

/-- A text that cannot be read is malformed at some place. -/
theorem Expr.parse?_malformed_of_error {text : String} {f : Fault} (h : parse? text = .error f) :
    ∃ offset problem, f = .malformed offset problem := by
  cases hscan : scan text with
  | error f' =>
    rw [parse?, hscan] at h
    cases h
    exact scanFrom_malformed_of_error hscan
  | ok ps =>
    rw [parse?_of_scan hscan] at h
    exact Reading.run_malformed_of_error h

/-- Reading a text gives a tree exactly if the grammar derives that tree from all its tokens. No tokens have two
trees, and where they have none the text is refused as malformed. -/
theorem parse?_exactly_grammar {text : String} {ps : List Placed} (h : scan text = .ok ps) :
    (∀ e, Expr.parse? text = .ok e ↔ Derives (ps.map Placed.token) (.disjunction e)) ∧
    (∀ e e', Derives (ps.map Placed.token) (.disjunction e) → Derives (ps.map Placed.token) (.disjunction e') →
      e = e') ∧
    ((∀ e, ¬ Derives (ps.map Placed.token) (.disjunction e)) →
      ∃ offset problem, Expr.parse? text = .error (.malformed offset problem)) := by
  rw [parse?_of_scan h]
  refine ⟨fun e => Reading.run_iff_derives, ?_, ?_⟩
  · intro e e' he he'
    have hrun : Reading.run 0 {} ps = .ok e := Reading.run_iff_derives.2 he
    rw [Reading.run_iff_derives.2 he'] at hrun
    exact (Except.ok.inj hrun).symm
  · intro hnone
    cases hrun : Reading.run text.utf8ByteSize {} ps with
    | ok e => exact absurd (Reading.run_iff_derives.1 hrun) (hnone e)
    | error f =>
      obtain ⟨offset, problem, rfl⟩ := Reading.run_malformed_of_error hrun
      exact ⟨offset, problem, rfl⟩

theorem parse?_exactly_grammar_negated_group :
    let text := "!(a = \"1\") || b.Has(c)"
    let e := Expr.or [.not (.group (.clause (.compare "a" .eq (.quoted "1")))), .clause (.call "b" "Has" [.bare "c"])]
    ∃ ps, scan text = .ok ps ∧ Expr.parse? text = .ok e ∧ Derives (ps.map Placed.token) (.disjunction e) := by
  intro text e
  have hscan : scan text = .ok [⟨0, .not⟩, ⟨1, .openParen⟩, ⟨2, .name "a"⟩, ⟨4, .compare .eq⟩, ⟨6, .literal "1"⟩,
      ⟨9, .closeParen⟩, ⟨11, Token.or⟩, ⟨14, .name "b.Has"⟩, ⟨19, .openParen⟩, ⟨20, .name "c"⟩, ⟨21, .closeParen⟩] :=
    Outcome.toOption_eq_some_iff.1 (by decide +kernel)
  have hparse : Expr.parse? text = .ok e := Outcome.toOption_eq_some_iff.1 (by decide +kernel)
  exact ⟨_, hscan, hparse, ((parse?_exactly_grammar hscan).1 e).1 hparse⟩

end RecordSource.Filter
