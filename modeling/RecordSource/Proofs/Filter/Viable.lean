import RecordSource.Proofs.Filter.Boundary

/-!
Where a text that cannot be read goes wrong. Whatever a reading has taken can be completed to a text that can be read, so
it stops at the first token after which nothing can be; or it runs out of tokens where more are needed.
-/
namespace RecordSource.Filter

/-- The tokens of a text that can be read. -/
def Accepted (ts : List Token) : Prop := ∃ text e, tokens? text = .ok ts ∧ Expr.parse? text = .ok e

/-- Tokens that those of a text that can be read begin with. -/
def Viable (ts : List Token) : Prop := ∃ us, Accepted (ts ++ us)

/-! Writable tokens have a text. -/

theorem Token.endsBefore_space (t : Token) (cs : List Char) : t.EndsBefore (' ' :: cs) := by
  cases t with
  | name => exact Lexeme.stops_cons rfl (by decide) cs
  | compare op => cases op <;> simp [EndsBefore]
  | _ => simp [EndsBefore]

theorem exists_layout {ts : List Token} (h : ∀ t ∈ ts, t.Writable) : ∃ cs, Layout ts cs := by
  induction ts with
  | nil => exact ⟨[], .nil⟩
  | cons t ts ih =>
    rw [List.forall_mem_cons] at h
    obtain ⟨cs, hcs⟩ := ih h.2
    exact ⟨t.spell ++ ' ' :: cs, .token h.1 (t.endsBefore_space cs) hcs.space⟩

theorem accepted_iff {ts : List Token} :
    Accepted ts ↔ (∀ t ∈ ts, t.Writable) ∧ ∃ e, Derives ts (.disjunction e) := by
  constructor
  · rintro ⟨text, e, hts, he⟩
    obtain ⟨us, hus, hderives⟩ := parse?_eq_ok_iff.1 he
    rw [hts] at hus
    cases hus
    exact ⟨tokens?_writable hts, e, hderives⟩
  · rintro ⟨hw, e, he⟩
    obtain ⟨cs, hcs⟩ := exists_layout hw
    exact ⟨_, e, hcs.tokens?, parse?_eq_ok_iff.2 ⟨ts, hcs.tokens?, he⟩⟩

/-! Every reading can be completed. -/

/-- Tokens that finish what the last ones began. -/
def Stage.completion : Stage → List Token
  | .item | .value _ _ => [.name "x"]
  | .argument _ _ => [.name "x", .closeParen]
  | .argumentEnd _ _ => [.closeParen]
  | .named _ | .finished => []

namespace Reading

/-- Tokens that finish the item under way and close all parentheses. -/
def completion (r : Reading) : List Token := r.stage.completion ++ List.replicate r.outer.length .closeParen

theorem completion_writable (r : Reading) : ∀ t ∈ r.completion, t.Writable := by
  have hname : IsName ['x'] := by decide
  have hstage : ∀ t ∈ r.stage.completion, t.Writable := by
    cases r.stage <;> simp [Stage.completion, hname, Token.Writable]
  intro t ht
  rcases List.mem_append.1 ht with h | h
  · exact hstage t h
  · rw [List.eq_of_mem_replicate h]
    trivial

theorem exists_ends (r : Reading) : ∃ level s, r.feed r.stage.completion = .ok s ∧ Ends level r.outer s := by
  obtain ⟨stage, level, outer⟩ := r
  cases stage with
  | item | named => exact ⟨_, _, rfl, .named rfl⟩
  | value | argument | argumentEnd | finished => exact ⟨_, _, rfl, .finished⟩

theorem Ends.exists_result {level : Level} {outer : List Level} {r : Reading} (h : Ends level outer r) :
    ∃ s e, r.feed (List.replicate outer.length .closeParen) = .ok s ∧ s.result = .ok e := by
  induction outer generalizing level r with
  | nil => exact ⟨r, level.close, rfl, h.result⟩
  | cons up outer ih =>
    have hclosed : Ends (up.add (.group level.close)) outer ⟨.finished, _, outer⟩ := .finished
    obtain ⟨s, e, hs, he⟩ := ih hclosed
    refine ⟨s, e, ?_, he⟩
    rw [List.length_cons, List.replicate_succ, feed, h.next_closeParen]
    exact hs

theorem exists_result_completion (r : Reading) : ∃ s e, r.feed r.completion = .ok s ∧ s.result = .ok e := by
  obtain ⟨level, s, hs, hends⟩ := r.exists_ends
  obtain ⟨s', e, hs', he⟩ := hends.exists_result
  exact ⟨s', e, (feed_append_of_ok hs _).trans hs', he⟩

theorem feed_eq_ok_iff_derives {ts : List Token} {e : Expr} :
    (∃ s, feed {} ts = .ok s ∧ s.result = .ok e) ↔ Derives ts (.disjunction e) := by
  have hplaces : (ts.map fun t => (⟨0, t⟩ : Placed)).map Placed.token = ts := by
    rw [List.map_map]
    exact List.map_id ts
  have hrun : run 0 {} (ts.map fun t => ⟨0, t⟩) = .ok e ↔ _ := run_iff_derives
  rwa [run_eq_ok_iff, hplaces] at hrun

end Reading

/-- Tokens of a text are viable as long as a reading takes them. -/
theorem viable_iff {ts : List Token} (hw : ∀ t ∈ ts, t.Writable) : Viable ts ↔ ∃ r, Reading.feed {} ts = .ok r := by
  constructor
  · rintro ⟨us, hus⟩
    obtain ⟨_, e, he⟩ := accepted_iff.1 hus
    obtain ⟨s, hs, _⟩ := Reading.feed_eq_ok_iff_derives.2 he
    rw [Reading.feed_append] at hs
    obtain ⟨r, hr, _⟩ := Outcome.bind_eq_ok_iff.1 hs
    exact ⟨r, hr⟩
  · rintro ⟨r, hr⟩
    obtain ⟨s, e, hs, he⟩ := r.exists_result_completion
    have hderives : Derives (ts ++ r.completion) (.disjunction e) := by
      rw [← Reading.feed_eq_ok_iff_derives, Reading.feed_append_of_ok hr]
      exact ⟨s, hs, he⟩
    refine ⟨r.completion, accepted_iff.2 ⟨?_, e, hderives⟩⟩
    exact List.forall_mem_append.2 ⟨hw, r.completion_writable⟩

/-- A run stops at a token that its reading does not take, or at the end where the reading has no result. -/
theorem Reading.run_error_cases {ending : Nat} {r : Reading} {ps : List Placed} {f : Fault}
    (h : run ending r ps = .error f) :
    (∃ before p after s problem, ps = before ++ p :: after ∧ r.feed (before.map Placed.token) = .ok s ∧
      s.next p.token = .error problem ∧ f = .malformed p.offset problem) ∨
    ∃ s problem, r.feed (ps.map Placed.token) = .ok s ∧ s.result = .error problem ∧ f = .malformed ending problem := by
  induction ps generalizing r with
  | nil =>
    obtain ⟨problem, hproblem, rfl⟩ := (Outcome.mapError_eq_error_iff _).1 h
    exact .inr ⟨r, problem, rfl, hproblem, rfl⟩
  | cons p ps ih =>
    cases hnext : r.next p.token with
    | error problem =>
      simp only [run, hnext, Except.error.injEq] at h
      exact .inl ⟨[], p, ps, r, problem, rfl, rfl, hnext, h.symm⟩
    | ok r' =>
      simp only [run, hnext] at h
      have hfeed (ts : List Token) : r.feed (p.token :: ts) = r'.feed ts := by
        rw [feed, hnext]
        rfl
      rcases ih h with ⟨before, q, after, s, problem, rfl, hs, hstop, rfl⟩ | ⟨s, problem, hs, hstop, rfl⟩
      · exact .inl ⟨p :: before, q, after, s, problem, rfl, (hfeed _).trans hs, hstop, rfl⟩
      · exact .inr ⟨s, problem, (hfeed _).trans hs, hstop, rfl⟩

theorem viable_of_run_error {ending : Nat} {ps : List Placed} {f : Fault}
    (hw : ∀ p ∈ ps, p.token.Writable) (h : Reading.run ending {} ps = .error f) :
    ∃ place problem, f = .malformed place problem ∧
      ((∃ before p after, ps = before ++ p :: after ∧ place = p.offset ∧ Viable (before.map Placed.token) ∧
        ¬ Viable ((before ++ [p]).map Placed.token)) ∨
      (place = ending ∧ Viable (ps.map Placed.token) ∧ ¬ Accepted (ps.map Placed.token))) := by
  rcases Reading.run_error_cases h with
    ⟨before, p, after, s, problem, rfl, hs, hstop, rfl⟩ | ⟨s, problem, hs, hstop, rfl⟩
  · refine ⟨_, problem, rfl, .inl ⟨before, p, after, rfl, rfl, ?_, ?_⟩⟩
    · refine (viable_iff ?_).2 ⟨s, hs⟩
      exact List.forall_mem_map.2 fun q hq => hw q (by simp [hq])
    · have hpart : ∀ t ∈ (before ++ [p]).map Placed.token, t.Writable := by
        rw [List.append_cons] at hw
        exact List.forall_mem_map.2 fun q hq => hw q (List.mem_append_left after hq)
      rw [viable_iff hpart, List.map_append, Reading.feed_append_of_ok hs]
      rintro ⟨r, hr⟩
      simp [Reading.feed, hstop, Except.bind] at hr
  · refine ⟨_, problem, rfl, .inr ⟨rfl, ?_, ?_⟩⟩
    · exact (viable_iff (List.forall_mem_map.2 hw)).2 ⟨s, hs⟩
    · intro haccepted
      obtain ⟨_, e, he⟩ := accepted_iff.1 haccepted
      obtain ⟨s', hs', hresult⟩ := Reading.feed_eq_ok_iff_derives.2 he
      rw [hs] at hs'
      cases hs'
      rw [hstop] at hresult
      cases hresult

theorem between_of_parse?_error {text : String} {place : Nat} {problem : Problem}
    (h : Expr.parse? text = .error (.malformed place problem)) : Between 0 text.toList place := by
  cases hscan : scan text with
  | error f =>
    rw [Expr.parse?, hscan] at h
    cases h
    exact between_of_scanFrom_error hscan
  | ok ps =>
    rw [parse?_of_scan hscan] at h
    rcases Reading.run_error_cases h with ⟨before, p, after, s, problem, rfl, _, _, heq⟩ | ⟨s, problem, _, _, heq⟩
    · cases heq
      exact between_of_mem_scanFrom hscan p (by simp)
    · cases heq
      have hend := Between.stop 0 text.toList
      rwa [Nat.zero_add, ← utf8ByteSize_eq] at hend

/-- A text that is scanned but cannot be read is at fault at the first of its tokens that leaves nothing to go on with,
the tokens before it beginning those of a text that can be read; or at its end, if only more tokens would do. And every
fault of a text, whether of scanning or of reading, lies at a place between its characters. -/
theorem parse?_fault_at_first_unviable :
    (∀ text ps f, scan text = .ok ps → Expr.parse? text = .error f →
      ∃ place problem, f = .malformed place problem ∧
        ((∃ before p after, ps = before ++ p :: after ∧ place = p.offset ∧ Viable (before.map Placed.token) ∧
          ¬ Viable ((before ++ [p]).map Placed.token)) ∨
        (place = text.utf8ByteSize ∧ Viable (ps.map Placed.token) ∧ ¬ Accepted (ps.map Placed.token)))) ∧
    ∀ text place problem, scan text = .error (.malformed place problem) ∨
      Expr.parse? text = .error (.malformed place problem) →
      String.Pos.Raw.IsValid text ⟨place⟩ ∧ place ≤ text.utf8ByteSize := by
  refine ⟨?_, ?_⟩
  · intro text ps f hscan hparse
    rw [parse?_of_scan hscan] at hparse
    exact viable_of_run_error (scanFrom_writable hscan) hparse
  · intro text place problem hfault
    have hbetween : Between 0 text.toList place := by
      rcases hfault with hscan | hparse
      · exact between_of_scanFrom_error hscan
      · exact between_of_parse?_error hparse
    have hvalid := between_iff_isValid.1 hbetween
    exact ⟨hvalid, hvalid.le_utf8ByteSize⟩

theorem parse?_fault_at_first_unviable_in_parentheses :
    let text := "(a = \"é\" b"
    let ps : List Placed :=
      [⟨0, .openParen⟩, ⟨1, .name "a"⟩, ⟨3, .compare .eq⟩, ⟨5, .literal "é"⟩, ⟨10, .name "b"⟩]
    scan text = .ok ps ∧ Expr.parse? text = .error (.malformed 10 .needsClose) ∧
    (∃ before p after, ps = before ++ p :: after ∧ 10 = p.offset ∧ Viable (before.map Placed.token) ∧
      ¬ Viable ((before ++ [p]).map Placed.token)) ∧
    String.Pos.Raw.IsValid text ⟨10⟩ ∧ 10 ≤ text.utf8ByteSize := by
  intro text ps
  have hscan : scan text = .ok ps := Outcome.toOption_eq_some_iff.1 (by decide +kernel)
  have hparse : Expr.parse? text = .error (.malformed 10 .needsClose) := by
    rw [parse?_of_scan hscan]
    rfl
  obtain ⟨hfirst, hplace⟩ := parse?_fault_at_first_unviable
  refine ⟨hscan, hparse, ?_, hplace text 10 .needsClose (.inr hparse)⟩
  obtain ⟨_, _, heq, hat | ⟨hend, _⟩⟩ := hfirst text ps _ hscan hparse
  · obtain ⟨rfl, _⟩ := Fault.malformed.inj heq
    exact hat
  · obtain ⟨rfl, _⟩ := Fault.malformed.inj heq
    exact absurd hend (by decide)

end RecordSource.Filter
