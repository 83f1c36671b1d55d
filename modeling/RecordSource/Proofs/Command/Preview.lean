import RecordSource.Command.Ending
import RecordSource.Proofs.Command.Flags
import RecordSource.Proofs.Query.Failures

/-!
Commands that show their filter next to the same commands without the flag. What is shown is what is sent, except where
unknown fields are refused and the filter has a fault: it is shown all the same.
-/
namespace RecordSource
variable {σ : Type}

namespace Query

/-- What keeps a filter from being sent is looked for in the same way as what is shown. -/
theorem Setting.filter?_ok {set : Setting} {filter text : String} {locals : Template.Bindings}
    (h : set.filter? filter locals = .ok text) : set.preview filter locals = text := by
  unfold Setting.filter? at h
  cases hunknown : set.unknown with
  | keep =>
    rw [hunknown] at h
    exact Except.ok.inj h
  | refuse =>
    rw [hunknown] at h
    have hprepare : set.compiler.prepare? (set.scope.fill locals) filter = .ok text := h
    rw [Setting.preview, Filter.Compiler.prepare, hprepare]

theorem lookup_conditions_filter (q : Query) (filter : String) :
    (conditions q filter).lookup "filter" = if filter = "" then none else some (.string filter) := by
  unfold conditions selection
  by_cases hfilter : filter = ""
  · rw [if_pos hfilter, if_pos hfilter]
    cases q.orderBy? <;> cases q.returnCount <;> rfl
  · rw [if_neg hfilter, if_neg hfilter]
    rfl

/-- All requests for pages hold the filter, if there is one. -/
theorem filter_of_asksFor {d : Domain} {q : Query} {filter : String} {r : Transport.Request}
    (h : AsksFor d.service q filter r) :
    r.field? "filter" = if filter = "" then none else some (.string filter) := by
  obtain ⟨fields, hbody, hfields⟩ := h.body
  have hkey : "filter" ≠ d.service.walk.key := by cases d <;> decide
  rw [Transport.Request.field?, hbody, ← lookup_conditions_filter q filter]
  exact hfields "filter" (by decide) hkey

end Query

namespace Command.Options

/-- What answering the query of a command does. -/
def answered (o : Options) (now : Nat) (host : Http.Host σ) (state : σ) : Query.Outcome σ :=
  Query.run (o.setting now) (o.settings.remote host) o.query [] { remote := state }

/-- A command comes to send its filter: a client can be set up, and the filter does not keep the query from being
sent. -/
def Sends (o : Options) (now : Nat) (host : Http.Host σ) (state : σ) : Prop :=
  o.settings.defect? = none ∧ ∀ fault, (o.answered now host state).result ≠ .error (.filter fault)

/-- The filter has a fault, and the command refuses such filters. -/
def Refuses (o : Options) (now : Nat) (fault : Filter.Fault) : Prop :=
  o.strict = true ∧ (o.setting now).compiler.prepare? (o.scope.fill []) o.query.filter = .error fault

theorem filter?_eq_error_iff {o : Options} {now : Nat} {fault : Filter.Fault} :
    (o.setting now).filter? o.query.filter [] = .error fault ↔ o.Refuses now fault := by
  unfold Query.Setting.filter? Refuses
  cases hstrict : o.strict with
  | false =>
    have hkeep : (o.setting now).unknown = .keep := by rw [setting, hstrict]; rfl
    rw [hkeep]
    simp
  | true =>
    have hrefuse : (o.setting now).unknown = .refuse := by rw [setting, hstrict]; rfl
    rw [hrefuse]
    simp [setting]

theorem sends_iff {o : Options} {now : Nat} {host : Http.Host σ} {state : σ} :
    o.Sends now host state ↔ o.settings.defect? = none ∧ ∀ fault, ¬o.Refuses now fault := by
  refine and_congr_right fun _ => forall_congr' fun fault => not_congr ?_
  exact (Query.result_eq_filter_iff (Query.State.rests_start state)).trans filter?_eq_error_iff

/-- Every page that is asked for is asked for with the filter that is shown. -/
theorem Sends.filter {o : Options} {now : Nat} {host : Http.Host σ} {state : σ} (h : o.Sends now host state) :
    let shown := (o.setting now).preview o.query.filter []
    ∀ sent ∈ (o.answered now host state).requests, sent.request.path = o.domain.service.endpoint →
      sent.request.field? "filter" = if shown = "" then none else some (.string shown) := by
  intro shown sent hsent hpath
  obtain ⟨_, hnone⟩ := sends_iff.1 h
  cases hfilter : (o.setting now).filter? o.query.filter [] with
  | error fault => exact absurd (filter?_eq_error_iff.1 hfilter) (hnone fault)
  | ok filter =>
    have hshown : shown = filter := Query.Setting.filter?_ok hfilter
    rw [hshown]
    rcases Query.requests_run hfilter (o.settings.remote host) { remote := state } sent hsent with hasks | htable
    · exact Query.filter_of_asksFor hasks
    · exact absurd htable (Query.not_asksForTable_of_path hpath)

end Command.Options

namespace Command

/-- What is shown agrees with what is sent: a text is shown with success exactly if the command comes to send its
filter, and then it is the text that each request for a page holds, or that none holds if it is empty. -/
def Agrees (shown : Ending σ) (o : Options) (now : Nat) (host : Http.Host σ) (state : σ) : Prop :=
  ((shown.code = 0 ∧ ∃ text, shown.out = text ++ "\n") ↔ o.Sends now host state) ∧
  (o.Sends now host state → ∃ text, shown = { code := 0, out := text ++ "\n", host := state } ∧
    ∀ sent ∈ (o.answered now host state).requests, sent.request.path = o.domain.service.endpoint →
      sent.request.field? "filter" = if text = "" then none else some (.string text))

theorem carryOut_shown {url? apiKey? : Option String} {words : List String} {o : Options}
    (h : Options.parse? url? apiKey? words = .ok o) (hflag : o.compileOnly = true) (hdefect : o.settings.defect? = none)
    (now : Nat) (host : Http.Host σ) (state : σ) : carryOut url? apiKey? words now host state =
      { code := 0, out := (o.setting now).preview o.query.filter [] ++ "\n", host := state } := by
  simp only [carryOut, h, Options.carryOut, hdefect, hflag, if_true]

theorem carryOut_defect {url? apiKey? : Option String} {words : List String} {o : Options} {f : Transport.Failure}
    (h : Options.parse? url? apiKey? words = .ok o) (hdefect : o.settings.defect? = some f)
    (now : Nat) (host : Http.Host σ) (state : σ) : (carryOut url? apiKey? words now host state).code = 1 := by
  simp only [carryOut, h, Options.carryOut, hdefect]

theorem carryOut_failed {url? apiKey? : Option String} {words : List String} {o : Options}
    (h : Options.parse? url? apiKey? words = .ok o) (hflag : o.compileOnly = false)
    (hdefect : o.settings.defect? = none) {now : Nat} {host : Http.Host σ} {state : σ} {f : Query.Failure}
    (hresult : (o.answered now host state).result = .error f) : carryOut url? apiKey? words now host state =
      { code := 1, err := report ("querying " ++ o.domain.service.name) (causes f)
        host := (o.answered now host state).state.remote } := by
  unfold Options.answered at hresult ⊢
  simp only [carryOut, h, Options.carryOut, hdefect, hflag, hresult]
  rfl

/-- A command that is read with the flag to show its filter is read without it. What it shows agrees with what it sends,
except where it refuses filters with a fault and the filter has one: then it sends nothing and fails for the fault, but
it shows the filter, its variables filled, with success. -/
theorem shown_agrees_iff {url? apiKey? : Option String} {before after : List String} {shows : Options}
    (h : Options.parse? url? apiKey? (before ++ "--compile-only" :: after) = .ok shows) (now : Nat)
    (host : Http.Host σ) (state : σ) :
    let shown := carryOut url? apiKey? (before ++ "--compile-only" :: after) now host state
    ∃ o, Options.parse? url? apiKey? (before ++ after) = .ok o ∧ o.compileOnly = false ∧
      (Agrees shown o now host state ↔ ¬(o.settings.defect? = none ∧ ∃ fault, o.Refuses now fault)) ∧
      ∀ fault, o.settings.defect? = none → o.Refuses now fault →
        (o.answered now host state).requests = [] ∧
        carryOut url? apiKey? (before ++ after) now host state =
          { code := 1, err := report ("querying " ++ o.domain.service.name) (causes (.filter fault)), host := state } ∧
        shown = { code := 0, out := o.scope.fill [] o.query.filter ++ "\n", host := state } := by
  intro shown
  obtain ⟨hflag, hparse⟩ := Options.parse?_compileOnly h
  let o : Options := { shows with compileOnly := false }
  have hshown : o.settings.defect? = none → shown =
      { code := 0, out := (o.setting now).preview o.query.filter [] ++ "\n", host := state } := by
    intro hdefect
    exact carryOut_shown h hflag hdefect now host state
  refine ⟨o, hparse, rfl, ⟨?_, ?_⟩, ?_⟩
  · rintro ⟨hboth, _⟩ ⟨hdefect, fault, hrefuses⟩
    have hsends : o.Sends now host state := by
      refine hboth.1 ?_
      rw [hshown hdefect]
      exact ⟨rfl, _, rfl⟩
    exact (Options.sends_iff.1 hsends).2 fault hrefuses
  · intro hfree
    cases hdefect : o.settings.defect? with
    | some f =>
      have hcode : shown.code = 1 := carryOut_defect h hdefect now host state
      have hnot : ¬o.Sends now host state := by
        rintro ⟨hnone, _⟩
        rw [hdefect] at hnone
        cases hnone
      refine ⟨⟨?_, fun hsends => absurd hsends hnot⟩, fun hsends => absurd hsends hnot⟩
      rintro ⟨hzero, _⟩
      rw [hcode] at hzero
      cases hzero
    | none =>
      have hsends : o.Sends now host state :=
        Options.sends_iff.2 ⟨hdefect, fun fault hrefuses => hfree ⟨hdefect, fault, hrefuses⟩⟩
      rw [hshown hdefect]
      exact ⟨⟨fun _ => hsends, fun _ => ⟨rfl, _, rfl⟩⟩, fun _ => ⟨_, rfl, hsends.filter⟩⟩
  · intro fault hdefect hrefuses
    have hfilter := Options.filter?_eq_error_iff.2 hrefuses
    have hanswered : o.answered now host state = ⟨.error (.filter fault), [],
        [Query.alertOf (o.setting now).service (.filter fault)], { remote := state }⟩ := by
      rw [Options.answered, Query.run, hfilter]
    have hfilled : (o.setting now).preview o.query.filter [] = o.scope.fill [] o.query.filter := by
      have hprepare : (o.setting now).compiler.prepare? ((o.setting now).scope.fill []) o.query.filter =
          .error fault := hrefuses.2
      rw [Query.Setting.preview, Filter.Compiler.prepare, hprepare]
      rfl
    refine ⟨by rw [hanswered], ?_, by rw [hshown hdefect, hfilled]⟩
    rw [carryOut_failed hparse rfl hdefect (congrArg Query.Outcome.result hanswered), hanswered]

/-- A filter that names a field of the domain is shown as it is sent. -/
theorem shown_agrees_known_field :
    let words := ["alarms", "--url", "http://host", "--filter", "active = \"1\"", "--strict"]
    let host : Http.Host Unit := Http.Host.outOfReach
    ∃ shows o, Options.parse? none none (words ++ "--compile-only" :: []) = .ok shows ∧
      Options.parse? none none (words ++ []) = .ok o ∧
      Agrees (carryOut none none (words ++ "--compile-only" :: []) 0 host ()) o 0 host () := by
  intro words host
  have hcompiles : ((Options.parse? none none (words ++ [])).toOption.map fun o =>
      ((o.setting 0).compiler.prepare? (o.scope.fill []) o.query.filter).toOption.isSome) = some true := by
    decide +kernel
  cases hread : Options.parse? none none (words ++ "--compile-only" :: []) with
  | error u =>
    have hsome : (Options.parse? none none (words ++ "--compile-only" :: [])).toOption.isSome = true := by
      decide +kernel
    rw [hread] at hsome
    cases hsome
  | ok shows =>
    obtain ⟨o, hparse, _, hagrees, _⟩ := shown_agrees_iff hread 0 host ()
    refine ⟨shows, o, rfl, hparse, hagrees.2 ?_⟩
    rintro ⟨_, fault, _, hfault⟩
    rw [hparse] at hcompiles
    simp [Except.toOption, hfault] at hcompiles

/-- A filter that names an unknown field is shown with success, though the command refuses it. -/
theorem shown_though_refused :
    let words := ["alarms", "--url", "http://host", "--filter", "bogus = \"x\"", "--strict"]
    let host : Http.Host Unit := Http.Host.outOfReach
    let shown := carryOut none none (words ++ ["--compile-only"]) 0 host ()
    let ran := carryOut none none words 0 host ()
    shown.code = 0 ∧ shown.out = "bogus = \"x\"\n" ∧ ran.code = 1 ∧
      ran.err = "Error: querying alarms\n\nCaused by:\n    0: invalid filter: unknown field `bogus`\n" ++
        "    1: unknown field `bogus`\n" := by
  decide +kernel

end Command
end RecordSource
