import RecordSource.Proofs.Paging.Offsets

/-!
What the result of a run says of the replies to its calls, in any style of paging and whatever the server answers. A run
stops at the first call that fails; all other calls bring pages, and if there are too many of these, that is the result.
Two servers that reply alike lead to the same run.
-/
namespace RecordSource.Paging
variable {σ κ ε π ρ : Type}

/-- The state of a server after some calls. -/
def after (server : Server σ κ ε π) : σ → List (Call κ) → σ
  | state, [] => state
  | state, call :: calls => after server (server state call).2 calls

/-- The outcomes of some calls, one after the other. -/
def outcomes (server : Server σ κ ε π) (state : σ) (calls : List (Call κ)) : List (Except ε π) :=
  (replies server state calls).map Reply.outcome

theorem outcomes_cons (server : Server σ κ ε π) (state : σ) (call : Call κ) (calls : List (Call κ)) :
    outcomes server state (call :: calls) =
      (server state call).1.outcome :: outcomes server (server state call).2 calls := rfl

/-- The outcomes of the calls that lead to a result, `done` pages after the start: nothing but pages, or pages and then
the failure that is the result. -/
inductive LeadTo (done : Nat) : List (Except ε π) → Except (Stop ε) (Retrieved ρ) → Prop
  | retrieved (pages : List π) (r : Retrieved ρ) : LeadTo done (pages.map .ok) (.ok r)
  | endless (pages : List π) : LeadTo done (pages.map .ok) (.error (.endless (done + pages.length)))
  | failed (pages : List π) (e : ε) : LeadTo done (pages.map .ok ++ [.error e]) (.error (.failed e))

/-- One page more, before the others. -/
theorem LeadTo.page {done : Nat} {outs : List (Except ε π)} {result : Except (Stop ε) (Retrieved ρ)}
    (h : LeadTo (done + 1) outs result) (page : π) (f : Retrieved ρ → Retrieved ρ) :
    LeadTo done (.ok page :: outs) (result.map f) := by
  cases h with
  | retrieved pages r => exact .retrieved (page :: pages) (f r)
  | endless pages =>
    have hcount : done + 1 + pages.length = done + (page :: pages).length := by
      rw [List.length_cons]
      omega
    rw [hcount]
    exact .endless (page :: pages)
  | failed pages e => exact .failed (page :: pages) e

section
variable {limits : Limits} {target : Option Nat} {style : Style κ π ρ} {server : Server σ κ ε π}

theorem runFrom_of_error (style : Style κ π ρ) {p : Progress σ κ} {e : ε}
    (herror : (server p.server (p.call limits target)).1.outcome = .error e) (pages : Nat) :
    let out := runFrom limits target style server (pages + 1) p
    out.calls = [p.call limits target] ∧ out.result = .error (.failed e) ∧
      out.server = (server p.server (p.call limits target)).2 := by
  unfold Progress.call at herror ⊢
  simp only [runFrom, herror]
  exact ⟨trivial, trivial, trivial⟩

theorem runFrom_of_page (style : Style κ π ρ) {p : Progress σ κ} {page : π}
    (hok : (server p.server (p.call limits target)).1.outcome = .ok page) (pages : Nat) :
    let out := runFrom limits target style server (pages + 1) p
    let state := (server p.server (p.call limits target)).2
    (out.calls = [p.call limits target] ∧ out.server = state ∧
      ((∃ r, out.result = .ok r) ∨ out.result = .error (.endless (limits.maxPages - pages)))) ∨
    ∃ (p' : Progress σ κ) (f : Retrieved ρ → Retrieved ρ),
      p'.pacer = p.pacer.started (p.call limits target).start ∧
      p'.now = (p.call limits target).start + (server p.server (p.call limits target)).1.delay ∧ p'.server = state ∧
      let rest := runFrom limits target style server pages p'
      out.calls = p.call limits target :: rest.calls ∧ out.server = rest.server ∧
        out.result = rest.result.map f := by
  unfold Progress.call at hok ⊢
  simp only [runFrom, hok]
  cases style.verdict target (p.collected + (style.records page).length) ((style.total page).or p.total)
    ⟨p.pacer.start p.now, pageTake limits target (counted p.collected), p.position⟩ page with
  | «over» => exact .inl ⟨rfl, rfl, .inl ⟨_, rfl⟩⟩
  | stuck => exact .inl ⟨rfl, rfl, .inr rfl⟩
  | onward next => exact .inr ⟨_, _, rfl, rfl, rfl, rfl, rfl, rfl⟩

theorem runFrom_leadTo {done pages : Nat} (hpages : done + pages = limits.maxPages) (p : Progress σ κ) :
    let out := runFrom limits target style server pages p
    LeadTo done (outcomes server p.server out.calls) out.result ∧ out.server = after server p.server out.calls := by
  induction pages generalizing done p with
  | zero =>
    intro out
    have hend : LeadTo done ([] : List (Except ε π))
        (.error (.endless limits.maxPages) : Except (Stop ε) (Retrieved ρ)) := by
      rw [← hpages]
      exact .endless ([] : List π)
    exact ⟨hend, rfl⟩
  | succ pages ih =>
    intro out
    cases houtcome : (server p.server (p.call limits target)).1.outcome with
    | error e =>
      obtain ⟨hcalls, hresult, hserver⟩ := runFrom_of_error style houtcome pages
      rw [hcalls, hresult, hserver, outcomes_cons, houtcome]
      exact ⟨.failed [] e, rfl⟩
    | ok page =>
      rcases runFrom_of_page style houtcome pages with
        ⟨hcalls, hserver, hresult⟩ | ⟨p', f, _, _, hp', hcalls, hserver, hresult⟩
      · rw [hcalls, hserver, outcomes_cons, houtcome]
        refine ⟨?_, rfl⟩
        rcases hresult with ⟨r, hr⟩ | hstuck
        · rw [hr]
          exact .retrieved [page] r
        · have hcount : limits.maxPages - pages = done + 1 := by omega
          rw [hstuck, hcount]
          exact .endless [page]
      · have hnext : done + 1 + pages = limits.maxPages := by omega
        obtain ⟨hlead, hafter⟩ := ih hnext p'
        rw [hcalls, hserver, hresult, outcomes_cons, houtcome, hafter, ← hp']
        exact ⟨hlead.page page f, by rw [hp']; rfl⟩

end

/-- Whatever a server answers, the outcomes of the calls of a run lead to its result, and the server is left as the
calls leave it. -/
theorem run_leadTo (limits : Limits) (target : Option Nat) (style : Style κ π ρ) (first : κ)
    (server : Server σ κ ε π) (now : Nat) (state : σ) :
    let out := run limits target style first server now state
    LeadTo 0 (outcomes server state out.calls) out.result ∧ out.server = after server state out.calls := by
  intro out
  by_cases hzero : target = some 0
  · have hout : out = ⟨[], .ok {}, now, state⟩ := if_pos hzero
    rw [hout]
    exact ⟨.retrieved [] {}, rfl⟩
  · let p : Progress σ κ := { position := first, pacer := Pacer.ofRate limits.perSecond, now, server := state }
    have hout : out = runFrom limits target style server limits.maxPages p := if_neg hzero
    rw [hout]
    exact runFrom_leadTo (Nat.zero_add _) p

/-! Two servers, each with states of its own. -/

section
variable {σ' : Type} {R : σ → σ' → Prop} {server : Server σ κ ε π} {server' : Server σ' κ ε π}

/-- In related states two servers reply to each call alike, and the states stay related. -/
def ReplyAlike (R : σ → σ' → Prop) (server : Server σ κ ε π) (server' : Server σ' κ ε π) : Prop :=
  ∀ state state', R state state' → ∀ call,
    (server state call).1 = (server' state' call).1 ∧ R (server state call).2 (server' state' call).2

theorem ReplyAlike.runFrom (h : ReplyAlike R server server') (limits : Limits) (target : Option Nat)
    (style : Style κ π ρ) (pages : Nat) (p : Progress σ κ) {state' : σ'} (hstate : R p.server state') :
    let out := runFrom limits target style server pages p
    let out' := Paging.runFrom limits target style server' pages
      ⟨p.position, p.collected, p.total, p.pacer, p.now, state'⟩
    out.calls = out'.calls ∧ out.result = out'.result ∧ out.finish = out'.finish := by
  induction pages generalizing p state' with
  | zero => exact ⟨rfl, rfl, rfl⟩
  | succ pages ih =>
    obtain ⟨hreply, hnext⟩ := h p.server state' hstate (p.call limits target)
    unfold Progress.call at hreply hnext
    simp only [Paging.runFrom, hreply]
    cases houtcome : (server' state' (p.call limits target)).1.outcome with
    | error e =>
      unfold Progress.call at houtcome
      simp only [houtcome, and_self]
    | ok page =>
      unfold Progress.call at houtcome
      simp only [houtcome]
      split
      · exact ⟨rfl, rfl, rfl⟩
      · exact ⟨rfl, rfl, rfl⟩
      · next onward _ =>
        obtain ⟨hcalls, hresult, hfinish⟩ := ih ⟨onward, _, _, _, _, _⟩ hnext
        exact ⟨congrArg _ hcalls, congrArg (Except.map _) hresult, hfinish⟩

/-- Against servers that reply alike, a run makes the same calls at the same times and comes to the same result. -/
theorem ReplyAlike.run (h : ReplyAlike R server server') (limits : Limits) (target : Option Nat) (style : Style κ π ρ)
    (first : κ) (now : Nat) {state : σ} {state' : σ'} (hstate : R state state') :
    let out := run limits target style first server now state
    let out' := Paging.run limits target style first server' now state'
    out.calls = out'.calls ∧ out.result = out'.result ∧ out.finish = out'.finish := by
  unfold Paging.run
  by_cases hzero : target = some 0
  · rw [if_pos hzero, if_pos hzero]
    exact ⟨rfl, rfl, rfl⟩
  · rw [if_neg hzero, if_neg hzero]
    exact h.runFrom limits target style limits.maxPages _ hstate

end

end RecordSource.Paging
