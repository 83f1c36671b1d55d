import RecordSource.Proofs.Paging.Offsets
import RecordSource.Proofs.Query.Requests

/-!
Queries to a service that has a list of records and speaks the format of its domain. The result is a table with a row
for each record that is wanted, however the service cuts its pages.
-/
namespace RecordSource

theorem Service.records?_eq_ok {s : Service} {body : Json} {records : List Json}
    (h : body.field? s.recordsKey = some (.array records)) : s.records? body = .ok records := by
  cases body with
  | object fields =>
    have hlookup : fields.lookup s.recordsKey = some (.array records) := h
    rw [records?, hlookup]
  | _ => cases h

/-- Every service allows as many pages as a query may want records. -/
theorem Domain.limits_service (d : Domain) :
    d.service.limits.maxPages = 10000 ∧ d.service.maxTake = 10000 ∧ 2 ≤ d.service.limits.pageTake := by
  cases d <;> decide

theorem Domain.takeFor_le (d : Domain) (requested : Option Nat) : d.service.takeFor requested ≤ 10000 := by
  rw [← d.limits_service.2.1]
  exact d.service.takeFor_le requested

namespace Query
variable {σ : Type}

/-- What a cursor stands for in a state, where none stands for the start. -/
def StandsFor (denotes : σ → String → Nat → Prop) (state : σ) : Option String → Nat → Prop
  | none, i => i = 0
  | some c, i => denotes state c i

section
variable (s : Service) (q : Query) (filter : String) (L : List Json) (remote : Transport.Remote σ)

/-- Asked for a page of the query from a position, the service answers with the records up to a later one, as long as
there are any. If the list goes on there, the answer holds another cursor, which denotes that position from then on;
else it holds none, or an empty one. -/
def SpeaksByCursor (denotes : σ → String → Nat → Prop) : Prop :=
  ∀ state sent cursor i, AsksFor s q filter sent.request →
    sent.request.field? "continuationToken" = cursor.map .string → StandsFor denotes state cursor i → ∃ body j,
      (remote state sent).1.outcome = .ok body ∧
      body.field? s.recordsKey = some (.array ((L.drop i).take (j - i))) ∧ i ≤ j ∧ j ≤ L.length ∧
      (i < L.length → i < j) ∧
      if j < L.length then
        ∃ c, body.field? "continuationToken" = some (.string c) ∧ c ≠ "" ∧ cursor ≠ some c ∧
          denotes (remote state sent).2 c j
      else ∀ c, body.field? "continuationToken" = some (.string c) → c = ""

/-- Asked for a page of the query, the service answers with the range of records that the request names. If the answer
states a total, it is the right one. -/
def SpeaksByOffset : Prop :=
  ∀ state sent skip take, AsksFor s q filter sent.request →
    sent.request.field? "skip" = some (.ofNat skip) → sent.request.field? "take" = some (.ofNat take) → ∃ body,
      (remote state sent).1.outcome = .ok body ∧
      body.field? s.recordsKey = some (.array ((L.drop skip).take take)) ∧
      ∀ n, body.field? s.totalKey = some (.ofNat n) → n = L.length

/-- The service has a list of records for the query, and speaks the format of its domain. -/
def Speaks : Prop :=
  match s.walk with
  | .cursor => ∃ denotes, SpeaksByCursor s q filter L remote denotes
  | .offset => SpeaksByOffset s q filter L remote

/-- The records that a query gets. -/
def wantedOf : List Json := if q.fetchAll then L else L.take (s.takeFor q.take?)

end

section
variable {s : Service} {q : Query} {filter : String} {L : List Json} {remote : Transport.Remote σ}

theorem outcome_pageServer {κ π : Type} {request : Paging.Call κ → Transport.Request} {read : Json → Except Malformed π}
    {state : σ} {call : Paging.Call κ} {body : Json} {page : π}
    (hbody : (remote state ⟨request call, call.start⟩).1.outcome = .ok body) (hread : read body = .ok page) :
    (pageServer request read remote state call).1.outcome = .ok page := by
  simp only [pageServer, hbody, hread]
  rfl

theorem SpeaksByCursor.serves {denotes : σ → String → Nat → Prop} (hwalk : s.walk = .cursor)
    (h : SpeaksByCursor s q filter L remote denotes) :
    Paging.Serves L (StandsFor denotes)
      (pageServer (fun call => pageRequest s q filter call.take (.cursor call.position)) s.page? remote) where
  start _ := rfl
  answers := by
    intro state call i hi
    obtain ⟨body, j, hbody, hrecords, hij, hj, hgoes, hcursor⟩ := h state ⟨_, call.start⟩ call.position i
      (asksFor_pageRequest q filter call.take (.cursor _) hwalk.symm)
      (cursor_pageRequest s q filter call.take call.position) hi
    let cursor := (body.field? "continuationToken").bind Json.string?
    refine ⟨⟨(L.drop i).take (j - i), cursor, s.total? body⟩, j, outcome_pageServer hbody ?_, rfl, hij, hj, hgoes, ?_⟩
    · rw [Service.page?, Service.records?_eq_ok hrecords]
      rfl
    · by_cases hlast : j < L.length
      · rw [if_pos hlast] at hcursor ⊢
        obtain ⟨c, hc, hne, hother, hdenotes⟩ := hcursor
        have hnext : cursor = some c := by simp only [cursor, hc, Option.bind_some, Json.string?]
        refine ⟨?_, ?_, ?_⟩
        · simp [Paging.Page.isLast, hnext, hne]
        · rw [hnext]
          exact hother.symm
        · rw [hnext]
          exact hdenotes
      · rw [if_neg hlast] at hcursor ⊢
        cases hnext : cursor with
        | none => simp [Paging.Page.isLast]
        | some c =>
          obtain ⟨v, hv, hstring⟩ := Option.bind_eq_some_iff.1 hnext
          rw [Json.string?_eq_some_iff.1 hstring] at hv
          simp [Paging.Page.isLast, hcursor c hv]

theorem SpeaksByOffset.slices (hwalk : s.walk = .offset) (h : SpeaksByOffset s q filter L remote) :
    Paging.Slices L
      (pageServer (fun call => pageRequest s q filter call.take (.offset call.position)) s.offsetPage? remote) := by
  intro state call
  obtain ⟨body, hbody, hrecords, htotal⟩ := h state ⟨_, call.start⟩ call.position call.take
    (asksFor_pageRequest q filter call.take (.offset _) hwalk.symm)
    (offset_pageRequest s q filter call.take call.position)
    (take_pageRequest s q filter call.take _)
  refine ⟨⟨(L.drop call.position).take call.take, s.total? body⟩, outcome_pageServer hbody ?_, rfl, ?_⟩
  · rw [Service.offsetPage?, Service.records?_eq_ok hrecords]
    rfl
  · intro n hn
    obtain ⟨v, hv, hcount⟩ := Option.bind_eq_some_iff.1 hn
    rw [Json.count?_eq_some_iff.1 hcount] at hv
    exact htotal n hv

theorem result_ofRun {κ : Type} (request : Paging.Call κ → Transport.Request) {o : Paging.Outcome σ κ Failure Json}
    {r : Paging.Retrieved Json} (h : o.result = .ok r) : (Retrieval.ofRun request o).result = .ok r := by
  simp only [Retrieval.ofRun, h]
  rfl

theorem upTo_target : Paging.upTo (if q.fetchAll then none else some (s.takeFor q.take?)) L = wantedOf s q L := by
  unfold wantedOf
  split <;> rfl

end

section
variable {d : Domain} {q : Query} {filter : String} {L : List Json} {remote : Transport.Remote σ}

theorem length_wantedOf_le (h : q.fetchAll = true → L.length ≤ 10000) : (wantedOf d.service q L).length ≤ 10000 := by
  unfold wantedOf
  split
  · next hall => exact h hall
  · exact Nat.le_trans (List.length_take_le _ _) (d.takeFor_le q.take?)

theorem fits32_target : Paging.Fits32 (if q.fetchAll then none else some (d.service.takeFor q.take?)) := by
  have hmost := d.takeFor_le q.take?
  intro n hn
  split at hn
  · cases hn
  · cases hn
    omega

/-- The records that a query gets are retrieved, in either style of paging. -/
theorem Speaks.retrieve (h : Speaks d.service q filter L remote) (hfew : (wantedOf d.service q L).length ≤ 10000)
    (state : σ) : ∃ r, (retrieve d.service q filter remote state).result = .ok r ∧
      r.records = wantedOf d.service q L := by
  let target := if q.fetchAll then none else some (d.service.takeFor q.take?)
  obtain ⟨hpages, -, htake⟩ := d.limits_service
  have hwanted : Paging.upTo target L = wantedOf d.service q L := upTo_target
  rw [← hwanted] at hfew ⊢
  unfold Query.retrieve
  cases hwalk : d.service.walk with
  | cursor =>
    rw [Speaks, hwalk] at h
    obtain ⟨denotes, h⟩ := h
    have hroom : max 1 (Paging.upTo target L).length ≤ d.service.limits.maxPages := by omega
    obtain ⟨r, hr, hrecords⟩ := (h.serves hwalk).run fits32_target hroom 0 state
    exact ⟨r, result_ofRun _ hr, hrecords⟩
  | offset =>
    rw [Speaks, hwalk] at h
    have hcount : (Paging.upTo target L).length ≤ 4294967295 := by omega
    have hroom : (Paging.upTo target L).length / max 1 d.service.limits.pageTake < d.service.limits.maxPages :=
      Nat.div_lt_of_lt_mul (by rw [hpages]; omega)
    obtain ⟨hrecords, hok, -⟩ := (h.slices hwalk).run hcount d.service.limits 0 state
    obtain ⟨r, hr⟩ := hok hroom
    exact ⟨r, result_ofRun _ hr, hrecords r hr⟩

end

/-- Records that are retrieved are laid out as a table. -/
theorem result_run {set : Setting} {q : Query} {locals : Template.Bindings} {filter : String}
    {remote : Transport.Remote σ} {state : State σ} {r : Paging.Retrieved Json}
    (hfilter : set.filter? q.filter locals = .ok filter)
    (hr : (retrieve set.service q filter remote state.remote).result = .ok r) :
    ∃ table decoration, (run set remote q locals state).result = .ok table ∧
      table.columns = columnsOf set.service q ∧
      table.rows = rowsOf decoration set.service.partNumberField? table.columns r.records := by
  rw [run_of_records hfilter hr]
  exact ⟨_, _, rfl, rfl, rfl⟩

/-- In each domain, a query to a service that has a list of records and speaks the format of the domain comes to a
table with a row for each record that is wanted, in order, and in it a cell for each column. All that is asked on the
way is for pages of the query or for the tables that results are decorated with. -/
theorem run_of_speaks (d : Domain) {set : Setting} (hservice : set.service = d.service) (hkeep : set.unknown = .keep)
    (q : Query) (locals : Template.Bindings) {L : List Json} {remote : Transport.Remote σ}
    (hspeaks : Speaks d.service q (set.compiler.prepare (set.scope.fill locals) q.filter) L remote) (state : State σ) :
    let out := run set remote q locals state
    let columns := if q.columns.isEmpty then d.service.columns else q.columns
    ((q.fetchAll = true → L.length ≤ 10000) → ∃ table decoration, out.result = .ok table ∧ table.columns = columns ∧
      table.rows = (wantedOf d.service q L).map fun r =>
        columns.map (cell decoration d.service.partNumberField? r)) ∧
    ∀ sent ∈ out.requests,
      AsksFor d.service q (set.compiler.prepare (set.scope.fill locals) q.filter) sent.request ∨
        AsksForTable sent.request := by
  intro out columns
  have hfilter : set.filter? q.filter locals = .ok (set.compiler.prepare (set.scope.fill locals) q.filter) := by
    rw [Setting.filter?, hkeep, Setting.preview]
  refine ⟨?_, ?_⟩
  · intro hall
    obtain ⟨r, hr, hrecords⟩ := hspeaks.retrieve (length_wantedOf_le hall) state.remote
    rw [← hservice] at hr
    obtain ⟨table, decoration, hresult, hcolumns, hrows⟩ := result_run hfilter hr
    rw [hservice] at hcolumns hrows
    rw [hcolumns, hrecords] at hrows
    exact ⟨table, decoration, hresult, hcolumns, hrows⟩
  · rw [← hservice]
    exact requests_run hfilter remote state

/-- Three alarms in two pages, the second one longer than the first. -/
theorem run_of_speaks_three_alarms :
    let record (n : Nat) : Json := .object [("n", .ofNat n)]
    let remote : Transport.Remote Unit := fun _ sent =>
      (⟨0, .ok (match sent.request.field? "continuationToken" with
        | none => .object [("alarms", .array [record 1]), ("continuationToken", .string "rest")]
        | some _ => .object [("alarms", .array [record 2, record 3])])⟩, ())
    let set : Setting := { service := Service.alarms, now := 0 }
    let q : Query := { filter := "active = true", fetchAll := true, columns := ["n"] }
    let filter := set.compiler.prepare (set.scope.fill []) q.filter
    Speaks Service.alarms q filter [record 1, record 2, record 3] remote ∧
    ∃ table, (run set remote q [] { remote := () }).result = .ok table ∧
      table.rows = [[.ofNat 1], [.ofNat 2], [.ofNat 3]] := by
  intro record remote set q filter
  have hspeaks : Speaks Service.alarms q filter [record 1, record 2, record 3] remote := by
    refine ⟨fun _ c i => c = "rest" ∧ i = 1, ?_⟩
    intro state sent cursor i _ hcursor hi
    cases cursor with
    | none =>
      obtain rfl : i = 0 := hi
      refine ⟨.object [("alarms", .array [record 1]), ("continuationToken", .string "rest")], 1, ?_, rfl,
        by decide, by decide, by decide, "rest", rfl, by decide, by simp, rfl, rfl⟩
      simp only [remote, hcursor, Option.map_none]
    | some c =>
      obtain ⟨rfl, rfl⟩ := hi
      refine ⟨.object [("alarms", .array [record 2, record 3])], 3, ?_, rfl, by decide, by decide, by decide, ?_⟩
      · simp only [remote, hcursor, Option.map_some]
      · intro c hc
        cases hc
  obtain ⟨hresult, _⟩ := run_of_speaks .alarms rfl rfl q [] hspeaks { remote := () }
  obtain ⟨table, decoration, htable, _, hrows⟩ := hresult (by intro _; decide)
  exact ⟨hspeaks, table, htable, hrows⟩

end Query
end RecordSource
