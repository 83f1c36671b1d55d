import RecordSource.Query.Run

/-!
The requests of a query, whatever the other side answers. Each is for a page of the query or for a table that its
result is decorated with, and those for pages are alike but for the number of records and the position.
-/
namespace RecordSource

/-- A field of the body of a request. -/
def Transport.Request.field? (r : Transport.Request) (key : String) : Option Json := r.body?.bind (·.field? key)

/-- The field that tells a service where a page starts. -/
def Service.Walk.key : Service.Walk → String
  | cursor => "continuationToken"
  | offset => "skip"

theorem Service.Walk.key_ne_take (w : Service.Walk) : w.key ≠ "take" := by cases w <;> decide

namespace Query
variable {σ : Type} {q : Query} {filter : String}

def Position.walk : Position → Service.Walk
  | cursor _ => .cursor
  | offset _ => .offset

/-- Which records a query asks for, and in which order. -/
def selection (q : Query) (filter : String) : List (String × Json) :=
  (if filter = "" then [] else [("filter", .string filter)]) ++
  (match q.orderBy? with
    | some key => [("orderBy", .string key), ("descending", .bool q.descending)]
    | none => [])

/-- What a query says in each request for a page. -/
def conditions (q : Query) (filter : String) : List (String × Json) :=
  selection q filter ++ (if q.returnCount then [("returnCount", .bool true)] else [])

/-- A request for a page of a query. It goes to the endpoint of the service and says what the query says; the number
of records and the position are its own. -/
structure AsksFor (s : Service) (q : Query) (filter : String) (r : Transport.Request) : Prop where
  path : r.path = s.endpoint
  body : ∃ fields, r.body? = some (.object fields) ∧
    ∀ key, key ≠ "take" → key ≠ s.walk.key → fields.lookup key = (conditions q filter).lookup key

theorem Position.lookup_fields_of_ne {position : Position} {key : String} (h : key ≠ position.walk.key) :
    position.fields.lookup key = none := by
  rw [List.lookup_eq_none_iff]
  intro f hf
  have hkey : f.1 = position.walk.key := by
    rcases position with (_ | c) | n
    · cases hf
    · rw [List.mem_singleton.1 hf]
      rfl
    · rw [List.mem_singleton.1 hf]
      rfl
  rw [hkey]
  exact bne_iff_ne.2 h

theorem pageBody_eq (take : Nat) (position : Position) : pageBody q filter take position =
    .ofFields (selection q filter ++ [("take", .ofNat take)] ++ position.fields ++
      (if q.returnCount then [("returnCount", .bool true)] else [])) := rfl

theorem field?_pageBody (take : Nat) (position : Position) (key : String) :
    (pageBody q filter take position).field? key =
      if key = "take" then some (.ofNat take)
      else if key = position.walk.key then position.fields.lookup key
      else (conditions q filter).lookup key := by
  rw [pageBody_eq, Json.field?_ofFields]
  · by_cases htake : key = "take"
    · rw [if_pos htake, htake, selection]
      cases q.orderBy? <;> by_cases hf : filter = "" <;> simp [hf, List.lookup_cons]
    · have hne : (key == "take") = false := beq_eq_false_iff_ne.2 htake
      rw [if_neg htake]
      by_cases hkey : key = position.walk.key
      · rw [if_pos hkey, hkey, selection]
        cases position <;> cases q.orderBy? <;> cases q.returnCount <;> by_cases hf : filter = "" <;>
          simp [hf, List.lookup_append, List.lookup_cons, Position.walk, Service.Walk.key]
      · -- Any other key is one of the conditions, before or after the two that tell pages apart.
        rw [if_neg hkey]
        simp only [conditions, List.lookup_append, Position.lookup_fields_of_ne hkey, List.lookup_cons, hne,
          List.lookup_nil, Option.or_none]
  · rw [selection]
    rcases position with (_ | c) | n <;> cases q.orderBy? <;> cases q.returnCount <;> by_cases hf : filter = "" <;>
      simp [hf, Position.fields]

section
variable (s : Service) (q : Query) (filter : String) (take : Nat) (position : Position)

@[simp] theorem take_pageRequest :
    (pageRequest s q filter take position).field? "take" = some (.ofNat take) :=
  (field?_pageBody take position "take").trans (if_pos rfl)

theorem position_pageRequest :
    (pageRequest s q filter take position).field? position.walk.key = position.fields.lookup position.walk.key :=
  (field?_pageBody take position _).trans (by rw [if_neg position.walk.key_ne_take, if_pos rfl])

@[simp] theorem cursor_pageRequest (c : Option String) :
    (pageRequest s q filter take (.cursor c)).field? "continuationToken" = c.map .string := by
  refine (position_pageRequest s q filter take (.cursor c)).trans ?_
  cases c <;> rfl

@[simp] theorem offset_pageRequest (n : Nat) :
    (pageRequest s q filter take (.offset n)).field? "skip" = some (.ofNat n) :=
  position_pageRequest s q filter take (.offset n)

variable {s}

theorem asksFor_pageRequest (h : position.walk = s.walk) :
    AsksFor s q filter (pageRequest s q filter take position) where
  path := rfl
  body := by
    refine ⟨_, rfl, ?_⟩
    intro key htake hkey
    rw [← h] at hkey
    exact (field?_pageBody take position key).trans (by rw [if_neg htake, if_neg hkey])

end

/-- All that is asked to retrieve the records of a query is a page of it. -/
theorem requests_retrieve (s : Service) (q : Query) (filter : String) (remote : Transport.Remote σ) (state : σ) :
    ∀ sent ∈ (retrieve s q filter remote state).requests, AsksFor s q filter sent.request := by
  intro sent hsent
  unfold retrieve at hsent
  cases hwalk : s.walk with
  | cursor =>
    rw [hwalk] at hsent
    obtain ⟨call, _, rfl⟩ := List.mem_map.1 hsent
    exact asksFor_pageRequest q filter call.take _ hwalk.symm
  | offset =>
    rw [hwalk] at hsent
    obtain ⟨call, _, rfl⟩ := List.mem_map.1 hsent
    exact asksFor_pageRequest q filter call.take _ hwalk.symm

theorem requests_obtain {ν : Type} (l : Lookup.Loading ν) (source : Lookup.Source ν) (remote : Transport.Remote σ)
    (cache : Lookup.TableCache ν) (now : Nat) (state : σ) :
    ∀ sent ∈ (l.obtain source remote cache now state).requests, sent.request = l.request := by
  intro sent hsent
  unfold Lookup.Loading.obtain at hsent
  cases source with
  | known records => cases hsent
  | remote =>
    cases hmemo : cache.memo with
    | none =>
      simp only [hmemo, Option.isNone_none, List.mem_singleton] at hsent
      rw [hsent]
    | some load =>
      simp only [hmemo, Option.isNone_some, List.not_mem_nil] at hsent

/-- A request for a table that results are decorated with. -/
def AsksForTable (r : Transport.Request) : Prop :=
  r = Lookup.Loading.workspaces.request ∨ r = Lookup.Loading.products.request

theorem requests_present (set : Setting) (q : Query) (retrieved : Paging.Retrieved Json) (remote : Transport.Remote σ)
    (now : Nat) (state : State σ) :
    ∀ sent ∈ (present set q retrieved remote now state).2.1, AsksForTable sent.request := by
  intro sent hsent
  rcases List.mem_append.1 hsent with hsent | hsent
  · left
    split at hsent
    · exact requests_obtain _ _ _ _ _ _ sent hsent
    · cases hsent
  · right
    split at hsent
    · next hcolumn =>
      cases hproducts : set.products? with
      | none =>
        rw [hproducts] at hsent
        cases hsent
      | some source =>
        rw [hproducts] at hsent
        exact requests_obtain _ _ _ _ _ _ sent hsent
    · cases hsent

/-! A query goes one of three ways. -/

section
variable {set : Setting} {locals : Template.Bindings}

theorem run_of_fault {fault : Filter.Fault} (h : set.filter? q.filter locals = .error fault)
    (remote : Transport.Remote σ) (state : State σ) : run set remote q locals state =
      ⟨.error (.filter fault), [], [alertOf set.service (.filter fault)], state⟩ := by
  rw [run, h]

variable {remote : Transport.Remote σ} {state : State σ} (hfilter : set.filter? q.filter locals = .ok filter)
include hfilter

theorem run_of_failure {f : Failure} (h : (retrieve set.service q filter remote state.remote).result = .error f) :
    let r := retrieve set.service q filter remote state.remote
    run set remote q locals state =
      ⟨.error (f.told set.service), r.requests, [alertOf set.service (f.told set.service)],
        { state with remote := r.remote }⟩ := by
  simp only [run, hfilter, h]

theorem run_of_records {retrieved : Paging.Retrieved Json}
    (h : (retrieve set.service q filter remote state.remote).result = .ok retrieved) :
    let r := retrieve set.service q filter remote state.remote
    let shown := present set q retrieved remote r.finish { state with remote := r.remote }
    run set remote q locals state = ⟨.ok shown.1, r.requests ++ shown.2.1, [], shown.2.2⟩ := by
  simp only [run, hfilter, h]

end

theorem requests_run {set : Setting} {locals : Template.Bindings} (h : set.filter? q.filter locals = .ok filter)
    (remote : Transport.Remote σ) (state : State σ) :
    ∀ sent ∈ (run set remote q locals state).requests,
      AsksFor set.service q filter sent.request ∨ AsksForTable sent.request := by
  intro sent hsent
  have hpages := requests_retrieve set.service q filter remote state.remote sent
  cases hresult : (retrieve set.service q filter remote state.remote).result with
  | error f =>
    rw [run_of_failure h hresult] at hsent
    exact .inl (hpages hsent)
  | ok retrieved =>
    rw [run_of_records h hresult] at hsent
    rcases List.mem_append.1 hsent with hsent | hsent
    · exact .inl (hpages hsent)
    · exact .inr (requests_present set q retrieved remote _ _ sent hsent)

end Query
end RecordSource
