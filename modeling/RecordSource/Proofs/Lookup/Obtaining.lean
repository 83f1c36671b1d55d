import RecordSource.Lookup.Tables
import RecordSource.Outcome

/-!
What asking for a table does to its cache, between queries. A remembered load has its table there, so that each call
that is made is answered at once: with a table, or with a warning that says what was wrong with the answer.
The table it brings is the one that is remembered, or comes from its source.
-/
namespace RecordSource
variable {σ : Type}

namespace Transport.Remote

/-- What the other side answers to some requests, sent one after the other. -/
def dialogue (remote : Remote σ) : σ → List Sent → List (Sent × Answer)
  | _, [] => []
  | state, sent :: rest => (sent, (remote state sent).1) :: dialogue remote (remote state sent).2 rest

/-- The state of the other side after some requests. -/
def after (remote : Remote σ) : σ → List Sent → σ
  | state, [] => state
  | state, sent :: rest => after remote (remote state sent).2 rest

@[simp] theorem after_append (remote : Remote σ) (state : σ) (xs ys : List Sent) :
    remote.after state (xs ++ ys) = remote.after (remote.after state xs) ys := by
  induction xs generalizing state with
  | nil => rfl
  | cons sent xs ih => exact ih (remote state sent).2

@[simp] theorem dialogue_append (remote : Remote σ) (state : σ) (xs ys : List Sent) :
    remote.dialogue state (xs ++ ys) = remote.dialogue state xs ++ remote.dialogue (remote.after state xs) ys := by
  induction xs generalizing state with
  | nil => rfl
  | cons sent xs ih => exact congrArg _ (ih (remote state sent).2)

theorem map_fst_dialogue (remote : Remote σ) (state : σ) (xs : List Sent) :
    (remote.dialogue state xs).map Prod.fst = xs := by
  induction xs generalizing state with
  | nil => rfl
  | cons sent xs ih => exact congrArg _ (ih (remote state sent).2)

theorem fst_mem_of_mem_dialogue {remote : Remote σ} {state : σ} {xs : List Sent} {x : Sent × Answer}
    (hx : x ∈ remote.dialogue state xs) : x.1 ∈ xs := by
  rw [← remote.map_fst_dialogue state xs]
  exact List.mem_map.2 ⟨x, hx, rfl⟩

end Transport.Remote

namespace Lookup

/-- A load of one's own ends at once: its table is remembered, or its failure is told and forgotten. -/
theorem Cache.look_settle_bind {ε τ : Type} {c : Cache ε τ} (h : c.memo = none) (words : ε → String)
    (outcome : Except ε τ) : (c.bind.2.settle c.bind.1 outcome).look words c.bind.1 =
      match outcome with
      | .ok t => (.table t, { c with
          loads := c.loads ++ [.loaded t], memo := some c.loads.length, warning := none })
      | .error e => (.nothing, { c with
          loads := c.loads ++ [.failed e]
          memo := none
          warning := some ⟨"Warning during " ++ c.name ++ " query", words e⟩ }) := by
  cases outcome <;> simp [bind, h, settle, look]

namespace Loading
variable {ν : Type} (l : Loading ν)

/-- The warning that an answer leaves behind if it holds no table. -/
def warning? (answer : Transport.Answer) : Option Warning :=
  let told (f : Query.Failure) : Warning := ⟨"Warning during " ++ l.name ++ " query", f.message⟩
  match answer.outcome with
  | .error f => some (told (.transport f))
  | .ok body =>
    match l.read body with
    | .error m => some (told (.malformed m))
    | .ok _ => none

/-- The cache of a table between queries: a load that is remembered has its table. -/
structure Rests (c : TableCache ν) : Prop where
  name : c.name = l.name
  loaded : ∀ n ∈ c.memo, ∃ t, c.loads[n]? = some (.loaded t)

theorem rests_new : l.Rests { name := l.name } := ⟨rfl, fun _ hn => nomatch hn⟩

variable {l} {c : TableCache ν}

/-- Asking for a remembered table takes no call and clears the warning. -/
theorem Rests.obtain_of_memo (h : l.Rests c) {n : Nat} (hmemo : c.memo = some n) (source : Source ν)
    (remote : Transport.Remote σ) (now : Nat) (state : σ) :
    let o := l.obtain source remote c now state
    o.cache = { c with warning := none } ∧ o.requests = [] ∧ o.remote = state := by
  obtain ⟨t, ht⟩ := h.loaded n hmemo
  cases source <;> simp [obtain, hmemo, Cache.look, ht]

/-- A known table is remembered without a call. -/
theorem obtain_known (hmemo : c.memo = none) (records : List ν) (remote : Transport.Remote σ) (now : Nat) (state : σ) :
    let o := l.obtain (.known records) remote c now state
    o.cache = { c with
      loads := c.loads ++ [.loaded (tableOf l.key records)], memo := some c.loads.length, warning := none } ∧
      o.requests = [] ∧ o.remote = state := by
  simp [obtain, hmemo, Cache.look_settle_bind]

/-- A table that is not remembered takes one call, and is remembered if the answer holds it. -/
theorem obtain_remote (hmemo : c.memo = none) (hname : c.name = l.name) (remote : Transport.Remote σ) (now : Nat)
    (state : σ) :
    let o := l.obtain .remote remote c now state
    let answer := (remote state ⟨l.request, now⟩).1
    o.requests = [⟨l.request, now⟩] ∧ o.remote = (remote state ⟨l.request, now⟩).2 ∧
      o.cache.name = c.name ∧ o.cache.warning = l.warning? answer ∧
      ∀ n ∈ o.cache.memo, ∃ t, o.cache.loads[n]? = some (.loaded t) := by
  intro o answer
  simp only [o, answer, obtain, hmemo, Option.isNone_none, if_true, Cache.look_settle_bind, warning?]
  cases (remote state ⟨l.request, now⟩).1.outcome with
  | error f => simp [hname]
  | ok body =>
    cases hread : l.read body with
    | error m => simp [hread, hname]
    | ok t => simp [hread]

/-- Asking for a table leaves a warning exactly if its call is answered without one. -/
theorem Rests.obtain (h : l.Rests c) (source : Source ν) (remote : Transport.Remote σ) (now : Nat) (state : σ) :
    let o := l.obtain source remote c now state
    l.Rests o.cache ∧ o.remote = remote.after state o.requests ∧
      o.cache.warning.toList = (remote.dialogue state o.requests).filterMap fun x => l.warning? x.2 := by
  intro o
  cases hmemo : c.memo with
  | some n =>
    obtain ⟨hcache, hrequests, hremote⟩ := h.obtain_of_memo hmemo source remote now state
    rw [hcache, hrequests, hremote]
    exact ⟨⟨h.name, h.loaded⟩, rfl, rfl⟩
  | none =>
    cases source with
    | known records =>
      obtain ⟨hcache, hrequests, hremote⟩ := obtain_known hmemo records remote now state
      rw [hcache, hrequests, hremote]
      refine ⟨⟨h.name, ?_⟩, rfl, rfl⟩
      intro n hn
      obtain rfl : c.loads.length = n := Option.some.inj hn
      exact ⟨_, List.getElem?_concat_length⟩
    | remote =>
      obtain ⟨hrequests, hremote, hname, hwarning, hloaded⟩ := obtain_remote hmemo h.name remote now state
      rw [hrequests, hremote, hwarning]
      refine ⟨⟨hname.trans h.name, hloaded⟩, rfl, ?_⟩
      cases hanswer : l.warning? (remote state ⟨l.request, now⟩).1 <;>
        simp [Transport.Remote.dialogue, hanswer]

/-- The table that an answer holds. -/
def table? (l : Loading ν) (answer : Transport.Answer) : Option (Table ν) :=
  answer.outcome.toOption.bind fun body => (l.read body).toOption

/-- The table that is found: that of the remembered load, else the one from its source. None is found if the load, or
the answer to the request, has none. -/
def found? (l : Loading ν) (source : Source ν) (c : TableCache ν) (answers : List Transport.Answer) :
    Option (Table ν) :=
  match c.memo with
  | some n =>
    match c.loads[n]? with
    | some (.loaded t) => some t
    | _ => none
  | none =>
    match source with
    | .known records => some (tableOf l.key records)
    | .remote => answers.head?.bind l.table?

/-- Asking for a table brings the one that is found, or an empty one. -/
theorem table_obtain (l : Loading ν) (source : Source ν) (remote : Transport.Remote σ) (c : TableCache ν) (now : Nat)
    (state : σ) :
    let o := l.obtain source remote c now state
    o.table = (l.found? source c ((remote.dialogue state o.requests).map Prod.snd)).getD [] := by
  intro o
  cases hmemo : c.memo with
  | some n =>
    rcases hload : c.loads[n]? with _ | (_ | t | e) <;> cases source <;>
      simp [o, obtain, hmemo, Cache.look, hload, found?]
  | none =>
    cases source with
    | known records => simp [o, obtain, hmemo, Cache.look_settle_bind, found?]
    | remote =>
      simp only [o, obtain, hmemo, Option.isNone_none, if_true, Cache.look_settle_bind, found?, table?,
        Transport.Remote.dialogue, List.map_cons, List.map_nil, List.head?_cons, Option.bind_some]
      cases (remote state ⟨l.request, now⟩).1.outcome with
      | error f => rfl
      | ok body => cases hread : l.read body <;> simp [hread, Except.toOption]

end Loading
end Lookup
end RecordSource
