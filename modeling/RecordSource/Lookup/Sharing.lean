import RecordSource.Lookup.Cache

/-!
Many who ask one cache, step by step in any order: each asks, looks again or gives up, while loads end and the cache
is invalidated. Those who wait are known by their names.
-/
namespace RecordSource.Lookup
variable {ε τ : Type}

inductive Step (ε τ : Type) where
  /-- Asks and looks once. The name is no longer bound to what it waited for before. -/
  | ask (who : String)
  | lookAgain (who : String)
  | giveUp (who : String)
  | settle (load : Nat) (outcome : Except ε τ)
  | invalidate
  | rest

/-- A cache with those who wait, each with its load, and those who were served, each with the load whose table it
holds, the latest last. With `known` a load is settled as it starts. -/
structure Sharing (ε τ : Type) where
  cache : Cache ε τ
  known : Option τ := none
  waiting : List (String × Nat) := []
  served : List (String × Nat) := []

/-- What a step shows: of a table also who was served the very same one before. -/
inductive Shown (τ : Type) where
  | nothing
  | waiting
  | table (t : τ) (sharedWith : List String)
  | noTable
  deriving DecidableEq, Repr

namespace Sharing

def leave (who : String) (waiting : List (String × Nat)) : List (String × Nat) :=
  waiting.filter fun w => w.1 != who

/-- One who waits for a load looks at it, and stops waiting if it has ended. -/
def look (words : ε → String) (s : Sharing ε τ) (who : String) (load : Nat) : Shown τ × Sharing ε τ :=
  match s.cache.look words load with
  | (.waiting, cache) => (.waiting, { s with cache, waiting := (who, load) :: leave who s.waiting })
  | (.table t, cache) =>
    (.table t ((s.served.filter fun w => w.2 == load).map Prod.fst),
      { s with cache, waiting := leave who s.waiting, served := s.served ++ [(who, load)] })
  | (.nothing, cache) => (.noTable, { s with cache, waiting := leave who s.waiting })

def step (words : ε → String) (s : Sharing ε τ) : Step ε τ → Shown τ × Sharing ε τ
  | .ask who =>
    let (load, cache) := s.cache.bind
    let cache := match s.known with
      | some t => cache.settle load (.ok t)
      | none => cache
    look words { s with cache } who load
  | .lookAgain who => match s.waiting.lookup who with
    | some load => look words s who load
    | none => (.nothing, s)
  | .giveUp who => (.nothing, { s with waiting := leave who s.waiting })
  | .settle load outcome => (.nothing, { s with cache := s.cache.settle load outcome })
  | .invalidate => (.nothing, { s with cache := s.cache.invalidate })
  | .rest => (.nothing, s)

/-- The loads that were started; those of known tables are none. -/
def started (s : Sharing ε τ) : Nat := if s.known.isSome then 0 else s.cache.loads.length

end Sharing
end RecordSource.Lookup
