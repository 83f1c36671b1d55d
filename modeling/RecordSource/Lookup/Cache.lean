/-!
Tables that are loaded once and shared. The cache remembers its latest load from the moment it starts; whoever asks
meanwhile is bound to that load. A load that fails is forgotten when the first of those bound to it sees the failure,
which leaves a warning and no table.
-/
namespace RecordSource.Lookup
variable {ε τ : Type}

inductive Load (ε τ : Type) where
  | pending
  | loaded (table : τ)
  | failed (e : ε)
  deriving DecidableEq, Repr

structure Warning where
  title : String
  description : String
  deriving DecidableEq, Repr

/-- All loads so far, by number, and the one that is remembered. -/
structure Cache (ε τ : Type) where
  name : String
  loads : List (Load ε τ) := []
  memo : Option Nat := none
  warning : Option Warning := none

/-- What one who waits for a load sees: not yet anything, the table of the load, or that there is none. -/
inductive Sight (τ : Type) where
  | waiting
  | table (t : τ)
  | nothing
  deriving DecidableEq, Repr

namespace Cache

/-- Binds one who asks to the remembered load, or to a new one. -/
def bind (c : Cache ε τ) : Nat × Cache ε τ :=
  match c.memo with
  | some n => (n, c)
  | none => (c.loads.length, { c with loads := c.loads ++ [.pending], memo := some c.loads.length })

/-- Ends a load that is still pending. -/
def settle (c : Cache ε τ) (load : Nat) (outcome : Except ε τ) : Cache ε τ :=
  match c.loads[load]? with
  | some .pending =>
    let l := match outcome with
      | .ok t => Load.loaded t
      | .error e => Load.failed e
    { c with loads := c.loads.set load l }
  | _ => c

/-- Looks at a load on behalf of one bound to it. A table clears the warning; a failure puts one up and is forgotten
if it is still the remembered load. -/
def look (words : ε → String) (c : Cache ε τ) (load : Nat) : Sight τ × Cache ε τ :=
  match c.loads[load]? with
  | some (.loaded t) => (.table t, { c with warning := none })
  | some (.failed e) =>
    (.nothing, { c with
      memo := if c.memo = some load then none else c.memo
      warning := some ⟨"Warning during " ++ c.name ++ " query", words e⟩ })
  | _ => (.waiting, c)

/-- Forgets the remembered load and the warning. -/
def invalidate (c : Cache ε τ) : Cache ε τ := { c with memo := none, warning := none }

@[simp] theorem bind_fst_of_memo {c : Cache ε τ} {n : Nat} (h : c.memo = some n) : c.bind = (n, c) := by
  simp [bind, h]

@[simp] theorem memo_bind (c : Cache ε τ) : c.bind.2.memo = some c.bind.1 := by
  unfold bind
  split
  · assumption
  · rfl

end Cache
end RecordSource.Lookup
