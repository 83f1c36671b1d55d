import RecordSource.Number.Binary64

/-!
JSON values. Whole numbers that fit in 64 bits stay whole, all others are binary64; an object lists its fields in
the order of their keys, each key once.
-/
namespace RecordSource

inductive Json.Number where
  | whole (n : Int)
  | real (x : Number.Binary64)
  deriving DecidableEq, Repr

inductive Json where
  | null
  | bool (b : Bool)
  | number (n : Json.Number)
  | string (s : String)
  | array (items : List Json)
  | object (fields : List (String × Json))
  deriving Repr, Inhabited

namespace Json

/-- Puts a field in its place; a key already there takes the new value. -/
def insert (key : String) (value : Json) : List (String × Json) → List (String × Json)
  | [] => [(key, value)]
  | f :: fs =>
    if key = f.1 then (key, value) :: fs
    else if key < f.1 then (key, value) :: f :: fs
    else f :: insert key value fs

/-- The object with the given fields; of two with one key the later stays. -/
def ofFields (fields : List (String × Json)) : Json :=
  .object (fields.foldl (fun acc f => insert f.1 f.2 acc) [])

def ofNat (n : Nat) : Json := .number (.whole n)

/-- The value of a key of an object. -/
def field? : Json → String → Option Json
  | .object fields, key => fields.lookup key
  | _, _ => none

def string? : Json → Option String
  | .string s => some s
  | _ => none

/-- The count that a whole number of 64 bits states. -/
def count? : Json → Option Nat
  | .number (.whole n) => if 0 ≤ n then some n.toNat else none
  | _ => none

@[simp] theorem count?_ofNat (n : Nat) : (ofNat n).count? = some n := by simp [ofNat, count?]

theorem lookup_insert_self (key : String) (value : Json) (fs : List (String × Json)) :
    (insert key value fs).lookup key = some value := by
  induction fs with
  | nil => simp [insert]
  | cons f fs ih =>
    obtain ⟨k, v⟩ := f
    unfold insert
    split
    · simp
    · next h =>
      split
      · simp
      · have : (key == k) = false := by simpa using h
        simp [List.lookup_cons, this, ih]

theorem lookup_insert_of_ne {key other : String} (h : other ≠ key) (value : Json)
    (fs : List (String × Json)) : (insert key value fs).lookup other = fs.lookup other := by
  have hne : (other == key) = false := by simpa using h
  induction fs with
  | nil => simp [insert, List.lookup_cons, hne]
  | cons f fs ih =>
    obtain ⟨k, v⟩ := f
    unfold insert
    split
    · next hk => simp only at hk; subst hk; simp [List.lookup_cons, hne]
    · split
      · simp [List.lookup_cons, hne]
      · simp [List.lookup_cons, ih]

theorem lookup_foldl_insert {fs : List (String × Json)} (h : (fs.map Prod.fst).Nodup) (acc : List (String × Json))
    (key : String) :
    (fs.foldl (fun acc f => insert f.1 f.2 acc) acc).lookup key = (fs.lookup key).or (acc.lookup key) := by
  induction fs generalizing acc with
  | nil => rfl
  | cons f fs ih =>
    obtain ⟨k, v⟩ := f
    rw [List.map_cons, List.nodup_cons] at h
    rw [List.foldl_cons, ih h.2, List.lookup_cons]
    by_cases hk : key = k
    · subst hk
      have hnone : fs.lookup key = none := by
        rw [List.lookup_eq_none_iff]
        intro f hf
        have hne : key ≠ f.1 := by
          intro heq
          exact h.1 (List.mem_map.2 ⟨f, hf, heq.symm⟩)
        simpa using hne
      rw [hnone, lookup_insert_self, beq_self_eq_true]
      rfl
    · have hne : (key == k) = false := beq_eq_false_iff_ne.2 hk
      rw [hne, lookup_insert_of_ne hk]

/-- An object with fields of different keys holds just these. -/
theorem field?_ofFields {fs : List (String × Json)} (h : (fs.map Prod.fst).Nodup) (key : String) :
    (ofFields fs).field? key = fs.lookup key := by
  rw [ofFields, field?, lookup_foldl_insert h, List.lookup_nil, Option.or_none]

theorem string?_eq_some_iff {v : Json} {s : String} : v.string? = some s ↔ v = .string s := by
  cases v <;> simp [string?]

theorem count?_eq_some_iff {v : Json} {n : Nat} : v.count? = some n ↔ v = ofNat n := by
  constructor
  · intro h
    unfold count? at h
    split at h
    · next m =>
      split at h
      · next hm =>
        cases h
        rw [ofNat, Int.toNat_of_nonneg hm]
      · cases h
    · cases h
  · rintro rfl
    exact count?_ofNat n

end Json
end RecordSource
