/-!
Lists of values under keys. A value put under a key takes the place of the one that was there; the order of the keys
is the order in which they first came.
-/
namespace RecordSource.Keyed
variable {α : Type}

def put (key : String) (value : α) : List (String × α) → List (String × α)
  | [] => [(key, value)]
  | e :: es => if e.1 = key then (key, value) :: es else e :: put key value es

/-- The entries given, each put in turn. -/
def ofList (entries : List (String × α)) : List (String × α) :=
  entries.foldl (fun acc e => put e.1 e.2 acc) []

theorem lookup_put_self (key : String) (value : α) (es : List (String × α)) :
    (put key value es).lookup key = some value := by
  induction es with
  | nil => simp [put]
  | cons e es ih =>
    obtain ⟨k, v⟩ := e
    unfold put
    split
    · simp
    · next h =>
      have : (key == k) = false := by simpa using Ne.symm h
      simp [List.lookup_cons, this, ih]

theorem lookup_put_of_ne {key other : String} (h : other ≠ key) (value : α) (es : List (String × α)) :
    (put key value es).lookup other = es.lookup other := by
  have hne : (other == key) = false := by simpa using h
  induction es with
  | nil => simp [put, List.lookup_cons, hne]
  | cons e es ih =>
    obtain ⟨k, v⟩ := e
    unfold put
    split
    · next hk => simp only at hk; subst hk; simp [List.lookup_cons, hne]
    · simp [List.lookup_cons, ih]

theorem mem_of_lookup {key : String} {value : α} {es : List (String × α)} (h : es.lookup key = some value) :
    (key, value) ∈ es := by
  obtain ⟨before, after, rfl, _⟩ := List.lookup_eq_some_iff.1 h
  simp

end RecordSource.Keyed
