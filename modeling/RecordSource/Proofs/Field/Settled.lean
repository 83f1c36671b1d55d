import RecordSource.Proofs.Field.Lawful
import RecordSource.Proofs.Field.Now

/-!
Catalogs that do not take up again what they have written. In a settled catalog a stored path is found only as a field
of the same kind that is stored under its own name, and what has an indexer is not found at all. The catalogs of all
domains are settled.
-/
namespace RecordSource.Field
open RecordSource.Filter

/-- The mapping of the same kind that leaves one path as it is. -/
def Mapping.onto (path : String) : Mapping → Mapping
  | time _ => time path
  | flag _ => flag path
  | list _ => list path
  | verbatim | plain _ | spread _ | bag _ => plain path

namespace Catalog

/-- The path is no field, or one of the same kind as `m` that is stored as it is called. -/
def Leaves (c : Catalog) (m : Mapping) (path : String) : Prop :=
  c.find? path = none ∨ c.find? path = some ⟨m.onto path, none⟩

instance (c : Catalog) (m : Mapping) (path : String) : Decidable (c.Leaves m path) :=
  inferInstanceAs (Decidable (_ ∨ _))

structure Settled (c : Catalog) : Prop where
  named : ∀ e ∈ c.fields, '[' ∉ e.1.toList
  stored : ∀ e ∈ c.fields, ∀ path ∈ e.2.paths none, c.Leaves e.2 path

theorem settled (d : Domain) : d.service.catalog.Settled := by
  cases d <;> exact ⟨by decide +kernel, by decide +kernel⟩

variable {c : Catalog}

/-- A key with an indexer is refused, and so no bag is reached through it. -/
theorem Settled.find?_indexed (hc : c.Settled) {field : String} (h : '[' ∈ field.toList) : c.find? field = none := by
  unfold find?
  split
  · next m hm => exact absurd h (hc.named _ (Keyed.mem_of_lookup hm))
  · split
    · rfl
    · next head key hdot =>
      split
      · next path hbag =>
        have hhead := hc.named _ (Keyed.mem_of_lookup hbag)
        rw [firstDot?_eq hdot] at h
        have hkey : '[' ∈ key := by simp_all
        rw [if_neg (by simp [hkey])]
      · rfl

/-- The paths of a field that is found are left alone. -/
theorem Settled.leaves (hc : c.Settled) {field : String} {target : Target} (h : c.find? field = some target) :
    ∀ path ∈ target.mapping.paths target.key?, c.Leaves target.mapping path := by
  unfold find? at h
  split at h
  · next m hm =>
    cases h
    exact hc.stored _ (Keyed.mem_of_lookup hm)
  · split at h
    · cases h
    · next head key hdot =>
      split at h
      · next path hbag =>
        split at h
        · cases h
          refine List.forall_mem_singleton.2 (.inl (hc.find?_indexed ?_))
          simp [Mapping.keyPath]
        · cases h
      · cases h

end Catalog
end RecordSource.Field
