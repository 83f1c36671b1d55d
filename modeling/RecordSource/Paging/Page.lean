import RecordSource.Json.Shape

/-!
Pages of records, with the cursor of the page to come, and what they add up to. Each has a JSON form that leaves
absent fields out.
-/
namespace RecordSource.Paging

/-- What a service allows: records in one call, calls in a second, and pages in one run. -/
structure Limits where
  pageTake : Nat := 500
  perSecond : Nat := 6
  maxPages : Nat := 10000
  deriving DecidableEq, Repr

/-- A page of a service that hands out cursors. No cursor, or an empty one, means the last page. -/
structure Page (ρ : Type) where
  records : List ρ
  cursor : Option String := none
  total : Option Nat := none
  deriving DecidableEq, Repr

/-- A page of a service that counts offsets. -/
structure OffsetPage (ρ : Type) where
  records : List ρ
  total : Option Nat := none
  deriving DecidableEq, Repr

/-- The records of several pages in order, and the latest total that one of them stated. -/
structure Retrieved (ρ : Type) where
  records : List ρ := []
  total : Option Nat := none
  deriving DecidableEq, Repr

def optionalCount (key : String) : Option Nat → List (String × Json)
  | none => []
  | some n => [(key, Json.ofNat n)]

def pageShape : Json.RecordShape :=
  ⟨"PageResult", [⟨"data", .sequence, false⟩, ⟨"continuationToken", .optionalText, true⟩,
    ⟨"totalCount", .optionalCount, true⟩]⟩

def offsetPageShape : Json.RecordShape :=
  ⟨"SkipPage", [⟨"data", .sequence, false⟩, ⟨"totalCount", .optionalCount, true⟩]⟩

def retrievedShape : Json.RecordShape :=
  ⟨"AggregatedResult", [⟨"data", .sequence, false⟩, ⟨"totalCount", .optionalCount, true⟩]⟩

namespace Page

def ofJson? (v : Json) : Except Json.Mismatch (Page Json) :=
  (pageShape.read v).map fun v =>
    ⟨v.itemsAt "data", (v.field? "continuationToken").bind Json.string?, (v.field? "totalCount").bind Json.count?⟩

def toJson (p : Page Json) : Json :=
  .ofFields (("data", .array p.records) ::
    ((p.cursor.map fun t => ("continuationToken", .string t)).toList ++ optionalCount "totalCount" p.total))

end Page

namespace OffsetPage

def ofJson? (v : Json) : Except Json.Mismatch (OffsetPage Json) :=
  (offsetPageShape.read v).map fun v => ⟨v.itemsAt "data", (v.field? "totalCount").bind Json.count?⟩

def toJson (p : OffsetPage Json) : Json :=
  .ofFields (("data", .array p.records) :: optionalCount "totalCount" p.total)

end OffsetPage

namespace Retrieved

def ofJson? (v : Json) : Except Json.Mismatch (Retrieved Json) :=
  (retrievedShape.read v).map fun v => ⟨v.itemsAt "data", (v.field? "totalCount").bind Json.count?⟩

def toJson (r : Retrieved Json) : Json :=
  .ofFields (("data", .array r.records) :: optionalCount "totalCount" r.total)

end Retrieved
end RecordSource.Paging
