import Criteria.Json.Record

/-! # Limits

What a compiler accepts: how deep criteria may be nested, how many values a list may hold, and
whether repeated values of a list are dropped.
-/

set_option autoImplicit false

namespace Criteria

/-- The limits of a compiler. -/
structure Limits where
  maxDepth : Nat := 64
  maxListSize : Nat := 10000
  deduplicateLists : Bool := true
  deriving DecidableEq

namespace Limits

open Json

/-- The limits that a record sets; those it leaves out have their default. -/
def ofRaw? (raw : Raw) : Option Limits := do
  let fields ← raw.fields? ["maxDepth", "maxListSize", "deduplicateLists"] .refused
  let default : Limits := {}
  let maxDepth ← fields.optional? "maxDepth" default.maxDepth Raw.count?
  let maxListSize ← fields.optional? "maxListSize" default.maxListSize Raw.count?
  let deduplicateLists ← fields.optional? "deduplicateLists" default.deduplicateLists Raw.flag?
  pure ⟨maxDepth, maxListSize, deduplicateLists⟩

/-- The limits that a text holds. -/
def read? (text : String) : Option Limits := do
  let raw ← Raw.read? text
  ofRaw? raw

/-- The record that sets the limits. -/
def toJson (l : Limits) : Json :=
  .object [("maxDepth", .ofNat l.maxDepth), ("maxListSize", .ofNat l.maxListSize),
    ("deduplicateLists", .boolean l.deduplicateLists)]

end Limits

end Criteria
