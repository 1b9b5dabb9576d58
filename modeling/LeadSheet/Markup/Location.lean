import LeadSheet.Data.Basic

/-!
Locations: where in a text something was written. A location that is no stretch of the text is kept
as it was given; it need not make sense before it is asked for.
-/
namespace LeadSheet

/-- A stretch of the text, from a first position to behind the last one. -/
structure Span where
  start : Int
  stop : Int
  deriving DecidableEq, Repr

/-- Whether a span touches a selection; the ends count. -/
def Span.touches (span : Span) (start stop : Number) : Bool :=
  start.le (.whole span.stop) && Number.le (.whole span.start) stop

inductive Location where
  | span (span : Span)
  | other (datum : Datum)
  deriving DecidableEq, Repr

namespace Location

/-- The location that a datum stands for. A pair of whole numbers is a stretch of the text. -/
def ofDatum : Datum → Location
  | .tuple [.whole start, .whole stop] => span ⟨start, stop⟩
  | d => other d

/-- A location as data. -/
def toDatum : Location → Datum
  | span ⟨start, stop⟩ => .tuple [.whole start, .whole stop]
  | other d => d

/-- A location that may be left out: data that stands for no is none. -/
def ofDatum? (d : Datum) : Option Location := if d.holds then some (ofDatum d) else none

/-- The location as a list of its parts that does not change. -/
def fixed : Location → Except Failure Location
  | span s => .ok (span s)
  | other d => return ofDatum (.tuple (← d.parts))

/-- Whether a location touches a selection. The end is looked at first. -/
def touches (l : Location) (start stop : Number) : Except Failure Bool :=
  match l with
  | span s => .ok (s.touches start stop)
  | other d => do
    if !start.le (← (← d.part 1).toNumber) then return false
    return (← (← d.part 0).toNumber).le stop

end Location
end LeadSheet
