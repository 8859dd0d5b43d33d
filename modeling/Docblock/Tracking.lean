/-!
# Which positions are recorded

Recording positions is optional: lines and token indexes can be asked for
separately, and without either a tree carries no positions at all.
-/

namespace Docblock

/-- The positions that reading records on every node. -/
structure Tracking where
  lines : Bool
  indexes : Bool
  deriving DecidableEq, Repr, Inhabited

namespace Tracking

/-- No positions. -/
def off : Tracking := ⟨false, false⟩

/-- The lines of the first and the last token of a node. -/
def onlyLines : Tracking := ⟨true, false⟩

/-- The indexes of the first and the last token of a node. -/
def onlyIndexes : Tracking := ⟨false, true⟩

/-- All positions. -/
def full : Tracking := ⟨true, true⟩

/-- What either of the two records. -/
def union (first second : Tracking) : Tracking :=
  ⟨first.lines || second.lines, first.indexes || second.indexes⟩

/-- What the first records and the second does not. -/
def diff (first second : Tracking) : Tracking :=
  ⟨first.lines && !second.lines, first.indexes && !second.indexes⟩

/-- Whether both record some position in common. -/
def overlaps (first second : Tracking) : Bool :=
  (first.lines && second.lines) || (first.indexes && second.indexes)

/-- Whether any position is recorded. -/
def isOn (tracking : Tracking) : Bool := tracking.lines || tracking.indexes

end Tracking

end Docblock
