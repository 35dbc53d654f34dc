import PenPlot.Plot.Tracker

/-!
# Tallies

A pass over a document counts what it meets: elements by what became of them and by name, and the
commands of the pen. Tallies of several passes are added up.
-/

namespace PenPlot

/-- Counts by name, in the order of the names, each name once. -/
abbrev Census := List (String × Nat)

namespace Census

/-- The counts with `n` more under a name. -/
def add (name : String) (n : Nat) : Census → Census
  | [] => [(name, n)]
  | (other, m) :: rest =>
    if name = other then (other, m + n) :: rest
    else if name < other then (name, n) :: (other, m) :: rest
    else (other, m) :: add name n rest

/-- The count under a name, zero if there is none. -/
def count (census : Census) (name : String) : Nat := (census.lookup name).getD 0

/-- The sums of the counts of two censuses. -/
def merge (first second : Census) : Census :=
  second.foldl (fun census (name, n) => census.add name n) first

end Census

/-- What a pass has counted. -/
structure Tally where
  /-- The containers that were taken. -/
  containers : Nat := 0
  /-- The shapes that were taken inside a drawing. -/
  shapes : Nat := 0
  /-- The shapes that were taken outside every drawing, and skipped. -/
  orphanedShapes : Nat := 0
  /-- The unrecognized elements that were taken. -/
  unrecognized : Nat := 0
  /-- What the pen was sent. -/
  pen : PenCounts := {}
  /-- The elements that were taken, by name. -/
  byElement : Census := []
  deriving DecidableEq, Repr

namespace Tally

/-- How many elements were taken. -/
def elements (tally : Tally) : Nat :=
  tally.containers + tally.shapes + tally.orphanedShapes + tally.unrecognized

/-- The tally with one more element of a name. -/
def named (tally : Tally) (name : String) : Tally :=
  { tally with byElement := tally.byElement.add name 1 }

/-- The tally with one more container. -/
def oneContainer (tally : Tally) : Tally := { tally with containers := tally.containers + 1 }

/-- The tally with one more shape that was taken inside a drawing. -/
def oneShape (tally : Tally) : Tally := { tally with shapes := tally.shapes + 1 }

/-- The tally with one more shape that was taken outside every drawing. -/
def oneOrphan (tally : Tally) : Tally := { tally with orphanedShapes := tally.orphanedShapes + 1 }

/-- The tally with one more unrecognized element. -/
def oneUnrecognized (tally : Tally) : Tally :=
  { tally with unrecognized := tally.unrecognized + 1 }

/-- The sums of two tallies. -/
def merge (first second : Tally) : Tally where
  containers := first.containers + second.containers
  shapes := first.shapes + second.shapes
  orphanedShapes := first.orphanedShapes + second.orphanedShapes
  unrecognized := first.unrecognized + second.unrecognized
  pen := first.pen + second.pen
  byElement := first.byElement.merge second.byElement

/-- All counts by the names under which they are reported, those of elements last. -/
def entries (tally : Tally) : List (String × Nat) :=
  [("containers", tally.containers), ("shapes", tally.shapes),
    ("orphaned_shapes", tally.orphanedShapes), ("unrecognized", tally.unrecognized),
    ("moves", tally.pen.moves), ("draws", tally.pen.draws),
    ("suppressed", tally.pen.suppressed)] ++
    tally.byElement.map fun (name, n) => ("element." ++ name, n)

/-- The sum of the tallies of several passes. -/
def total (passes : List Tally) : Tally := passes.foldl merge {}

end Tally

end PenPlot
