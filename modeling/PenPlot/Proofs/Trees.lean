import PenPlot.Proofs.Concatenation
import PenPlot.Proofs.Printing

/-!
# Printed forests are drawn as they stand

A pass over the text of a forest comes to what drawing the forest itself comes to. The pass takes its
elements from text and stops where they do; the drawing of the forest goes along its constructors. Both
are compared by way of the route: its outcome is put together from those of its elements in the same way
as the outcome of a forest from those of its trees.
-/

namespace PenPlot

open Text

variable {α : Type} [Scalar α] {sheet : Sheet α}

/-! ## Outcomes of routes -/

/-- What a walk along a route comes to. -/
def Outcome.ofRoute (flattener : Flattener) (route : Route α) : Outcome α where
  commands := route.commands flattener
  tally := route.tally flattener
  fault := route.stop.map Stop.fault

/-- The route that passes one element. -/
def Route.single (station : Station α) : Route α := ⟨[station], none⟩

namespace Outcome

variable {flattener : Flattener}

theorem ofRoute_append (first second : Route α) :
    ofRoute flattener (first.append second) =
      (ofRoute flattener first).andThen (ofRoute flattener second) := by
  cases hstop : first.stop with
  | some stop =>
    rw [Route.append_of_stop hstop]
    simp only [andThen, ofRoute, hstop, Option.map_some]
  | none =>
    simp only [andThen, ofRoute, hstop, Option.map_none, Route.commands_append hstop,
      Route.tally_append hstop, Route.stop_append hstop]

/-- A route that passes one element more in front comes to what that element does, and then the rest. -/
theorem ofRoute_push (station : Station α) (route : Route α) :
    ofRoute flattener (route.push station) =
      (ofRoute flattener (.single station)).andThen (ofRoute flattener route) :=
  ofRoute_append (.single station) route

/-- Without a shape, passing an element only counts it. -/
theorem ofRoute_single_of_none {station : Station α} (h : station.shape? = none) :
    ofRoute flattener (.single station) =
      { tally := { Station.count {} station with pen := {} } } := by
  simp [ofRoute, Route.single, Route.commands, Route.tally, Route.counts, Route.shapes, Route.taken,
    h, PenCounts.total]

/-- Passing a shape draws it. -/
theorem ofRoute_single_of_some {station : Station α} {shape : PlacedShape α}
    (h : station.shape? = some shape) :
    ofRoute flattener (.single station) =
      { commands := shape.commands flattener
        tally := { Station.count {} station with pen := shape.counts flattener } } := by
  simp [ofRoute, Route.single, Route.commands, Route.tally, Route.counts, Route.shapes, Route.taken,
    h, PenCounts.total]

end Outcome

/-! ## Ancestries and surroundings -/

namespace Ancestry

end Ancestry

end PenPlot
