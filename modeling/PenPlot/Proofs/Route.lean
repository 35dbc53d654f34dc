import PenPlot.Plot.Pass

/-!
# Routes through documents

A route lists the elements of a document in the order in which a walk takes them, each with what
stands around it: the product of the transforms of its containers, their number, and the view box of
the outermost drawing among them. It knows neither sink nor tracker and carries nothing from element to
element. A route ends with the document or at the first fault, which is one of an element or of the
markup behind the elements taken so far.

A shape on a route can be drawn alone, with a tracker of its own.
-/

namespace PenPlot

/-- What stands around an element. -/
structure Surroundings (α : Type) where
  /-- The product of the transforms of the containers. -/
  transform : Affine α
  /-- How many containers there are. -/
  depth : Nat
  /-- The view box of the outermost drawing, if there is a drawing. -/
  box : Option (ViewBox α)
  deriving DecidableEq, Repr

/-- An element of a document where it stands. -/
structure Station (α : Type) where
  /-- What the element is taken as. -/
  kind : ElementKind
  /-- Its attribute text. -/
  attributes : List Char
  /-- What stands around it. -/
  around : Surroundings α
  deriving DecidableEq, Repr

/-- A shape that is to be drawn. -/
structure PlacedShape (α : Type) where
  /-- The kind of the shape. -/
  kind : ShapeKind
  /-- Its attribute text. -/
  attributes : List Char
  /-- The product of the transforms of the containers around and of its own. -/
  transform : Affine α
  /-- The view box of the outermost drawing around. -/
  box : ViewBox α
  deriving DecidableEq, Repr

/-- Where and why a route ends before the document does. -/
structure Stop (α : Type) where
  /-- The element at fault, unless it is the markup. -/
  station : Option (Station α)
  /-- The fault. -/
  fault : Fault α
  deriving DecidableEq, Repr

/-- The elements of a document. -/
structure Route (α : Type) where
  /-- The elements without a fault, in order. -/
  passed : List (Station α)
  /-- What ends the route, if the document does not. -/
  stop : Option (Stop α)
  deriving DecidableEq, Repr

variable {α : Type} [Scalar α]

namespace Surroundings

/-- Nothing stands around. -/
def bare : Surroundings α := ⟨.identity, 0, none⟩

/-- The scope of a visit. -/
def scope (around : Surroundings α) : Scope α :=
  ⟨around.transform, around.depth, around.box.isSome⟩

omit [Scalar α] in
@[simp] theorem inside_scope (around : Surroundings α) :
    around.scope.inside = around.box.isSome := rfl

omit [Scalar α] in
@[simp] theorem depth_scope (around : Surroundings α) : around.scope.depth = around.depth := rfl

/-- What stands around the content of a container with a transform and a view box of its own. Inside
a drawing the view box remains that of the outermost. -/
def enter (around : Surroundings α) (own : Affine α) (box? : Option (ViewBox α)) :
    Surroundings α :=
  ⟨around.transform.comp own, around.depth + 1, around.box.or box?⟩

end Surroundings

namespace PlacedShape

/-- The shape drawn alone: the states of a new tracker that carries the view box, and of a recording
sink behind it. -/
def drawn (flattener : Flattener) (shape : PlacedShape α) :
    Tracker α × Array (PenCommand α) :=
  let drawing :=
    flattener.drawShape (Tracker.filter .recording) shape.kind shape.attributes shape.transform
  match drawing.run ⟨.origin, (.ofBox shape.box, #[]), []⟩ with
  | .ok _ pencil | .error _ pencil => pencil.receiver

/-- The commands that are sent when the shape is drawn alone. -/
def commands (flattener : Flattener) (shape : PlacedShape α) : List (PenCommand α) :=
  (shape.drawn flattener).2.toList

/-- What is counted when the shape is drawn alone. -/
def counts (flattener : Flattener) (shape : PlacedShape α) : PenCounts :=
  (shape.drawn flattener).1.counts

end PlacedShape

namespace Station

/-- The visit of the element. -/
def visit (station : Station α) : Visit :=
  ⟨station.kind, station.attributes, station.around.depth⟩

/-- The element as a shape that is to be drawn, if it is a shape inside a drawing. -/
def shape? (station : Station α) : Option (PlacedShape α) :=
  match station.kind, station.around.box with
  | .shape kind, some box =>
    match (ownTransform kind.name station.attributes).result with
    | .ok own => some ⟨kind, station.attributes, station.around.transform.comp own, box⟩
    | .error _ => none
  | _, _ => none

/-- Reads the element. What stands around its content is given if the content is to be visited. -/
def evaluate (sheet : Sheet α) (station : Station α) : Reading α (Option (Surroundings α)) :=
  match station.kind with
  | .container kind => do
    let (own, box?) ← sheet.containerTransform station.around.scope kind station.attributes
    pure (some (station.around.enter own box?))
  | .shape kind =>
    if station.around.box.isSome then do
      let own ← ownTransform kind.name station.attributes
      let _ ← sheet.flattener.flattenShape kind station.attributes
        (station.around.transform.comp own)
      pure none
    else pure none
  | .unrecognized => pure none

/-- The tally with the element counted. -/
def count (tally : Tally) (station : Station α) : Tally :=
  let tally := tally.named station.kind.name
  match station.kind with
  | .container _ => tally.oneContainer
  | .shape _ => if station.around.box.isSome then tally.oneShape else tally.oneOrphan
  | .unrecognized => tally.oneUnrecognized

end Station

namespace Route

/-- The route with one more element in front. -/
def push (station : Station α) (route : Route α) : Route α :=
  { route with passed := station :: route.passed }

/-- One route behind another, unless the first ends at a fault. -/
def append (first second : Route α) : Route α :=
  match first.stop with
  | some _ => first
  | none => ⟨first.passed ++ second.passed, second.stop⟩

/-- The route through markup. -/
def ofMarkup (sheet : Sheet α) (around : Surroundings α) (markup : Markup) : Route α :=
  match h : markup.take? with
  | .error flaw => ⟨[], some ⟨none, .markup flaw⟩⟩
  | .ok none => ⟨[], none⟩
  | .ok (some (element, rest)) =>
    have := Markup.length_take?_lt h
    let station : Station α := ⟨element.kind, element.attributes, around⟩
    match (station.evaluate sheet).result with
    | .error fault => ⟨[], some ⟨some station, fault⟩⟩
    | .ok none => (ofMarkup sheet around rest).push station
    | .ok (some inner) =>
      ((ofMarkup sheet inner element.content).append (ofMarkup sheet around rest)).push station
termination_by markup.tags.length

/-- The route through a document. -/
def ofText (sheet : Sheet α) (document : List Char) : Route α :=
  ofMarkup sheet .bare (.scan document)

/-- The elements that are taken: those without a fault, and the one at fault. -/
def taken (route : Route α) : List (Station α) :=
  route.passed ++ (route.stop.bind Stop.station).toList

/-- The shapes that are drawn, in order. -/
def shapes (route : Route α) : List (PlacedShape α) := route.passed.filterMap Station.shape?

/-- The commands of the shapes, each drawn alone. -/
def commands (flattener : Flattener) (route : Route α) : List (PenCommand α) :=
  route.shapes.flatMap (PlacedShape.commands flattener)

/-- What is counted for the shapes, each drawn alone. -/
def counts (flattener : Flattener) (route : Route α) : PenCounts :=
  .total (route.shapes.map (PlacedShape.counts flattener))

/-- What is counted for the elements that are taken and the shapes that are drawn. -/
def tally (flattener : Flattener) (route : Route α) : Tally :=
  { route.taken.foldl Station.count {} with pen := route.counts flattener }

/-! ### Routes step by step -/

section

variable {markup rest : Markup} {element : Element}

theorem ofMarkup_of_error {flaw : MarkupFlaw} (h : markup.take? = .error flaw) (sheet : Sheet α)
    (around : Surroundings α) :
    ofMarkup sheet around markup = ⟨[], some ⟨none, .markup flaw⟩⟩ := by
  rw [ofMarkup]
  split <;> simp_all

theorem ofMarkup_of_none (h : markup.take? = .ok none) (sheet : Sheet α)
    (around : Surroundings α) : ofMarkup sheet around markup = ⟨[], none⟩ := by
  rw [ofMarkup]
  split <;> simp_all

theorem ofMarkup_of_some (h : markup.take? = .ok (some (element, rest))) (sheet : Sheet α)
    (around : Surroundings α) :
    ofMarkup sheet around markup =
      let station : Station α := ⟨element.kind, element.attributes, around⟩
      match (station.evaluate sheet).result with
      | .error fault => ⟨[], some ⟨some station, fault⟩⟩
      | .ok none => (ofMarkup sheet around rest).push station
      | .ok (some inner) =>
        ((ofMarkup sheet inner element.content).append (ofMarkup sheet around rest)).push
          station := by
  rw [ofMarkup]
  split
  · simp_all
  · simp_all
  · next other behind hother =>
    rw [h] at hother
    cases hother
    rfl

end

omit [Scalar α] in
theorem append_of_stop {first : Route α} {stop : Stop α} (h : first.stop = some stop)
    (second : Route α) : first.append second = first := by
  simp only [append, h]

omit [Scalar α] in
theorem append_of_none {first : Route α} (h : first.stop = none) (second : Route α) :
    first.append second = ⟨first.passed ++ second.passed, second.stop⟩ := by
  simp only [append, h]

omit [Scalar α] in
theorem taken_of_none {route : Route α} (h : route.stop = none) : route.taken = route.passed := by
  simp [taken, h]

omit [Scalar α] in
theorem taken_append {first : Route α} (h : first.stop = none) (second : Route α) :
    (first.append second).taken = first.taken ++ second.taken := by
  simp [append_of_none h, taken, h]

theorem shapes_append {first : Route α} (h : first.stop = none) (second : Route α) :
    (first.append second).shapes = first.shapes ++ second.shapes := by
  rw [append_of_none h]
  exact List.filterMap_append

omit [Scalar α] in
@[simp] theorem taken_push (station : Station α) (route : Route α) :
    (route.push station).taken = station :: route.taken := rfl

theorem shapes_push (station : Station α) (route : Route α) :
    (route.push station).shapes = station.shape?.toList ++ route.shapes := by
  cases h : station.shape? <;> simp [shapes, push, h]

end Route

end PenPlot
