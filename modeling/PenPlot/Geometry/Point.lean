import PenPlot.Scalar

/-!
# Points and sizes

A point of the document is a pair of coordinates as they are written there, and a point of the canvas
is where the pen goes. The two are different types: only a transform takes one to the other.
-/

namespace PenPlot

/-- A point in the coordinates of the document. -/
structure Point (α : Type) where
  /-- The abscissa. -/
  x : α
  /-- The ordinate, which grows downwards. -/
  y : α
  deriving DecidableEq, Repr

/-- A point of the canvas. -/
structure CanvasPoint (α : Type) where
  /-- The abscissa. -/
  x : α
  /-- The ordinate, which grows downwards. -/
  y : α
  deriving DecidableEq, Repr

/-- The extent of a canvas. -/
structure Size (α : Type) where
  /-- The extent along the abscissa. -/
  width : α
  /-- The extent along the ordinate. -/
  height : α
  deriving DecidableEq, Repr

variable {α : Type} [Scalar α]

namespace Point

/-- The point at which both coordinates are zero. -/
def origin : Point α := ⟨0, 0⟩

instance instAdd : Add (Point α) := ⟨fun p q => ⟨p.x + q.x, p.y + q.y⟩⟩

instance instSub : Sub (Point α) := ⟨fun p q => ⟨p.x - q.x, p.y - q.y⟩⟩

instance instScale : HMul (Point α) α (Point α) := ⟨fun p k => ⟨p.x * k, p.y * k⟩⟩

instance instBEq : BEq (Point α) := ⟨fun p q => p.x == q.x && p.y == q.y⟩

/-- The point `other` mirrored through `p`. -/
def reflect (p other : Point α) : Point α := ⟨2 * p.x - other.x, 2 * p.y - other.y⟩

end Point

/-- The width in heights. -/
def Size.aspectRatio (size : Size α) : α := size.width / size.height

end PenPlot
