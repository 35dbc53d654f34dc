import PenPlot.Scalar

/-!
# Colours

A colour has three components between 0 and 1. The hues lie on a wheel of six sectors; within a sector
one component is full, one is empty and one rises or falls evenly.
-/

namespace PenPlot

/-- A colour by its components, which are between 0 and 1. -/
structure Color (α : Type) where
  /-- The red component. -/
  red : α
  /-- The green component. -/
  green : α
  /-- The blue component. -/
  blue : α
  deriving DecidableEq, Repr

namespace Color

/-- Changes every component. -/
def map {α β : Type} (f : α → β) (color : Color α) : Color β :=
  ⟨f color.red, f color.green, f color.blue⟩

variable {α : Type} [Scalar α]

open Scalar in
/-- The colour with a hue in radians, of which whole turns do not matter, and with a saturation and a
value that are moved into the unit interval. -/
def ofHsv (hue saturation value : α) : Color α :=
  let hue := wrap hue turn
  let saturation := clampUnit saturation
  let value := clampUnit value
  let sector := hue * 3 / pi
  let chroma := value * saturation
  let rest := chroma * (1 - abs (remainder sector 2 - 1))
  let grey := value - chroma
  let color : Color α :=
    match wholePart sector with
    | 0 => ⟨chroma, rest, 0⟩
    | 1 => ⟨rest, chroma, 0⟩
    | 2 => ⟨0, chroma, rest⟩
    | 3 => ⟨0, rest, chroma⟩
    | 4 => ⟨rest, 0, chroma⟩
    | _ => ⟨chroma, 0, rest⟩
  color.map (· + grey)

end Color

end PenPlot
