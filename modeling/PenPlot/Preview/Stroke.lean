import PenPlot.Plot.Pen
import PenPlot.Preview.Color

/-!
# Strokes of a preview

In a preview every stroke of the pen is a straight line in a colour of its own, so that the order of
the strokes can be seen. The hues begin at red and walk along the wheel in equal steps; the walk stops
short of a full turn, so that the last stroke does not look like the first.

What a stroke looks like is left to a stroker, which puts one stroke after the other on a surface.
-/

namespace PenPlot

/-- A stroke of the pen. -/
structure Stroke (α : Type) where
  /-- Where the stroke starts. -/
  start : CanvasPoint α
  /-- Where the stroke ends. -/
  stop : CanvasPoint α
  /-- The colour of the stroke. -/
  color : Color α
  deriving DecidableEq, Repr

/-- What draws strokes: it gives the surface with a stroke on it. -/
abbrev Stroker (α σ : Type) : Type := σ → Stroke α → σ

/-- A pen that draws on a surface with changing hues. -/
structure SurfacePen (α σ : Type) where
  /-- Where the pen is, if it has been sent anywhere. -/
  position : Option (CanvasPoint α) := none
  /-- The hue of the next stroke, in radians. -/
  hue : α
  /-- The surface with the strokes that have been drawn. -/
  surface : σ
  deriving Repr

namespace SurfacePen

variable {α σ : Type} [Scalar α]

/-- A pen that has not been sent anywhere, and its surface. -/
def initial (surface : σ) : SurfacePen α σ := { hue := 0, surface }

/-- The sink that draws with changing hues, in full and pure colours. The first command only says where
the pen is, even if it asks for a stroke. -/
def sink (stroker : Stroker α σ) (step : α) : Sink α (SurfacePen α σ) where
  onMove place pen := { pen with position := some place }
  onDraw place pen :=
    match pen.position with
    | none => { pen with position := some place }
    | some start =>
      { position := some place
        hue := pen.hue + step
        surface := stroker pen.surface ⟨start, place, .ofHsv pen.hue 1 1⟩ }

end SurfacePen

/-- A pen that keeps its strokes. -/
abbrev HuePen (α : Type) : Type := SurfacePen α (Array (Stroke α))

namespace HuePen

variable {α : Type} [Scalar α]

/-- How far the hues walk along the wheel. -/
def sweep : α := Scalar.ofDecimal 199 (-2) * Scalar.pi

/-- The step from one hue to the next, where so many strokes are expected. -/
def step (expected : Nat) : α := sweep / Scalar.ofCount (max expected 1)

/-- A pen that has not been sent anywhere. -/
def initial : HuePen α := SurfacePen.initial #[]

/-- The sink that keeps strokes with changing hues. -/
def sink (step : α) : Sink α (HuePen α) := SurfacePen.sink Array.push step

/-- The strokes that have been drawn. -/
def strokes (pen : HuePen α) : Array (Stroke α) := pen.surface

end HuePen

end PenPlot
