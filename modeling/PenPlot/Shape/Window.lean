import PenPlot.Geometry.Window
import PenPlot.Shape.Reading

/-!
# The window of a drawing

A drawing declares its window by four numbers in `viewBox`, and if it has none, by its width and its
height, which start at the origin and are those of the canvas where they are missing.
-/

namespace PenPlot

variable {α : Type} [Scalar α]

/-- The window, if it has a positive extent; the fault is one of the attribute that it came from. -/
def Window.checked (attributeName : String) (window : Window α) : Reading α (Window α) :=
  if window.isProper then .ok window
  else .fail (.value ⟨"svg", attributeName⟩ (.windowSize window.width window.height))

/-- The window that the attributes of a drawing declare. -/
def Window.ofAttributes (attributes : List Char) (canvas : Size α) : Reading α (Window α) :=
  match attribute? "viewBox".toList attributes with
  | some text => do
    match ← Reading.located "svg" "viewBox" ((readNumbers text).mapError .ofList) with
    | [minX, minY, width, height] => Window.checked "viewBox" ⟨minX, minY, width, height⟩
    | values => .fail (.value ⟨"svg", "viewBox"⟩ (.windowCount values.length))
  | none => do
    let width ← .lengthOr canvas.width attributes "width"
    let height ← .lengthOr canvas.height attributes "height"
    Window.checked "width" ⟨0, 0, width, height⟩

end PenPlot
