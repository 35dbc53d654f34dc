import PenPlot.Plot.CommandFile
import PenPlot.Plot.Walk
import PenPlot.Preview.Picture

/-!
# Settings

A plotter is set up with a canvas, a resolution, a choice to subdivide lines, and a file for a trace.
All have defaults, and all but the choice can be given by variables of the environment. A plotter is
only made of settings that make sense.
-/

namespace PenPlot

/-- Why there is no plotter or no picture for settings. -/
inductive SettingsFlaw where
  /-- The value of a variable cannot be read. -/
  | unreadable (name : String) (value : List Char)
  /-- The canvas has no positive finite extent. -/
  | canvas (size : Size Float)
  /-- Curves would take no stroke at all. -/
  | resolution
  /-- A picture cannot be drawn. -/
  | picture (flaw : PictureFlaw)

/-- Why something that was asked for cannot be done. -/
inductive Failure where
  /-- The document is at fault. -/
  | document (fault : Fault Float)
  /-- The settings are. -/
  | settings (flaw : SettingsFlaw)
  /-- A file cannot be read or written. -/
  | io (fault : IoFault)

/-- The wording of a flaw. -/
def SettingsFlaw.message : SettingsFlaw → String
  | unreadable name value => name ++ ": cannot parse " ++ Text.quoted value
  | canvas size =>
    "canvas size must be positive, got " ++ Decimal.display size.width ++ " x " ++
      Decimal.display size.height
  | resolution => "resolution must be >= 1"
  | picture flaw => flaw.message

/-- The wording of a flaw as a failure. -/
def SettingsFlaw.failureMessage (flaw : SettingsFlaw) : String :=
  "invalid configuration: " ++ flaw.message

/-- What a plotter is set up with. -/
structure Settings where
  /-- The extent of the canvas. -/
  canvas : Size Float
  /-- How many strokes a curve takes. -/
  resolution : Nat
  /-- Straight lines take as many strokes as curves. -/
  subdivideLines : Bool
  /-- The file for a trace. -/
  tracePath : Option String

/-- A plotter: what it draws on, and where it reports its passes, if it does. -/
structure Plotter where
  /-- What it draws on, and how finely. -/
  sheet : Sheet Float
  /-- The file for the trace. -/
  tracePath : Option String

namespace Settings

/-- The extent of the canvas, either way, where none is asked for. -/
def defaultExtent : Float := 350

/-- The settings where nothing is asked for. -/
def standard : Settings where
  canvas := ⟨defaultExtent, defaultExtent⟩
  resolution := Flattener.defaultResolution
  subdivideLines := false
  tracePath := none

/-- The texts of values that are no numbers of the usual kind, apart from case. -/
def specialValues : List (String × Float) :=
  [("inf", 1.0 / 0.0), ("infinity", 1.0 / 0.0), ("nan", 0.0 / 0.0)]

/-- The value that a text writes: a number literal, or an optional sign and a special value. -/
def readValue? (text : List Char) : Option Float :=
  match Literal.read? text with
  | some (literal, []) => some literal.value
  | _ =>
    let (sign, unsigned) := Sign.read text
    let special := specialValues.find? fun (name, _) => name.toList == unsigned.map Char.toLower
    special.map fun (_, value) => if sign = some .minus then -value else value

/-- The greatest count. -/
def maxCount : Nat := 0xFFFFFFFFFFFFFFFF

/-- The count that a text writes: digits behind an optional plus sign. -/
def readCount? (text : List Char) : Option Nat :=
  let digits := match text with
    | '+' :: digits => digits
    | digits => digits
  if digits.isEmpty || !digits.all Char.isDigit || maxCount < digitsValue digits then none
  else some (digitsValue digits)

/-- The value of a variable, blanks around it apart, or a default if the variable is not set. -/
def variableOr {β : Type} (lookup : String → Option String) (read? : List Char → Option β)
    (default : β) (name : String) : Except SettingsFlaw β :=
  match lookup name with
  | none => .ok default
  | some value =>
    match read? (Text.trim value.toList) with
    | some result => .ok result
    | none => .error (.unreadable name value.toList)

/-- The default settings, apart from those that variables of the environment give. A blank path is
none. -/
def ofEnvironment (lookup : String → Option String) : Except SettingsFlaw Settings := do
  let width ← variableOr lookup readValue? defaultExtent "SVGPEN_CANVAS_WIDTH"
  let height ← variableOr lookup readValue? defaultExtent "SVGPEN_CANVAS_HEIGHT"
  let resolution ← variableOr lookup readCount? Flattener.defaultResolution "SVGPEN_RESOLUTION"
  let path := (lookup "SVGPEN_DEBUG_LOG").filter fun path => !path.toList.all Text.isBlank
  pure { standard with canvas := ⟨width, height⟩, resolution := resolution, tracePath := path }

/-- The plotter that settings make, where `create` says whether a file for a trace can be made. -/
def plotter (settings : Settings) (create : String → Option IoFault) : Except Failure Plotter :=
  let canvas := settings.canvas
  if !(canvas.width.isFinite && canvas.height.isFinite && 0 < canvas.width && 0 < canvas.height) then
    .error (.settings (.canvas canvas))
  else if settings.resolution = 0 then .error (.settings .resolution)
  else
    match settings.tracePath.bind create with
    | some fault => .error (.io fault)
    | none =>
      .ok
        { sheet := ⟨canvas, .ofResolution settings.resolution settings.subdivideLines⟩
          tracePath := settings.tracePath }

end Settings

end PenPlot
