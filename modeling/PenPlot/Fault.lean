import PenPlot.Decimal.Text
import PenPlot.Geometry.TransformList
import PenPlot.Markup.Tag
import PenPlot.Number.Length
import PenPlot.Path.Instruction

/-!
# Faults of a document

A document is at fault in its markup, or in the value of an attribute. A fault of a value names the
element and the attribute. A reader that is given just the value does not know both of them, and leaves
the name open that it does not know; whoever has looked the value up puts the place right.

The wording of faults and warnings is that of documents read in machine arithmetic.
-/

namespace PenPlot

/-- What is wrong with the value of an attribute. -/
inductive ValueFlaw (α : Type) where
  /-- It is no list of numbers. -/
  | list (flaw : ListFlaw)
  /-- It is no transform list. -/
  | transform (flaw : TransformFlaw)
  /-- It is no path data. -/
  | path (flaw : PathFlaw)
  /-- A list of points has a coordinate without a partner. -/
  | oddCount (count : Nat)
  /-- A length that must not be negative is. -/
  | negative (value : α)
  /-- A window is not given by four numbers. -/
  | windowCount (count : Nat)
  /-- A window has no positive extent along both axes. -/
  | windowSize (width height : α)
  deriving DecidableEq, Repr

/-- Where a value stands. -/
structure Place where
  /-- The name of the element. -/
  elementName : String
  /-- The name of the attribute. -/
  attributeName : String
  deriving DecidableEq, Repr

/-- The name that stands for an element or an attribute that is not known. -/
def Place.unknown : String := "?"

/-- The place of a list, as far as its reader knows it. Just path data has flags. -/
def ListFlaw.place : ListFlaw → Place
  | notNumber _ => ⟨Place.unknown, Place.unknown⟩
  | notFlag _ => ⟨Place.unknown, "d"⟩

/-- The place of a transform list, as far as its reader knows it. Any element may have one. -/
def TransformFlaw.place (_ : TransformFlaw) : Place := ⟨Place.unknown, "transform"⟩

/-- The place of path data, as far as it is known where the flaw is met. -/
def PathFlaw.place : PathFlaw → Place
  | arguments flaw => flaw.place
  | _ => ⟨"path", "d"⟩

/-- Why a document cannot be read to its end. -/
inductive Fault (α : Type) where
  /-- The markup is malformed. -/
  | markup (flaw : MarkupFlaw)
  /-- The value at a place is malformed. -/
  | value (place : Place) (flaw : ValueFlaw α)
  deriving DecidableEq, Repr

namespace Fault

variable {α : Type}

/-- The fault of a list of numbers, as its reader reports it. -/
def ofList (flaw : ListFlaw) : Fault α := value flaw.place (.list flaw)

/-- The fault of a transform list, as its reader reports it. -/
def ofTransform (flaw : TransformFlaw) : Fault α := value flaw.place (.transform flaw)

/-- The fault of path data, as its reader reports it. -/
def ofPath (flaw : PathFlaw) : Fault α := value flaw.place (.path flaw)

/-- The fault at the place where the value has been looked up, whatever its reader knew of it. A fault of
the markup has no such place. -/
def located (elementName attributeName : String) : Fault α → Fault α
  | markup flaw => markup flaw
  | value _ flaw => value ⟨elementName, attributeName⟩ flaw

end Fault

/-- The wording of a flaw. -/
def ValueFlaw.message : ValueFlaw Float → String
  | list flaw => flaw.message
  | transform flaw => flaw.message
  | path flaw => flaw.message
  | oddCount count => s!"odd coordinate count {count}"
  | negative value => "must not be negative, got " ++ Decimal.display value
  | windowCount count => s!"expected 4 numbers, found {count}"
  | windowSize width height =>
    "window must have a positive size, got " ++ Decimal.display width ++ " x " ++
      Decimal.display height

/-- The wording of a fault. -/
def Fault.message : Fault Float → String
  | markup flaw => "malformed markup: " ++ flaw.message
  | value place flaw =>
    "malformed value for `" ++ place.attributeName ++ "` on <" ++ place.elementName ++ ">: " ++
      flaw.message

/-- The wording of a warning. -/
def LengthWarning.message : LengthWarning Float → String
  | notNumber text default =>
    "not a number: " ++ Text.quoted text ++ ", using " ++ Decimal.display default
  | unknownUnit suffix text =>
    "unknown unit " ++ Text.quoted suffix ++ " in " ++ Text.quoted text ++
      ", treating value as unit-less"

end PenPlot
