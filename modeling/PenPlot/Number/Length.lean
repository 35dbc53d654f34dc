import PenPlot.Number.Literal
import PenPlot.Text.Blank

/-!
# Lengths

A length is a number literal with an optional unit behind it, with blanks around and between them.
Every unit has a fixed factor that takes it to user units, of which 90 make an inch. A length that
cannot be read as it stands is not an error: the reading falls back, and warns.
-/

namespace PenPlot

/-- The units of length. -/
inductive LengthUnit where
  /-- A pixel, one user unit. -/
  | px
  /-- A point. -/
  | pt
  /-- A pica. -/
  | pc
  /-- A millimetre. -/
  | mm
  /-- A centimetre. -/
  | cm
  /-- An inch. -/
  | inch
  deriving DecidableEq, Repr

namespace LengthUnit

/-- All units, in the order in which they are listed. -/
def all : List LengthUnit := [px, pt, pc, mm, cm, inch]

/-- How a unit is written. -/
def suffix : LengthUnit → String
  | px => "px"
  | pt => "pt"
  | pc => "pc"
  | mm => "mm"
  | cm => "cm"
  | inch => "in"

/-- How many user units a unit has. -/
def factor {α : Type} [Scalar α] : LengthUnit → α
  | px => 1
  | pt => Scalar.ofDecimal 125 (-2)
  | pc => 15
  | mm => Scalar.ofDecimal 3543307 (-6)
  | cm => Scalar.ofDecimal 3543307 (-5)
  | inch => 90

/-- The unit that a text writes. -/
def ofSuffix? (text : List Char) : Option LengthUnit :=
  all.find? fun unit => unit.suffix.toList == text

end LengthUnit

/-- Why a length was not read as it stands. Both texts are without blanks around them. -/
inductive LengthWarning (α : Type) where
  /-- The text does not begin with a number, and the default was used. -/
  | notNumber (text : List Char) (default : α)
  /-- The suffix is no unit, and the number was used without one. -/
  | unknownUnit (suffix text : List Char)
  deriving Repr

/-- The length that a text gives, and the warnings about it. A blank text gives the default. -/
def readLength {α : Type} [Scalar α] (text : List Char) (default : α) :
    α × List (LengthWarning α) :=
  let trimmed := Text.trim text
  if trimmed.isEmpty then (default, [])
  else
    match Literal.read? trimmed with
    | none => (default, [.notNumber trimmed default])
    | some (literal, rest) =>
      let suffix := Text.trim rest
      if suffix.isEmpty then (literal.value, [])
      else
        match LengthUnit.ofSuffix? suffix with
        | some unit => (literal.value * unit.factor, [])
        | none => (literal.value, [.unknownUnit suffix trimmed])

end PenPlot
