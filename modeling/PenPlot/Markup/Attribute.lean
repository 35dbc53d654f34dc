import PenPlot.Text.Blank
import PenPlot.Text.Quotation

/-!
# Attributes

The value of an attribute is looked up in the attribute text of an element: the name, an equals sign
and a quoted value, with any blanks around the sign. The name has to stand outside quotations and
behind a gap or at the front of the text, so that `cx` is not found in `rcx`. An occurrence that no
equals sign or no quotation follows is passed over.
-/

namespace PenPlot

open Text

/-- What an occurrence of a name comes to. -/
inductive Assignment where
  /-- The name is not given a value here. -/
  | absent
  /-- The name is given this value. -/
  | value (text : List Char)
  /-- The text ends before a value does. -/
  | unfinished
  deriving DecidableEq, Repr

/-- What the text behind a name assigns to it. -/
def Assignment.read (behind : List Char) : Assignment :=
  match trimStart behind with
  | '=' :: text =>
    match trimStart text with
    | [] => .unfinished
    | mark :: body =>
      if QuoteMarks.isQuote mark then
        if mark ∈ body then .value (body.takeWhile (· != mark)) else .unfinished
      else .absent
  | _ => .absent

/-- The name may begin behind that character, or at the front of the text. -/
def mayPrecedeName : Option Char → Bool
  | none => true
  | some c => isGap c

/-- The value of the first assignment to a name in an attribute text. The look-up stops at an
assignment that the text does not finish. -/
def attribute? (name attributes : List Char) : Option (List Char) :=
  let assignments : List Assignment :=
    (occurrences name attributes).map fun (previous, behind) =>
      if mayPrecedeName previous then Assignment.read behind else .absent
  match assignments.find? (· != .absent) with
  | some (.value text) => some text
  | _ => none

end PenPlot
