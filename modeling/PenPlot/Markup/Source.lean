/-!
# Source texts

A source text may hold comments, and line breaks inside the quoted values of its attributes. Before
it is read, comments are taken out, wherever they stand, and the line breaks and tabs inside quoted
values become spaces. Line breaks outside quotations remain.
-/

namespace PenPlot.Source

/-- The text without comments. A comment that is never closed runs to the end. `within` says whether
the text begins inside a comment. -/
def dropComments : (within : Bool) → List Char → List Char
  | _, [] => []
  | false, '<' :: '!' :: '-' :: '-' :: body => dropComments true body
  | false, c :: rest => c :: dropComments false rest
  | true, '-' :: '-' :: '>' :: behind => dropComments false behind
  | true, _ :: rest => dropComments true rest

/-- Where in the markup a character stands. -/
inductive Place where
  /-- Between tags. -/
  | text
  /-- In a tag, outside quotations. -/
  | tag
  /-- In a tag, inside a quotation that this mark opened. -/
  | quotation (mark : Char)
  deriving DecidableEq, Repr

/-- The place behind a character. -/
def Place.next : Place → Char → Place
  | .text, c => if c = '<' then .tag else .text
  | .tag, c => if c = '>' then .text else if c = '"' ∨ c = '\'' then .quotation c else .tag
  | .quotation mark, c => if c = mark then .tag else .quotation mark

/-- The character that is read for a character at a place. -/
def Place.fold : Place → Char → Char
  | .quotation mark, c => if c ≠ mark ∧ (c = '\n' ∨ c = '\r' ∨ c = '\t') then ' ' else c
  | _, c => c

/-- The text with the line breaks and tabs inside quoted values turned into spaces. -/
def foldBreaks (place : Place) : List Char → List Char
  | [] => []
  | c :: rest => place.fold c :: foldBreaks (place.next c) rest

/-- The text that is read for a source text. -/
def prepare (source : List Char) : List Char := foldBreaks .text (dropComments false source)

end PenPlot.Source
