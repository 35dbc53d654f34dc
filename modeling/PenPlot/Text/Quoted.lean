import PenPlot.Text.Glyph

/-!
# Quoted texts

Messages quote the text they complain about between double quotes. A character that can be seen is
written as itself, apart from the double quote and the backslash, which take a backslash before them.
Line ends, tabs and the zero character have escapes of one letter, and every other hidden character
is written by its code point in hexadecimal. A long text is cut to an excerpt.
-/

namespace PenPlot.Text

/-- The escape that gives a character by its code point. -/
def codePointEscape (c : Char) : List Char :=
  ['\\', 'u', '\x7b'] ++ Nat.toDigits 16 c.toNat ++ ['\x7d']

/-- A character as it stands in a quoted text. -/
def quotedChar (c : Char) : List Char :=
  match c with
  | '\x00' => ['\\', '0']
  | '\t' => ['\\', 't']
  | '\n' => ['\\', 'n']
  | '\r' => ['\\', 'r']
  | '"' => ['\\', '"']
  | '\\' => ['\\', '\\']
  | _ => if isHidden c then codePointEscape c else [c]

/-- The text between double quotes. -/
def quoted (text : List Char) : String :=
  String.ofList ('"' :: text.flatMap quotedChar ++ ['"'])

/-- How many characters an excerpt shows. -/
def excerptLength : Nat := 40

/-- The beginning of the text, quoted, with three points behind it if something is cut off. -/
def excerpt (text : List Char) : String :=
  quoted (text.take excerptLength) ++ if excerptLength < text.length then "..." else ""

end PenPlot.Text
