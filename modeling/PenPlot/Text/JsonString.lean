/-!
# Strings in JSON

A JSON string holds every character as itself, apart from the quotation mark and the backslash, which
take a backslash before them, and the control characters, which have escapes: one letter for line
ends and tabs, and four hexadecimal digits for the others.
-/

namespace PenPlot.Text

/-- The lower-case hexadecimal digits of a number below 65536, padded to four. -/
def fourHexDigits (n : Nat) : List Char :=
  [n / 4096 % 16, n / 256 % 16, n / 16 % 16, n % 16].map Nat.digitChar

/-- A character as it stands in a JSON string. -/
def jsonChar (c : Char) : List Char :=
  match c with
  | '\\' => ['\\', '\\']
  | '"' => ['\\', '"']
  | '\n' => ['\\', 'n']
  | '\r' => ['\\', 'r']
  | '\t' => ['\\', 't']
  | _ => if c.toNat < 0x20 then '\\' :: 'u' :: fourHexDigits c.toNat else [c]

/-- A text as it stands between the quotation marks of a JSON string. -/
def jsonEscape (text : List Char) : List Char := text.flatMap jsonChar

end PenPlot.Text
