import PenPlot.Markup.Tag

/-!
# Searching by position

The search outside quotations, with positions in bytes. It may begin at any byte, be it inside a
character or behind the end.
-/

namespace PenPlot

open Text

/-- The position of the first byte at or behind `start` at which `needle` stands outside quotations,
if there is one. A quotation that is never closed before that is a flaw. -/
def findByte (needle haystack : List Char) (start : Nat) : Except MarkupFlaw (Option Nat) :=
  match seek (bytes needle) ((bytes haystack).drop start) with
  | .found before _ => .ok (some (start + before.length))
  | .absent => .ok none
  | .unclosed quotation =>
    .error (.unclosedQuotation (dropBytes (byteLength haystack - quotation.length) haystack))

end PenPlot
