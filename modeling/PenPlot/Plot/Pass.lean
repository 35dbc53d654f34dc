import PenPlot.Plot.Walk

/-!
# Passes over a document

A pass walks through a document with a sink that keeps all commands. What the pass comes to is what
was met on the way, the commands that were sent to the pen, and a tally of both. A pass that stops at a
fault has sent what came before, and has counted the element at fault as well.
-/

namespace PenPlot

/-- What is met on a walk through a document. -/
structure Walk (α : Type) where
  /-- The visits, in order. -/
  visits : List Visit
  /-- The warnings, in order. -/
  warnings : List (Warning α)
  /-- The fault, which is one of the last visit or of the markup behind it. -/
  fault : Option (Fault α)
  deriving Repr

/-- What a pass over a document comes to. -/
structure Pass (α : Type) where
  /-- What was met, and the fault at which the pass stopped. -/
  walk : Walk α
  /-- The commands that were sent to the pen. -/
  commands : List (PenCommand α)
  /-- What was counted. -/
  tally : Tally
  deriving Repr

variable {α : Type} [Scalar α]

namespace Pass

/-- A pass over a document. -/
def ofText (sheet : Sheet α) (document : List Char) : Pass α :=
  let (result, progress) := walkThrough sheet .recording #[] document
  let fault : Option (Fault α) :=
    match result with
    | .error fault => some fault
    | .ok _ => none
  { walk := ⟨progress.visits.toList, progress.warnings.toList, fault⟩
    commands := progress.receiver.toList
    tally := progress.total }

/-- The tally of a pass that came to the end of its document, or the fault at which it stopped. -/
def result (pass : Pass α) : Except (Fault α) Tally :=
  match pass.walk.fault with
  | some fault => .error fault
  | none => .ok pass.tally

end Pass

end PenPlot
