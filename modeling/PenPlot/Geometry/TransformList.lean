import PenPlot.Geometry.Affine
import PenPlot.Number.List

/-!
# Transform lists

A transform attribute is a list of calls such as `translate(10,20) rotate(45 5 5)`, separated by
blanks and commas. Each call is a transform, and the list is their product from the left, so that the
last call is applied to a point first. Angles are in degrees.
-/

namespace PenPlot

/-- The functions of a transform list. -/
inductive TransformFunction where
  /-- All six coefficients. -/
  | matrix
  /-- A shift, along the abscissa alone if one number is given. -/
  | translate
  /-- A stretch, the same along both axes if one number is given. -/
  | scale
  /-- A rotation, about the origin if only the angle is given. -/
  | rotate
  /-- A slant along the abscissa. -/
  | skewX
  /-- A slant along the ordinate. -/
  | skewY
  deriving DecidableEq, Repr

namespace TransformFunction

/-- All functions. -/
def all : List TransformFunction := [matrix, translate, scale, rotate, skewX, skewY]

/-- How a function is written. -/
def name : TransformFunction → String
  | matrix => "matrix"
  | translate => "translate"
  | scale => "scale"
  | rotate => "rotate"
  | skewX => "skewX"
  | skewY => "skewY"

/-- The function whose name stands at the front of a text. No name is the beginning of another. -/
def ofPrefix? (text : List Char) : Option TransformFunction :=
  all.find? fun function => function.name.toList.isPrefixOf text

variable {α : Type} [Scalar α]

/-- The transform of a call, if the function takes that many arguments. -/
def call? : TransformFunction → List α → Option (Affine α)
  | matrix, [a, b, c, d, e, f] => some ⟨a, b, c, d, e, f⟩
  | translate, [tx] => some (.translate tx 0)
  | translate, [tx, ty] => some (.translate tx ty)
  | scale, [s] => some (.scale s s)
  | scale, [sx, sy] => some (.scale sx sy)
  | rotate, [degrees] => some (.rotate (Scalar.ofDegrees degrees))
  | rotate, [degrees, x, y] => some (.rotateAround (Scalar.ofDegrees degrees) ⟨x, y⟩)
  | skewX, [degrees] => some (.skewX (Scalar.ofDegrees degrees))
  | skewY, [degrees] => some (.skewY (Scalar.ofDegrees degrees))
  | _, _ => none

end TransformFunction

/-- Why a transform list cannot be read. -/
inductive TransformFlaw where
  /-- No function name stands at the front of the rest of the text. -/
  | unknownFunction (rest : List Char)
  /-- The name is not followed by an opening parenthesis. -/
  | missingParenthesis (function : TransformFunction)
  /-- The arguments are not followed by a closing parenthesis. -/
  | unclosed (function : TransformFunction)
  /-- The arguments are no list of numbers. -/
  | arguments (flaw : ListFlaw)
  /-- The function does not take that many arguments. -/
  | argumentCount (function : TransformFunction) (count : Nat)
  deriving DecidableEq, Repr

/-- The wording of a flaw. -/
def TransformFlaw.message : TransformFlaw → String
  | unknownFunction rest => "unknown transform function at " ++ Text.quoted rest
  | missingParenthesis function => "expected '(' after " ++ function.name
  | unclosed function => "unclosed argument list for " ++ function.name
  | arguments flaw => flaw.message
  | argumentCount function count => s!"{function.name} does not take {count} argument(s)"

namespace Affine

variable {α : Type} [Scalar α]

/-- The call at the front of a text, and the rest behind its closing parenthesis. -/
def readCall (text : List Char) : Except TransformFlaw (Affine α × List Char) :=
  match TransformFunction.ofPrefix? text with
  | none => .error (.unknownFunction text)
  | some function =>
    match Text.trimStart (text.drop function.name.toList.length) with
    | '(' :: behind =>
      match behind.dropWhile (· != ')') with
      | [] => .error (.unclosed function)
      | _ :: rest =>
        match readNumbers (α := α) (behind.takeWhile (· != ')')) with
        | .error flaw => .error (.arguments flaw)
        | .ok arguments =>
          match function.call? arguments with
          | none => .error (.argumentCount function arguments.length)
          | some transform => .ok (transform, rest)
    | _ => .error (.missingParenthesis function)

/-- A call takes something of the text. -/
theorem length_readCall_lt {text rest : List Char} {transform : Affine α}
    (h : readCall text = .ok (transform, rest)) : rest.length < text.length := by
  unfold readCall at h
  split at h
  · cases h
  · next function _ =>
    split at h
    · next behind hbehind =>
      have hlt : behind.length + 1 ≤ text.length := by
        have h1 : (Text.trimStart (text.drop function.name.toList.length)).length ≤ text.length :=
          Nat.le_trans (List.dropWhile_sublist _).length_le (List.drop_sublist _ _).length_le
        rw [hbehind] at h1
        simpa using h1
      split at h
      · cases h
      · next rest' hrest =>
        have hle := (List.dropWhile_sublist (l := behind) (· != ')')).length_le
        rw [hrest, List.length_cons] at hle
        split at h
        · cases h
        · split at h
          · cases h
          · simp only [Except.ok.injEq, Prod.mk.injEq] at h
            obtain ⟨-, rfl⟩ := h
            omega
    · cases h

/-- The product of the calls of a text, multiplied to a transform from the right. -/
def readCalls (transform : Affine α) (text : List Char) : Except TransformFlaw (Affine α) :=
  if text.isEmpty then .ok transform
  else
    match hc : readCall (α := α) text with
    | .error flaw => .error flaw
    | .ok (call, rest) =>
      have : (Text.skipSeparators rest).length < text.length :=
        Nat.lt_of_le_of_lt (List.dropWhile_sublist _).length_le (length_readCall_lt hc)
      readCalls (transform.comp call) (Text.skipSeparators rest)
termination_by text.length

theorem readCalls_nil (transform : Affine α) : readCalls transform [] = .ok transform := by
  rw [readCalls.eq_def]
  rfl

/-- The first call is multiplied before those of the rest. -/
theorem readCalls_of_ne_nil {text : List Char} (h : text ≠ []) (transform : Affine α) :
    readCalls transform text =
      (readCall text).bind fun (call, rest) =>
        readCalls (transform.comp call) (Text.skipSeparators rest) := by
  rw [readCalls.eq_def, if_neg (by simpa using h)]
  split
  · next hc => simp only [hc, Except.bind]
  · next hc => simp only [hc, Except.bind]

/-- The transform that a transform list gives. -/
def readList (text : List Char) : Except TransformFlaw (Affine α) :=
  readCalls identity (Text.skipSeparators text)

end Affine

end PenPlot
