import PenPlot.Geometry.Point

/-!
# Affine transforms

A transform maps `(x, y)` to `(a x + c y + e, b x + d y + f)`; its six coefficients are the first two
rows of the matrix

    a c e
    b d f
    0 0 1

Transforms of nested coordinate systems are multiplied from the outside in: `outer.comp inner` maps a
point by `inner` first.
-/

namespace PenPlot

/-- An affine transform of the plane. -/
structure Affine (α : Type) where
  /-- How far the abscissa moves along the abscissa. -/
  a : α
  /-- How far the abscissa moves along the ordinate. -/
  b : α
  /-- How far the ordinate moves along the abscissa. -/
  c : α
  /-- How far the ordinate moves along the ordinate. -/
  d : α
  /-- Where the origin goes along the abscissa. -/
  e : α
  /-- Where the origin goes along the ordinate. -/
  f : α
  deriving DecidableEq, Repr

namespace Affine

variable {α : Type} [Scalar α]

/-- The transform that moves nothing. -/
def identity : Affine α := ⟨1, 0, 0, 1, 0, 0⟩

/-- The shift by `(tx, ty)`. -/
def translate (tx ty : α) : Affine α := ⟨1, 0, 0, 1, tx, ty⟩

/-- The stretch by `sx` and `sy` along the axes. -/
def scale (sx sy : α) : Affine α := ⟨sx, 0, 0, sy, 0, 0⟩

/-- The rotation about the origin by an angle in radians, from the abscissa to the ordinate. -/
def rotate (angle : α) : Affine α :=
  let s := Scalar.sin angle
  let c := Scalar.cos angle
  ⟨c, s, -s, c, 0, 0⟩

/-- The slant along the abscissa by an angle in radians. -/
def skewX (angle : α) : Affine α := ⟨1, 0, Scalar.tan angle, 1, 0, 0⟩

/-- The slant along the ordinate by an angle in radians. -/
def skewY (angle : α) : Affine α := ⟨1, Scalar.tan angle, 0, 1, 0, 0⟩

/-- The product, which maps by `inner` first and by `outer` then. -/
def comp (outer inner : Affine α) : Affine α where
  a := outer.a * inner.a + outer.c * inner.b
  b := outer.b * inner.a + outer.d * inner.b
  c := outer.a * inner.c + outer.c * inner.d
  d := outer.b * inner.c + outer.d * inner.d
  e := outer.a * inner.e + outer.c * inner.f + outer.e
  f := outer.b * inner.e + outer.d * inner.f + outer.f

/-- The rotation about a pivot. -/
def rotateAround (angle : α) (pivot : Point α) : Affine α :=
  ((translate pivot.x pivot.y).comp (rotate angle)).comp (translate (-pivot.x) (-pivot.y))

/-- Where a point of the document goes on the canvas. -/
def apply (m : Affine α) (p : Point α) : CanvasPoint α where
  x := m.a * p.x + m.c * p.y + m.e
  y := m.b * p.x + m.d * p.y + m.f

/-- The factor by which areas grow. -/
def determinant (m : Affine α) : α := m.a * m.d - m.b * m.c

/-- The inverse, which exists unless the determinant is zero or out of range. -/
def invert? (m : Affine α) : Option (Affine α) :=
  let det := m.determinant
  if det == 0 || !Scalar.isFinite det then none
  else
    let a := m.d / det
    let b := -m.b / det
    let c := -m.c / det
    let d := m.a / det
    some
      { a, b, c, d
        e := -(a * m.e + c * m.f)
        f := -(b * m.e + d * m.f) }

end Affine

end PenPlot
