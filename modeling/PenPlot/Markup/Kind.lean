/-!
# Kinds of elements

The elements that mean something to a plot are two containers and seven shapes. All other tags, close
tags among them, are taken one by one as unrecognized.
-/

namespace PenPlot

/-- The elements that hold others. -/
inductive ContainerKind where
  /-- A drawing, or a shifted part of one. -/
  | svg
  /-- A group that shares a transform. -/
  | group
  deriving DecidableEq, Repr

/-- The elements that are drawn. -/
inductive ShapeKind where
  /-- A straight line. -/
  | line
  /-- Straight lines from point to point. -/
  | polyline
  /-- Straight lines from point to point, and back to the first. -/
  | polygon
  /-- A rectangle, whose corners may be rounded. -/
  | rect
  /-- A circle. -/
  | circle
  /-- An ellipse with its axes along those of the plane. -/
  | ellipse
  /-- A path. -/
  | path
  deriving DecidableEq, Repr

/-- What an element is taken as. -/
inductive ElementKind where
  /-- An element that holds others. -/
  | container (kind : ContainerKind)
  /-- An element that is drawn. -/
  | shape (kind : ShapeKind)
  /-- Any other tag. -/
  | unrecognized
  deriving DecidableEq, Repr

/-- How a container is written. -/
def ContainerKind.name : ContainerKind → String
  | svg => "svg"
  | group => "g"

/-- How a shape is written. -/
def ShapeKind.name : ShapeKind → String
  | line => "line"
  | polyline => "polyline"
  | polygon => "polygon"
  | rect => "rect"
  | circle => "circle"
  | ellipse => "ellipse"
  | path => "path"

namespace ElementKind

/-- The name under which an element is counted. -/
def name : ElementKind → String
  | container kind => kind.name
  | shape kind => kind.name
  | unrecognized => "unrecognized"

/-- The kinds that are recognized by name. -/
def known : List ElementKind :=
  [container .svg, container .group, shape .line, shape .polyline, shape .polygon, shape .rect,
    shape .circle, shape .ellipse, shape .path]

/-- The kind of the element with a name. -/
def ofName (text : List Char) : ElementKind :=
  (known.find? fun kind => kind.name.toList == text).getD unrecognized

end ElementKind

end PenPlot
