import PenPlot.Plot.Walk

/-!
# Documents as trees

A well-formed document is a forest: text, tags that mean nothing, and elements, some of which hold a
forest. It is printed in the obvious way. What drawing it comes to can be said on the forest itself,
without printing it, without tags to be matched, and without a tracker that is handed from shape to
shape.
-/

namespace PenPlot

open Text

/-! ## Forests -/

/-- Text inside a tag: every quotation is closed, and no `>` stands outside quotations. -/
inductive IsTagText : List Char → Prop where
  /-- No text. -/
  | nil : IsTagText []
  /-- A character outside quotations. -/
  | plain {c : Char} {rest : List Char} : QuoteMarks.isQuote c = false → c ≠ '>' →
      IsTagText rest → IsTagText (c :: rest)
  /-- A quotation. -/
  | quotation {mark : Char} {body rest : List Char} : QuoteMarks.isQuote mark = true →
      mark ∉ body → IsTagText rest → IsTagText (mark :: (body ++ mark :: rest))

/-- Text between tags. -/
structure Prose where
  /-- The text. -/
  text : List Char
  /-- No tag begins in it. -/
  noTag : '<' ∉ text

/-- A tag that means nothing. -/
structure StrayTag where
  /-- The text between the `<` and the `>`. -/
  inner : List Char
  /-- The tag ends behind it. -/
  isTagText : IsTagText inner
  /-- The name is not that of an element. -/
  unrecognized : ElementKind.ofName (tagName inner) = .unrecognized
  /-- If it is a close tag, then not of an element. -/
  closesNone : ∀ closing, inner = '/' :: closing →
    ElementKind.ofName (tagName closing) = .unrecognized

/-- The attribute text of an element that closes itself. -/
structure ClosedAttributes where
  /-- The text behind the name. -/
  text : List Char
  /-- The tag ends behind it. -/
  isTagText : IsTagText text

/-- The attribute text of an element with an opening and a close tag. -/
structure OpenAttributes extends ClosedAttributes where
  /-- The tag does not close itself. -/
  noSlash : (trim text).getLast? ≠ some '/'

/-- The kinds of elements that mean something. -/
inductive KnownKind where
  /-- An element that holds others. -/
  | container (kind : ContainerKind)
  /-- An element that is drawn. -/
  | shape (kind : ShapeKind)
  deriving DecidableEq, Repr

namespace KnownKind

/-- What the element is taken as. -/
def toElementKind : KnownKind → ElementKind
  | container kind => .container kind
  | shape kind => .shape kind

/-- How the element is written. -/
def name (kind : KnownKind) : List Char := kind.toElementKind.name.toList

end KnownKind

/-- A well-formed document. Every constructor but the first puts something in front of a forest. -/
inductive Forest where
  /-- Nothing. -/
  | nil
  /-- Text between tags. -/
  | prose (words : Prose) (behind : Forest)
  /-- A tag that means nothing. -/
  | stray (tag : StrayTag) (behind : Forest)
  /-- An element that closes itself. -/
  | closed (kind : KnownKind) (attributes : ClosedAttributes) (behind : Forest)
  /-- An element around a forest. -/
  | paired (kind : KnownKind) (attributes : OpenAttributes) (inside behind : Forest)

namespace Forest

/-- The text of a document. -/
def print : Forest → List Char
  | nil => []
  | prose words behind => words.text ++ behind.print
  | stray tag behind => '<' :: tag.inner ++ '>' :: behind.print
  | closed kind attributes behind =>
    '<' :: kind.name ++ ' ' :: attributes.text ++ '/' :: '>' :: behind.print
  | paired kind attributes inside behind =>
    '<' :: kind.name ++ ' ' :: attributes.text ++ '>' :: inside.print ++
      '<' :: '/' :: kind.name ++ '>' :: behind.print

/-- An apostrophe between tags means nothing. -/
example :
    print (paired (.container .group) ⟨⟨[], .nil⟩, by decide⟩
      (prose ⟨"it's".toList, by decide⟩ nil) nil) = "<g >it's</g>".toList := by
  decide

end Forest

/-! ## What a forest comes to -/

/-- What drawing comes to. -/
structure Outcome (α : Type) where
  /-- The commands that are sent. -/
  commands : List (PenCommand α) := []
  /-- What is counted. -/
  tally : Tally := {}
  /-- The fault at which the drawing stops, if it does. -/
  fault : Option (Fault α) := none

namespace Outcome

variable {α : Type}

/-- One outcome and, unless it stops at a fault, another behind it. -/
def andThen (first second : Outcome α) : Outcome α :=
  match first.fault with
  | some _ => first
  | none => ⟨first.commands ++ second.commands, first.tally.merge second.tally, second.fault⟩

/-- The tally, or the fault. -/
def result (outcome : Outcome α) : Except (Fault α) Tally :=
  match outcome.fault with
  | some fault => .error fault
  | none => .ok outcome.tally

end Outcome

variable {α : Type} [Scalar α]

/-- The containers around an element, outermost first, and the view box of the outermost drawing among
them. -/
structure Ancestry (α : Type) where
  /-- The transforms that the containers contribute. -/
  transforms : List (Affine α)
  /-- The view box, if there is a drawing. -/
  box : Option (ViewBox α)

namespace Ancestry

/-- There are no containers around. -/
def root : Ancestry α := ⟨[], none⟩

/-- The product of the transforms, the outermost on the left. -/
def transform (ancestry : Ancestry α) : Affine α := ancestry.transforms.foldl .comp .identity

/-- The ancestry of what a container with given attributes holds: a group contributes its transform
list, the outermost drawing fits its window into the canvas, and a drawing inside another only shifts
what it holds. -/
def extend (sheet : Sheet α) (ancestry : Ancestry α) (kind : ContainerKind)
    (attributes : List Char) : Reading α (Ancestry α) :=
  match kind, ancestry.box with
  | .group, box => do
    let own ← ownTransform "g" attributes
    pure ⟨ancestry.transforms ++ [own], box⟩
  | .svg, none => do
    let window ← Window.ofAttributes attributes sheet.canvas
    let (fit, box) := window.fit sheet.canvas
    pure ⟨ancestry.transforms ++ [fit], some box⟩
  | .svg, some box => do
    let x ← .length attributes "x"
    let y ← .length attributes "y"
    pure ⟨ancestry.transforms ++ [.translate x y], some box⟩

/-- What a shape comes to. Inside a drawing it is drawn under the transforms of its containers and then
its own, as far as the view box shows it; outside every drawing it is only counted. -/
def drawShape (sheet : Sheet α) (ancestry : Ancestry α) (kind : ShapeKind)
    (attributes : List Char) : Outcome α :=
  let named := Tally.named {} kind.name
  match ancestry.box with
  | none => { tally := named.oneOrphan }
  | some box =>
    let reading : Reading α (List (PenCommand α)) := do
      let own ← ownTransform kind.name attributes
      sheet.flattener.flattenShape kind attributes (ancestry.transform.comp own)
    match reading.result with
    | .error fault => { tally := named.oneShape, fault := some fault }
    | .ok commands =>
      let (sent, tracker) := (Tracker.ofBox box).run (commands.map .pen)
      { commands := sent, tally := { named.oneShape with pen := tracker.counts } }

/-- What an element comes to, where `inside` is what its content comes to with a given ancestry. The
content of a shape does not matter. -/
def drawElement (sheet : Sheet α) (ancestry : Ancestry α) (kind : KnownKind)
    (attributes : List Char) (inside : Ancestry α → Outcome α) : Outcome α :=
  match kind with
  | .shape kind => ancestry.drawShape sheet kind attributes
  | .container kind =>
    let counted := (Tally.named {} kind.name).oneContainer
    match (ancestry.extend sheet kind attributes).result with
    | .error fault => { tally := counted, fault := some fault }
    | .ok inner => Outcome.andThen { tally := counted } (inside inner)

end Ancestry

/-- What a forest comes to with a given ancestry. Attribute texts are read without the blanks around
them. -/
def Forest.draw (sheet : Sheet α) (ancestry : Ancestry α) : Forest → Outcome α
  | nil => {}
  | prose _ behind => behind.draw sheet ancestry
  | stray _ behind =>
    Outcome.andThen { tally := (Tally.named {} "unrecognized").oneUnrecognized }
      (behind.draw sheet ancestry)
  | closed kind attributes behind =>
    (ancestry.drawElement sheet kind (trim attributes.text) fun _ => {}).andThen
      (behind.draw sheet ancestry)
  | paired kind attributes inside behind =>
    (ancestry.drawElement sheet kind (trim attributes.text)
      fun inner => inside.draw sheet inner).andThen (behind.draw sheet ancestry)

end PenPlot
