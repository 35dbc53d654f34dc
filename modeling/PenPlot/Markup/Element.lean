import PenPlot.Markup.Kind
import PenPlot.Markup.Tag

/-!
# Elements

An element is taken from the front of markup: its opening tag, and unless the tag closes itself,
everything up to the matching close tag. The matching close tag is the first one at which the close
tags of that name outnumber the open tags of that name that do not close themselves; tags of other
names do not matter. A tag with an unknown name is taken alone.

What an element holds and what remains behind it are markup again, with fewer tags altogether than
the markup that it was taken from, so that reading a document element by element comes to an end.
-/

namespace PenPlot

open Text

/-- An element that has been taken. -/
structure Element where
  /-- What it is taken as. -/
  kind : ElementKind
  /-- The text behind the name in its tag, trimmed and without the slash of a tag that closes itself
  if the element is known, and as it stands if not. -/
  attributes : List Char
  /-- What stands between its opening and its close tag. -/
  content : Markup
  deriving DecidableEq, Repr

/-- What a tag does to the number of elements with a name that are open. -/
inductive TagRole where
  /-- One more is open. -/
  | opens
  /-- One less is open. -/
  | closes
  /-- Their number does not change. -/
  | other
  deriving DecidableEq, Repr

/-- The last character that is not blank is a slash. -/
def endsWithSlash (inner : List Char) : Bool := (trimEnd inner).getLast? == some '/'

/-- What a tag does to the number of open elements with a name. -/
def Tag.role (name : List Char) (tag : Tag) : TagRole :=
  match tag.inner with
  | '/' :: closing => if tagName closing = name then .closes else .other
  | inner => if tagName inner = name && !endsWithSlash inner then .opens else .other

/-- The tags before the matching close tag, that tag, and the tags behind it, where `depth` elements
of the name are open besides the one that is to be closed. -/
def splitAtClose (name : List Char) : Nat → List Tag → Option (List Tag × Tag × List Tag)
  | _, [] => none
  | depth, tag :: tags =>
    let further (depth : Nat) := (splitAtClose name depth tags).map
      fun (inside, close, behind) => (tag :: inside, close, behind)
    match tag.role name, depth with
    | .closes, 0 => some ([], tag, tags)
    | .closes, depth + 1 => further depth
    | .opens, depth => further (depth + 1)
    | .other, depth => further depth

/-- Nothing is lost between the tags before the close tag and those behind it. -/
theorem splitAtClose_eq_some {name : List Char} {depth : Nat} {tags inside behind : List Tag}
    {close : Tag} (h : splitAtClose name depth tags = some (inside, close, behind)) :
    tags = inside ++ close :: behind := by
  induction tags generalizing depth inside with
  | nil => simp [splitAtClose] at h
  | cons tag tags ih =>
    simp only [splitAtClose] at h
    split at h
    · simp only [Option.some.injEq, Prod.mk.injEq] at h
      obtain ⟨rfl, rfl, rfl⟩ := h
      rfl
    all_goals
      simp only [Option.map_eq_some_iff, Prod.mk.injEq, Prod.exists] at h
      obtain ⟨inside', close', behind', hs, rfl, rfl, rfl⟩ := h
      rw [ih hs, List.cons_append]

/-- What stands before the close tag that matches an opening tag already read. -/
structure Enclosed where
  /-- What stands before the close tag. -/
  content : Markup
  /-- The close tag. -/
  close : Tag
  /-- What stands behind the close tag. -/
  rest : Markup
  deriving DecidableEq, Repr

namespace Markup

/-- Takes the markup apart at the close tag that matches an opening tag before it. -/
def enclosed (name : List Char) (markup : Markup) : Except MarkupFlaw Enclosed :=
  match splitAtClose name 0 markup.tags with
  | some (inside, close, behind) =>
    .ok ⟨⟨inside, .plain close.lead⟩, close, ⟨behind, markup.ending⟩⟩
  | none =>
    match markup.ending with
    | .broken _ flaw => .error flaw
    | .plain _ => .error (.neverClosed name)

/-- The positions, in bytes, of the matching close tag and of what stands behind it. -/
def closePositions (name : List Char) (markup : Markup) : Except MarkupFlaw (Nat × Nat) :=
  (enclosed name markup).map fun found =>
    let position := byteLength found.content.text
    (position, position + byteLength ('<' :: found.close.inner ++ ['>']))

/-- The attribute text of a known element, and whether its tag closes itself. -/
def attributeText (name inner : List Char) : List Char × Bool :=
  let text := trim (inner.drop name.length)
  if text.getLast? = some '/' then (trimEnd text.dropLast, true) else (text, false)

/-- The first element and what remains behind it, or nothing if no tag is left. -/
def take? (markup : Markup) : Except MarkupFlaw (Option (Element × Markup)) :=
  match markup.tags with
  | [] =>
    match markup.ending with
    | .broken _ flaw => .error flaw
    | .plain _ => .ok none
  | tag :: tags =>
    let name := tagName tag.inner
    let kind := ElementKind.ofName name
    let behind : Markup := ⟨tags, markup.ending⟩
    if kind = .unrecognized then
      .ok (some (⟨kind, tag.inner.drop name.length, empty⟩, behind))
    else
      let (attributes, selfClosing) := attributeText name tag.inner
      if selfClosing then .ok (some (⟨kind, attributes, empty⟩, behind))
      else
        (enclosed name behind).map fun found =>
          some (⟨kind, attributes, found.content⟩, found.rest)

/-- An element's content and what remains behind it have fewer tags than the markup. -/
theorem length_take?_lt {markup rest : Markup} {element : Element}
    (h : take? markup = .ok (some (element, rest))) :
    element.content.tags.length + rest.tags.length < markup.tags.length := by
  unfold take? at h
  split at h
  · split at h <;> simp at h
  · next tag tags htags =>
    simp only at h
    rw [htags]
    split at h
    · simp only [Except.ok.injEq, Option.some.injEq, Prod.mk.injEq] at h
      obtain ⟨rfl, rfl⟩ := h
      simp [empty]
    · split at h
      · simp only [Except.ok.injEq, Option.some.injEq, Prod.mk.injEq] at h
        obtain ⟨rfl, rfl⟩ := h
        simp [empty]
      · unfold enclosed at h
        simp only at h
        split at h
        · next inside close behind hs =>
          simp only [Except.map, Except.ok.injEq, Option.some.injEq, Prod.mk.injEq] at h
          obtain ⟨rfl, rfl⟩ := h
          have hl := congrArg List.length (splitAtClose_eq_some hs)
          simp only [List.length_append, List.length_cons] at hl ⊢
          omega
        · split at h <;> simp [Except.map] at h

/-- The elements of markup, taken one behind the other, each with what remains behind it, and the
flaw at which the taking stops, if it does not stop at the end. -/
def elements (markup : Markup) : List (Element × Markup) × Option MarkupFlaw :=
  match h : take? markup with
  | .error flaw => ([], some flaw)
  | .ok none => ([], none)
  | .ok (some (element, rest)) =>
    have : rest.tags.length < markup.tags.length := by
      have := length_take?_lt h
      omega
    let (later, flaw?) := elements rest
    ((element, rest) :: later, flaw?)
termination_by markup.tags.length

end Markup

end PenPlot
