import PenPlot.Proofs.Printing

/-!
# Taking apart what was printed

From the text of a forest its trees are taken one behind the other. A stray tag is taken alone. An
element is taken with its attribute text and with the text of the forest inside it, and the taking goes
on with the text of the forest behind it, until no tag is left. Text between the trees is passed over,
and what an element holds is not looked into.
-/

namespace PenPlot

open Text

/-! ## Elements, one behind the other -/

namespace Markup

/-- Without a tag there is no element. -/
theorem elements_of_none {markup : Markup} (h : markup.take? = .ok none) :
    markup.elements = ([], none) := by
  rw [elements]
  split
  · next heq =>
    rw [h] at heq
    cases heq
  · rfl
  · next heq =>
    rw [h] at heq
    cases heq

/-- The first element stands in front of those that remain behind it. -/
theorem elements_of_some {markup rest : Markup} {element : Element}
    (h : markup.take? = .ok (some (element, rest))) :
    markup.elements = ((element, rest) :: rest.elements.1, rest.elements.2) := by
  rw [elements]
  split
  · next heq =>
    rw [h] at heq
    cases heq
  · next heq =>
    rw [h] at heq
    cases heq
  · next heq =>
    rw [h] at heq
    cases heq
    rfl

@[simp]
theorem scan_nil : scan [] = empty := by
  rw [scan_eq]
  rfl

end Markup

/-! ## What is taken from a forest -/

/-- An element that is taken from a text, with the texts of what it holds and of what remains. -/
structure Taken where
  /-- What it is taken as. -/
  kind : ElementKind
  /-- Its attribute text. -/
  attributes : List Char
  /-- The text between its opening and its close tag. -/
  content : List Char
  /-- The text behind it. -/
  rest : List Char

namespace Taken

/-- The element and what remains behind it, as markup. By `Markup.text_scan` the markup has just these
texts. -/
def scanned (taken : Taken) : Element × Markup :=
  (⟨taken.kind, taken.attributes, .scan taken.content⟩, .scan taken.rest)

end Taken

namespace Forest

/-- What is taken from a forest: one element for each of its trees. -/
def taken : Forest → List Taken
  | nil => []
  | prose _ behind => behind.taken
  | stray tag behind =>
    ⟨.unrecognized, tag.inner.drop (tagName tag.inner).length, [], behind.print⟩ :: behind.taken
  | closed kind attributes behind =>
    ⟨kind.toElementKind, trim attributes.text, [], behind.print⟩ :: behind.taken
  | paired kind attributes inside behind =>
    ⟨kind.toElementKind, trim attributes.text, inside.print, behind.print⟩ :: behind.taken

/-- The tags of a forest that no text leads up to are those of its text. -/
theorem scanned_nil (forest : Forest) : forest.scanned [] = .scan forest.print := by
  have hscan := scan_print (List.not_mem_nil (a := '<')) forest
  rw [List.nil_append] at hscan
  exact hscan.symm

/-- The elements of a forest are the trees in it, whatever text leads up to them. -/
theorem elements_scanned (forest : Forest) (lead : List Char) :
    (forest.scanned lead).elements = (forest.taken.map Taken.scanned, none) := by
  induction forest generalizing lead with
  | nil => exact Markup.elements_of_none rfl
  | prose words behind ih => exact ih (lead ++ words.text)
  | stray tag behind ih =>
    rw [Markup.elements_of_some (take?_stray tag behind lead), ih, scanned_nil]
    simp only [taken, List.map_cons, Taken.scanned, Markup.scan_nil]
  | closed kind attributes behind ih =>
    rw [Markup.elements_of_some (take?_closed kind attributes behind lead), ih, scanned_nil]
    simp only [taken, List.map_cons, Taken.scanned, Markup.scan_nil]
  | paired kind attributes inside behind _ ih =>
    rw [Markup.elements_of_some (take?_paired kind attributes inside behind lead), ih, scanned_nil,
      scanned_nil]
    simp only [taken, List.map_cons, Taken.scanned]

/-- From the text of a forest its trees are taken in order, each with the text inside it and the text
behind it, and then nothing is left. -/
theorem elements_scan_print (forest : Forest) :
    (Markup.scan forest.print).elements = (forest.taken.map Taken.scanned, none) := by
  rw [← scanned_nil]
  exact forest.elements_scanned []

end Forest

end PenPlot
