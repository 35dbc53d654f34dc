import PenPlot.Markup.Source
import PenPlot.Proofs.Spacing
import PenPlot.Proofs.Trees

/-!
# Folded line breaks

Line breaks and tabs are not drawn. If a document is given spaces for all of them, wherever they stand,
it has the same tags with the same names, its elements have the same attributes with the same values but
for the spaces, and a pass over it sends and counts the same. So it does not matter which of them are
folded into spaces before a document is read, nor at which places.
-/

namespace PenPlot

open Text

/-! ## Faults -/

/-- The flaw, with spaces in the text that it quotes. -/
def MarkupFlaw.spaced : MarkupFlaw → MarkupFlaw
  | unclosedQuotation quotation => unclosedQuotation (quotation.map Text.spaced)
  | missingTerminator tag => missingTerminator (tag.map Text.spaced)
  | neverClosed name => neverClosed name

/-- The flaw, with spaces in the text that it quotes. -/
def ValueFlaw.spaced {α : Type} : ValueFlaw α → ValueFlaw α
  | list flaw => list flaw.spaced
  | transform flaw => transform flaw.spaced
  | path flaw => path flaw.spaced
  | flaw => flaw

/-- The fault, with spaces in the text that it quotes. It is one of the markup if the fault is, and
otherwise one of the value at the same place. -/
def Fault.spaced {α : Type} : Fault α → Fault α
  | markup flaw => markup flaw.spaced
  | value place flaw => value place flaw.spaced

/-! ## Attributes of elements -/

theorem Fault.spaced_ofList {α : Type} (flaw : ListFlaw) :
    (ofList flaw : Fault α).spaced = ofList flaw.spaced := by
  cases flaw <;> rfl

theorem Fault.spaced_ofPath {α : Type} (flaw : PathFlaw) :
    (ofPath flaw : Fault α).spaced = ofPath flaw.spaced := by
  cases flaw with
  | arguments flaw => cases flaw <;> rfl
  | _ => rfl

namespace Reading

variable {α β γ : Type}

/-- The first reading comes to what the second does, but for spaces in the text that a fault quotes. -/
def SpacedFrom (first second : Reading α β) : Prop :=
  first.result = second.result.mapError Fault.spaced

namespace SpacedFrom

theorem bind {first second : Reading α β} {next next' : β → Reading α γ}
    (h : first.SpacedFrom second) (hnext : ∀ value, (next value).SpacedFrom (next' value)) :
    (first >>= next).SpacedFrom (second >>= next') := by
  rw [SpacedFrom, result_bind, result_bind, h]
  cases second.result with
  | error fault => rfl
  | ok value => exact hnext value

theorem located {first second : Except (Fault α) β} (h : first = second.mapError Fault.spaced)
    (elementName attributeName : String) :
    (Reading.located elementName attributeName first).SpacedFrom
      (Reading.located elementName attributeName second) := by
  rw [h]
  cases second with
  | error fault => cases fault <;> rfl
  | ok value => rfl

end SpacedFrom

variable [Scalar α]

theorem spacedFrom_lengthOr {name : String} (hname : IsWord name.toList) (default : α)
    (attributes : List Char) :
    (lengthOr default (attributes.map spaced) name).SpacedFrom (lengthOr default attributes name) := by
  have hvalue : (attribute? name.toList (attributes.map spaced)).getD [] =
      ((attribute? name.toList attributes).getD []).map spaced := by
    rw [attribute?_map_spaced hname]
    cases attribute? name.toList attributes <;> rfl
  show Except.ok (readLength ((attribute? name.toList (attributes.map spaced)).getD []) default).1 =
    Except.ok (readLength ((attribute? name.toList attributes).getD []) default).1
  rw [hvalue, readLength_map_spaced]

theorem spacedFrom_length {name : String} (hname : IsWord name.toList) (attributes : List Char) :
    (length (α := α) (attributes.map spaced) name).SpacedFrom (length attributes name) :=
  spacedFrom_lengthOr hname 0 attributes

theorem spacedFrom_nonNegative {name : String} (hname : IsWord name.toList) (kind : ShapeKind)
    (attributes : List Char) :
    (nonNegative (α := α) kind (attributes.map spaced) name).SpacedFrom
      (nonNegative kind attributes name) := by
  refine (spacedFrom_length hname attributes).bind ?_
  intro value
  split <;> rfl

end Reading

open Reading

variable {α : Type} [Scalar α]

theorem spacedFrom_ownTransform (elementName : String) (attributes : List Char) :
    (ownTransform (α := α) elementName (attributes.map spaced)).SpacedFrom
      (ownTransform elementName attributes) := by
  rw [ownTransform, ownTransform, attribute?_map_spaced (by decide)]
  cases attribute? "transform".toList attributes with
  | none => rfl
  | some text =>
    refine .located ?_ elementName "transform"
    rw [Affine.readList_map_spaced]
    cases Affine.readList (α := α) text <;> rfl

theorem spacedFrom_windowOfAttributes (attributes : List Char) (canvas : Size α) :
    (Window.ofAttributes (attributes.map spaced) canvas).SpacedFrom
      (Window.ofAttributes attributes canvas) := by
  rw [Window.ofAttributes, Window.ofAttributes, attribute?_map_spaced (by decide)]
  have hchecked : ∀ name (window : Window α),
      (Window.checked name window).SpacedFrom (Window.checked name window) := by
    intro name window
    rw [Window.checked]
    split <;> rfl
  cases attribute? "viewBox".toList attributes with
  | none =>
    refine (spacedFrom_lengthOr (by decide) canvas.width attributes).bind ?_
    intro width
    refine (spacedFrom_lengthOr (by decide) canvas.height attributes).bind ?_
    intro height
    exact hchecked "width" ⟨0, 0, width, height⟩
  | some text =>
    refine SpacedFrom.bind (.located ?_ "svg" "viewBox") ?_
    · rw [readNumbers_map_spaced]
      cases readNumbers (α := α) text with
      | error flaw => exact congrArg Except.error (Fault.spaced_ofList flaw).symm
      | ok values => rfl
    · intro values
      split
      · exact hchecked "viewBox" _
      · rfl

namespace Outline

theorem spacedFrom_poly (kind : ShapeKind) (closed : Bool) (attributes : List Char) :
    (poly (α := α) kind closed (attributes.map spaced)).SpacedFrom (poly kind closed attributes) := by
  have hvalue : (attribute? "points".toList (attributes.map spaced)).getD [] =
      ((attribute? "points".toList attributes).getD []).map spaced := by
    rw [attribute?_map_spaced (by decide)]
    cases attribute? "points".toList attributes <;> rfl
  refine SpacedFrom.bind (.located ?_ kind.name "points") ?_
  · rw [hvalue, readNumbers_map_spaced]
    cases readNumbers (α := α) ((attribute? "points".toList attributes).getD []) with
    | error flaw => exact congrArg Except.error (Fault.spaced_ofList flaw).symm
    | ok values => rfl
  · intro values
    split <;> rfl

theorem spacedFrom_cornerRadii (attributes : List Char) :
    (cornerRadii (α := α) (attributes.map spaced)).SpacedFrom (cornerRadii attributes) := by
  have hrxName : IsWord "rx".toList := by decide
  have hryName : IsWord "ry".toList := by decide
  have hrx := spacedFrom_nonNegative (α := α) hrxName .rect attributes
  have hry := spacedFrom_nonNegative (α := α) hryName .rect attributes
  simp only [cornerRadii, attribute?_map_spaced hrxName, attribute?_map_spaced hryName]
  cases attribute? "rx".toList attributes with
  | none =>
    cases attribute? "ry".toList attributes with
    | none => rfl
    | some _ => exact hry.bind fun _ => rfl
  | some _ =>
    cases attribute? "ry".toList attributes with
    | none => exact hrx.bind fun _ => rfl
    | some _ => exact hrx.bind fun _ => hry.bind fun _ => rfl

theorem spacedFrom_rect (attributes : List Char) :
    (rect (α := α) (attributes.map spaced)).SpacedFrom (rect attributes) := by
  refine (spacedFrom_length (by decide) attributes).bind fun x => ?_
  refine (spacedFrom_length (by decide) attributes).bind fun y => ?_
  refine (spacedFrom_nonNegative (by decide) .rect attributes).bind fun width => ?_
  refine (spacedFrom_nonNegative (by decide) .rect attributes).bind fun height => ?_
  split
  · rfl
  · refine (spacedFrom_cornerRadii attributes).bind fun radii => ?_
    dsimp only
    split <;> rfl

theorem spacedFrom_ellipse (rx ry : α) (attributes : List Char) :
    (ellipse rx ry (attributes.map spaced)).SpacedFrom (ellipse rx ry attributes) := by
  rw [ellipse, ellipse]
  split
  · rfl
  · refine (spacedFrom_length (by decide) attributes).bind fun cx => ?_
    exact (spacedFrom_length (by decide) attributes).bind fun cy => rfl

theorem spacedFrom_path (attributes : List Char) :
    (path (α := α) (attributes.map spaced)).SpacedFrom (path attributes) := by
  rw [path, path, attribute?_map_spaced (by decide)]
  cases attribute? "d".toList attributes with
  | none => rfl
  | some data =>
    refine .located ?_ "path" "d"
    rw [PathState.run_map_spaced]
    obtain ⟨flaw | segments, last⟩ := (PathState.initial (α := α)).run data
    · exact congrArg Except.error (Fault.spaced_ofPath flaw).symm
    · rfl

theorem spacedFrom_ofShape (kind : ShapeKind) (attributes : List Char) :
    (ofShape (α := α) kind (attributes.map spaced)).SpacedFrom (ofShape kind attributes) := by
  cases kind with
  | line =>
    refine (spacedFrom_length (by decide) attributes).bind fun x₁ => ?_
    refine (spacedFrom_length (by decide) attributes).bind fun y₁ => ?_
    refine (spacedFrom_length (by decide) attributes).bind fun x₂ => ?_
    exact (spacedFrom_length (by decide) attributes).bind fun y₂ => rfl
  | polyline => exact spacedFrom_poly .polyline false attributes
  | polygon => exact spacedFrom_poly .polygon true attributes
  | rect => exact spacedFrom_rect attributes
  | circle =>
    refine (spacedFrom_nonNegative (by decide) .circle attributes).bind fun r => ?_
    exact spacedFrom_ellipse r r attributes
  | ellipse =>
    refine (spacedFrom_nonNegative (by decide) .ellipse attributes).bind fun rx => ?_
    refine (spacedFrom_nonNegative (by decide) .ellipse attributes).bind fun ry => ?_
    exact spacedFrom_ellipse rx ry attributes
  | path => exact spacedFrom_path attributes

end Outline

theorem spacedFrom_flattenShape (flattener : Flattener) (kind : ShapeKind) (attributes : List Char)
    (transform : Affine α) :
    (flattener.flattenShape kind (attributes.map spaced) transform).SpacedFrom
      (flattener.flattenShape kind attributes transform) :=
  (Outline.spacedFrom_ofShape kind attributes).bind fun _ => rfl

theorem spacedFrom_containerTransform (sheet : Sheet α) (scope : Scope α) (kind : ContainerKind)
    (attributes : List Char) :
    (sheet.containerTransform scope kind (attributes.map spaced)).SpacedFrom
      (sheet.containerTransform scope kind attributes) := by
  cases kind with
  | group => exact (spacedFrom_ownTransform "g" attributes).bind fun own => rfl
  | svg =>
    rw [Sheet.containerTransform, Sheet.containerTransform]
    split
    · refine (spacedFrom_length (by decide) attributes).bind fun x => ?_
      exact (spacedFrom_length (by decide) attributes).bind fun y => rfl
    · exact (spacedFrom_windowOfAttributes attributes sheet.canvas).bind fun window => rfl

namespace Station

variable (kind : ElementKind) (attributes : List Char) (around : Surroundings α)

/-- The element is read to the same surroundings of its content. -/
theorem spacedFrom_evaluate (sheet : Sheet α) :
    ((Station.mk kind (attributes.map spaced) around).evaluate sheet).SpacedFrom
      ((Station.mk kind attributes around).evaluate sheet) := by
  cases kind with
  | container kind =>
    exact (spacedFrom_containerTransform sheet around.scope kind attributes).bind fun _ => rfl
  | shape kind =>
    simp only [evaluate]
    split
    · refine (spacedFrom_ownTransform (α := α) kind.name attributes).bind fun own => ?_
      exact (spacedFrom_flattenShape sheet.flattener kind attributes
        (around.transform.comp own)).bind fun _ => rfl
    · rfl
  | unrecognized => rfl

variable {kind attributes around}

theorem ofRoute_single_spaced {sheet : Sheet α} {inner? : Option (Surroundings α)}
    (h : ((Station.mk kind attributes around).evaluate sheet).result = .ok inner?) :
    Outcome.ofRoute sheet.flattener (.single ⟨kind, attributes.map spaced, around⟩) =
      Outcome.ofRoute sheet.flattener (.single ⟨kind, attributes, around⟩) := by
  cases kind with
  | container kind => rfl
  | unrecognized => rfl
  | shape kind =>
    cases hbox : around.box with
    | none =>
      have hnone : ∀ attributes, (Station.mk (.shape kind) attributes around).shape? = none := by
        intro attributes
        simp only [shape?, hbox]
      rw [Outcome.ofRoute_single_of_none (hnone _), Outcome.ofRoute_single_of_none (hnone _)]
      rfl
    | some box =>
      simp only [evaluate, hbox, Option.isSome_some, if_true, Reading.result_bind_eq_ok] at h
      obtain ⟨own, hown, commands, hcommands, -⟩ := h
      have hown' : (ownTransform kind.name (attributes.map spaced)).result = .ok own := by
        rw [spacedFrom_ownTransform kind.name attributes, hown]
        rfl
      have hcommands' : (sheet.flattener.flattenShape kind (attributes.map spaced)
          (around.transform.comp own)).result = .ok commands := by
        rw [spacedFrom_flattenShape sheet.flattener kind attributes, hcommands]
        rfl
      -- Both shapes send what a new tracker answers to the same commands.
      have hdrawn : ∀ {attributes : List Char},
          (ownTransform kind.name attributes).result = .ok own →
          (sheet.flattener.flattenShape kind attributes (around.transform.comp own)).result =
            .ok commands →
          Outcome.ofRoute sheet.flattener (.single ⟨.shape kind, attributes, around⟩) =
            { commands := ((Tracker.ofBox box).run (commands.map .pen)).1
              tally := { count {} ⟨.shape kind, attributes, around⟩ with
                pen := ((Tracker.ofBox box).run (commands.map .pen)).2.counts } } := by
        intro attributes hown hcommands
        have hshape : (Station.mk (.shape kind) attributes around).shape? =
            some ⟨kind, attributes, around.transform.comp own, box⟩ := by
          simp only [shape?, hbox, hown]
        obtain ⟨hsent, hcounts⟩ := PlacedShape.drawn_of_ok
          ⟨kind, attributes, around.transform.comp own, box⟩ hcommands
        rw [Outcome.ofRoute_single_of_some hshape, hsent, hcounts]
      rw [hdrawn hown hcommands]
      exact hdrawn hown' hcommands'

end Station

/-! ## Tags and elements -/

namespace Text.Search

/-- What the search comes to in the text with spaces. -/
def spaced : Search Char → Search Char
  | found before after => found (before.map Text.spaced) (after.map Text.spaced)
  | absent => absent
  | unclosed quotation => unclosed (quotation.map Text.spaced)

theorem spaced_after (c : Char) (search : Search Char) :
    (search.after c).spaced = search.spaced.after (Text.spaced c) := by
  cases search <;> rfl

end Text.Search

/-- A symbol that is not blank is found at the same place outside quotations. -/
theorem seekFrom_map_spaced {symbol : Char} (hsymbol : isBlank symbol = false)
    {within : Option (Char × List Char)} (hwithin : ∀ quotation ∈ within, isBlank quotation.1 = false)
    (text : List Char) :
    seekFrom [symbol] (within.map (Prod.map id (List.map spaced))) (text.map spaced) =
      (seekFrom [symbol] within text).spaced := by
  induction text generalizing within with
  | nil => cases within <;> rfl
  | cons c rest ih =>
    have hnone : ∀ quotation ∈ (none : Option (Char × List Char)), isBlank quotation.1 = false :=
      nofun
    rw [List.map_cons]
    cases within with
    | some quotation =>
      obtain ⟨mark, body⟩ := quotation
      have hmark : isBlank mark = false := hwithin (mark, body) rfl
      simp only [Option.map_some, Prod.map_apply, id_eq, seekFrom, Search.spaced_after,
        spaced_eq_iff hmark]
      by_cases hc : c = mark
      · rw [if_pos hc, if_pos hc, ← ih hnone]
        rfl
      · rw [if_neg hc, if_neg hc, ← ih hwithin]
        rfl
    | none =>
      have houtside := ih hnone
      rw [Option.map_none] at houtside
      simp only [Option.map_none, seekFrom, isQuote_spaced]
      by_cases hquote : QuoteMarks.isQuote c = true
      · have hblank := isBlank_of_isQuote hquote
        have hopened : ∀ quotation ∈ some (c, c :: rest), isBlank quotation.1 = false := by
          rintro quotation ⟨⟩
          exact hblank
        have hinside := ih hopened
        simp only [Option.map_some, Prod.map_apply, id_eq, List.map_cons,
          spaced_of_isBlank_eq_false hblank] at hinside
        rw [if_pos hquote, if_pos hquote, Search.spaced_after, spaced_of_isBlank_eq_false hblank,
          hinside]
      · have hfront : List.isPrefixOf [symbol] (spaced c :: rest.map spaced) =
            List.isPrefixOf [symbol] (c :: rest) :=
          isPrefixOf_map_spaced (by simpa [IsWord] using hsymbol) (c :: rest)
        rw [if_neg hquote, if_neg hquote, hfront, houtside]
        by_cases hfound : List.isPrefixOf [symbol] (c :: rest) = true
        · rw [if_pos hfound, if_pos hfound]
          rfl
        · rw [if_neg hfound, if_neg hfound, Search.spaced_after]

/-- A symbol that is not blank is found at the same place outside quotations. -/
theorem seek_map_spaced {symbol : Char} (hsymbol : isBlank symbol = false) (text : List Char) :
    seek [symbol] (text.map spaced) = (seek [symbol] text).spaced := by
  have hnone : ∀ quotation ∈ (none : Option (Char × List Char)), isBlank quotation.1 = false := nofun
  exact seekFrom_map_spaced hsymbol hnone text

theorem tagName_of_ne {inner : List Char} (h : inner.head? ≠ some '/') :
    tagName inner = inner.takeWhile fun c => !(isBlank c || c == '/' || c == '>') := by
  rw [tagName.eq_def]
  split
  · exact absurd rfl h
  · rfl

/-- A name ends at the same place, and has no blanks. -/
theorem tagName_map_spaced (inner : List Char) : tagName (inner.map spaced) = tagName inner := by
  have hclosing : ∀ c, (!(isBlank (spaced c) || spaced c == '>')) = !(isBlank c || c == '>') :=
    apply_spaced (f := fun c => !(isBlank c || c == '>')) (by decide)
  have hopening : ∀ c, (!(isBlank (spaced c) || spaced c == '/' || spaced c == '>')) =
      !(isBlank c || c == '/' || c == '>') :=
    apply_spaced (f := fun c => !(isBlank c || c == '/' || c == '>')) (by decide)
  by_cases hslash : inner.head? = some '/'
  · obtain ⟨behind, rfl⟩ := List.head?_eq_some_iff.1 hslash
    show '/' :: (behind.map spaced).takeWhile _ = '/' :: behind.takeWhile _
    rw [takeWhile_map_spaced_of_blank hclosing]
    intro c hc
    simp only [Bool.not_eq_true', Bool.or_eq_false_iff] at hc
    exact hc.1
  · have hslash' : (inner.map spaced).head? ≠ some '/' := by
      rwa [List.head?_map, Ne, map_spaced_eq_some_iff (by decide)]
    rw [tagName_of_ne hslash, tagName_of_ne hslash', takeWhile_map_spaced_of_blank hopening]
    intro c hc
    simp only [Bool.not_eq_true', Bool.or_eq_false_iff] at hc
    exact hc.1.1

/-- The tag with spaces in its text. -/
def Tag.spaced (tag : Tag) : Tag := ⟨tag.lead.map Text.spaced, tag.inner.map Text.spaced⟩

/-- The ending with spaces in its text. -/
def Ending.spaced : Ending → Ending
  | plain text => plain (text.map Text.spaced)
  | broken text flaw => broken (text.map Text.spaced) flaw.spaced

theorem Tag.role_of_ne {name : List Char} {tag : Tag} (h : tag.inner.head? ≠ some '/') :
    tag.role name =
      if tagName tag.inner = name && !endsWithSlash tag.inner then .opens else .other := by
  rw [role.eq_def]
  split
  · next heq =>
    rw [heq] at h
    exact absurd rfl h
  · rfl

theorem Tag.role_spaced (name : List Char) (tag : Tag) : tag.spaced.role name = tag.role name := by
  obtain ⟨lead, inner⟩ := tag
  by_cases hslash : inner.head? = some '/'
  · obtain ⟨closing, rfl⟩ := List.head?_eq_some_iff.1 hslash
    have hspaced : (Tag.mk lead ('/' :: closing)).spaced =
        ⟨lead.map Text.spaced, '/' :: closing.map Text.spaced⟩ := rfl
    rw [hspaced, role_slash, role_slash, tagName_map_spaced]
  · have hslash' : (inner.map Text.spaced).head? ≠ some '/' := by
      rwa [List.head?_map, Ne, map_spaced_eq_some_iff (by decide)]
    have hends : endsWithSlash (inner.map Text.spaced) = endsWithSlash inner := by
      rw [endsWithSlash, endsWithSlash, trimEnd_map_spaced, List.getLast?_map, Bool.eq_iff_iff,
        beq_iff_eq, beq_iff_eq, map_spaced_eq_some_iff (by decide)]
    have hopening : (Tag.mk lead inner).inner.head? ≠ some '/' := hslash
    rw [role_of_ne hopening, Tag.spaced, role_of_ne hslash', tagName_map_spaced, hends]

theorem splitAtClose_map_spaced (name : List Char) (depth : Nat) (tags : List Tag) :
    splitAtClose name depth (tags.map Tag.spaced) =
      (splitAtClose name depth tags).map fun (inside, close, behind) =>
        (inside.map Tag.spaced, close.spaced, behind.map Tag.spaced) := by
  induction tags generalizing depth with
  | nil => rfl
  | cons tag tags ih =>
    have hrole := tag.role_spaced name
    rw [List.map_cons]
    cases h : tag.role name with
    | opens =>
      rw [splitAtClose_of_opens h, splitAtClose_of_opens (hrole.trans h), ih, Option.map_map,
        Option.map_map]
      rfl
    | other =>
      rw [splitAtClose_of_other h, splitAtClose_of_other (hrole.trans h), ih, Option.map_map,
        Option.map_map]
      rfl
    | closes =>
      cases depth with
      | zero =>
        rw [splitAtClose_zero_of_closes h, splitAtClose_zero_of_closes (hrole.trans h)]
        rfl
      | succ depth =>
        rw [splitAtClose_succ_of_closes h, splitAtClose_succ_of_closes (hrole.trans h), ih,
          Option.map_map, Option.map_map]
        rfl

namespace Markup

/-- The markup with spaces in its texts. -/
def spaced (markup : Markup) : Markup := ⟨markup.tags.map Tag.spaced, markup.ending.spaced⟩

theorem scan_map_spaced (text : List Char) : scan (text.map Text.spaced) = (scan text).spaced := by
  have hopen : isBlank '<' = false := by decide
  have hclose : isBlank '>' = false := by decide
  fun_induction scan text with
  | case1 text hb =>
    rw [scan_eq, dropWhile_bne_map_spaced hopen, hb]
    rfl
  | case2 text bracket body hb inner behind hs _ ih =>
    rw [scan_eq, dropWhile_bne_map_spaced hopen, takeWhile_bne_map_spaced hopen, hb, List.map_cons]
    simp only [seek_map_spaced hclose, hs, Search.spaced, ← List.map_drop, ih]
    rfl
  | case3 text bracket body hb hs =>
    rw [scan_eq, dropWhile_bne_map_spaced hopen, hb, List.map_cons]
    simp only [seek_map_spaced hclose, hs, Search.spaced]
    rfl
  | case4 text bracket body hb quotation hs =>
    rw [scan_eq, dropWhile_bne_map_spaced hopen, hb, List.map_cons]
    simp only [seek_map_spaced hclose, hs, Search.spaced]
    rfl

theorem attributeText_map_spaced (name inner : List Char) :
    attributeText name (inner.map Text.spaced) =
      Prod.map (List.map Text.spaced) id (attributeText name inner) := by
  have hslash : isBlank '/' = false := by decide
  simp only [attributeText, ← List.map_drop, trim_map_spaced, List.getLast?_map,
    map_spaced_eq_some_iff hslash, ← List.map_dropLast, trimEnd_map_spaced]
  split <;> rfl

theorem enclosed_spaced (name : List Char) (markup : Markup) :
    enclosed name markup.spaced =
      ((enclosed name markup).mapError MarkupFlaw.spaced).map fun found =>
        ⟨found.content.spaced, found.close.spaced, found.rest.spaced⟩ := by
  simp only [enclosed, spaced, splitAtClose_map_spaced]
  cases splitAtClose name 0 markup.tags with
  | some found => rfl
  | none => cases markup.ending <;> rfl

theorem take?_spaced (markup : Markup) :
    markup.spaced.take? =
      (markup.take?.mapError MarkupFlaw.spaced).map
        (Option.map fun (element, rest) =>
          (⟨element.kind, element.attributes.map Text.spaced, element.content.spaced⟩,
            rest.spaced)) := by
  obtain ⟨tags, ending⟩ := markup
  cases tags with
  | nil => cases ending <;> rfl
  | cons tag tags =>
    have henclosed := enclosed_spaced (tagName tag.inner) ⟨tags, ending⟩
    simp only [spaced] at henclosed
    simp only [take?, spaced, List.map_cons, Tag.spaced, tagName_map_spaced, ← List.map_drop,
      attributeText_map_spaced, henclosed]
    by_cases hkind : ElementKind.ofName (tagName tag.inner) = .unrecognized
    · rw [if_pos hkind, if_pos hkind]
      rfl
    · rw [if_neg hkind, if_neg hkind]
      obtain ⟨attributes, selfClosing⟩ := attributeText (tagName tag.inner) tag.inner
      cases selfClosing with
      | true => rfl
      | false =>
        simp only [Prod.map_apply, id_eq, Bool.false_eq_true, if_false]
        cases enclosed (tagName tag.inner) ⟨tags, ending⟩ <;> rfl

end Markup

/-! ## Passes -/

/-- What drawing comes to, with spaces in the text that a fault quotes. -/
def Outcome.spaced (outcome : Outcome α) : Outcome α :=
  { outcome with fault := outcome.fault.map Fault.spaced }

omit [Scalar α] in
theorem Outcome.andThen_spaced (first second : Outcome α) :
    (first.andThen second).spaced = first.spaced.andThen second.spaced := by
  obtain ⟨commands, tally, _ | fault⟩ := first <;> rfl

theorem Outcome.ofRoute_ofMarkup_spaced (sheet : Sheet α) (around : Surroundings α)
    (markup : Markup) :
    ofRoute sheet.flattener (.ofMarkup sheet around markup.spaced) =
      (ofRoute sheet.flattener (.ofMarkup sheet around markup)).spaced := by
  -- The element that is taken next decides how the route goes on, so it is compared first.
  have htake := markup.take?_spaced
  fun_induction Route.ofMarkup sheet around markup with
  | case1 around markup flaw h =>
    rw [h] at htake
    rw [Route.ofMarkup_of_error htake]
    rfl
  | case2 around markup h =>
    rw [h] at htake
    rw [Route.ofMarkup_of_none htake]
    rfl
  | case3 around markup element rest h _ station fault hfault =>
    have hevaluate := Station.spacedFrom_evaluate element.kind element.attributes around sheet
    rw [Reading.SpacedFrom, hfault] at hevaluate
    rw [h] at htake
    rw [Route.ofMarkup_of_some htake]
    simp only [hevaluate, Except.mapError]
    rfl
  | case4 around markup element rest h _ station hok ih =>
    have hevaluate := Station.spacedFrom_evaluate element.kind element.attributes around sheet
    rw [Reading.SpacedFrom, hok] at hevaluate
    rw [h] at htake
    rw [Route.ofMarkup_of_some htake]
    simp only [hevaluate, Except.mapError]
    rw [ofRoute_push, ofRoute_push, andThen_spaced, ih rest.take?_spaced,
      Station.ofRoute_single_spaced hok]
    rfl
  | case5 around markup element rest h _ station inner hok ihcontent ihrest =>
    have hevaluate := Station.spacedFrom_evaluate element.kind element.attributes around sheet
    rw [Reading.SpacedFrom, hok] at hevaluate
    rw [h] at htake
    rw [Route.ofMarkup_of_some htake]
    simp only [hevaluate, Except.mapError]
    rw [ofRoute_push, ofRoute_push, ofRoute_append, ofRoute_append, andThen_spaced, andThen_spaced,
      ihcontent element.content.take?_spaced, ihrest rest.take?_spaced,
      Station.ofRoute_single_spaced hok]
    rfl

namespace Pass

/-- What a pass comes to is what the route through its document comes to. -/
theorem ofText_eq_ofRoute (sheet : Sheet α) (document : List Char) :
    (ofText sheet document).commands =
        (Outcome.ofRoute sheet.flattener (.ofText sheet document)).commands ∧
      (ofText sheet document).tally =
        (Outcome.ofRoute sheet.flattener (.ofText sheet document)).tally ∧
      (ofText sheet document).result =
        (Outcome.ofRoute sheet.flattener (.ofText sheet document)).result := by
  refine ⟨commands_ofText sheet document, tally_ofText sheet document, ?_⟩
  rw [result_ofText, Outcome.result]
  simp only [Outcome.ofRoute]
  cases (Route.ofText sheet document).stop <;> rfl

/-- With spaces for all line breaks and tabs, a document is drawn as it is without. -/
theorem ofText_map_spaced (sheet : Sheet α) (document : List Char) :
    (ofText sheet (document.map spaced)).commands = (ofText sheet document).commands ∧
      (ofText sheet (document.map spaced)).tally = (ofText sheet document).tally ∧
      (ofText sheet (document.map spaced)).result =
        (ofText sheet document).result.mapError Fault.spaced := by
  have hroute : Outcome.ofRoute sheet.flattener (.ofText sheet (document.map spaced)) =
      (Outcome.ofRoute sheet.flattener (.ofText sheet document)).spaced := by
    rw [Route.ofText, Markup.scan_map_spaced]
    exact Outcome.ofRoute_ofMarkup_spaced sheet .bare (.scan document)
  obtain ⟨hcommands, htally, hresult⟩ := ofText_eq_ofRoute sheet document
  obtain ⟨hcommands', htally', hresult'⟩ := ofText_eq_ofRoute sheet (document.map spaced)
  rw [hcommands, htally, hresult, hcommands', htally', hresult', hroute]
  refine ⟨rfl, rfl, ?_⟩
  obtain ⟨commands, tally, _ | fault⟩ := Outcome.ofRoute sheet.flattener (.ofText sheet document) <;>
    rfl

end Pass

/-! ## Source texts -/

namespace Source

/-- Folding changes line breaks and tabs only, and makes spaces of them. -/
theorem map_spaced_foldBreaks (place : Place) (text : List Char) :
    (foldBreaks place text).map spaced = text.map spaced := by
  induction text generalizing place with
  | nil => rfl
  | cons c rest ih =>
    have hfold : spaced (place.fold c) = spaced c := by
      cases place with
      | text => rfl
      | tag => rfl
      | quotation mark =>
        simp only [Place.fold]
        split
        · next h =>
          rw [spaced.eq_def c, if_pos h.2]
          rfl
        · rfl
    rw [foldBreaks, List.map_cons, List.map_cons, hfold, ih]

/-- Where no comment begins, none is taken out. -/
theorem dropComments_eq_self {text : List Char} (h : ¬ "<!--".toList <:+: text) :
    dropComments false text = text := by
  induction text with
  | nil => rfl
  | cons c rest ih =>
    rw [List.infix_cons_iff, not_or] at h
    rw [dropComments.eq_def]
    split
    · contradiction
    · next heq =>
      rw [heq] at h
      exact absurd ⟨_, rfl⟩ h.1
    · next heq =>
      cases heq
      rw [ih h.2]
    · contradiction
    · contradiction

end Source

/-- Folding line breaks does not change the drawing. A pass over the text that is prepared from a source
without comments sends and counts what a pass over the source itself does, and stops at the same fault
if it stops, though the text that the fault quotes may have spaces for line breaks and tabs. -/
theorem Pass.ofText_prepare (sheet : Sheet α) {source : List Char}
    (h : ¬ "<!--".toList <:+: source) :
    (ofText sheet (Source.prepare source)).commands = (ofText sheet source).commands ∧
      (ofText sheet (Source.prepare source)).tally = (ofText sheet source).tally ∧
      (ofText sheet (Source.prepare source)).result.mapError Fault.spaced =
        (ofText sheet source).result.mapError Fault.spaced := by
  have hprepare : (Source.prepare source).map spaced = source.map spaced := by
    rw [Source.prepare, Source.dropComments_eq_self h, Source.map_spaced_foldBreaks]
  -- Not all breaks are folded, so both passes are compared with one over a text without any.
  obtain ⟨hcommands, htally, hresult⟩ := ofText_map_spaced sheet source
  obtain ⟨hcommands', htally', hresult'⟩ := ofText_map_spaced sheet (Source.prepare source)
  rw [hprepare] at hcommands' htally' hresult'
  exact ⟨hcommands'.symm.trans hcommands, htally'.symm.trans htally, hresult'.symm.trans hresult⟩

/-- The line is drawn although line breaks and tabs stand in its attributes. The list of points is at
fault, and its text is quoted with a space for the line break. -/
theorem Pass.ofText_prepare_points :
    let sheet : Sheet Float := ⟨⟨10, 10⟩, ⟨2, false⟩⟩
    let source := ("<svg viewBox='0\n0 10\t10'>\n<line x1='1' y1='\t2' x2='3' y2='4'/>" ++
      "<polyline\npoints='1,\nx\n'/></svg>").toList
    ¬ "<!--".toList <:+: source ∧
      (ofText sheet (Source.prepare source)).commands = (ofText sheet source).commands ∧
      (ofText sheet (Source.prepare source)).tally = (ofText sheet source).tally ∧
      (ofText sheet (Source.prepare source)).result.mapError Fault.spaced =
        (ofText sheet source).result.mapError Fault.spaced ∧
      (ofText sheet source).commands = [.move ⟨1, 2⟩, .draw ⟨3, 4⟩] ∧
      (ofText sheet source).result =
        .error (.value ⟨"polyline", "points"⟩ (.list (.notNumber "x\n".toList))) ∧
      (ofText sheet (Source.prepare source)).result =
        .error (.value ⟨"polyline", "points"⟩ (.list (.notNumber "x ".toList))) := by
  refine ⟨?hsource, (ofText_prepare _ ?hsource).1, (ofText_prepare _ ?hsource).2.1,
    (ofText_prepare _ ?hsource).2.2, ?_, ?_, ?_⟩
  all_goals decide +kernel

end PenPlot
