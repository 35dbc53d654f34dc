import PenPlot.Proofs.Forest
import PenPlot.Proofs.Scanning

/-!
# Reading what was printed

The tags of a printed forest are the tags that were printed. In front of whatever follows, a forest is
balanced for every name: the search for a close tag passes over it. So from the tags of a printed forest
the elements are taken as they stand in the forest.
-/

namespace PenPlot

open Text

/-! ## Printed tags -/

namespace IsTagText

theorem append {first second : List Char} (hfirst : IsTagText first) (hsecond : IsTagText second) :
    IsTagText (first ++ second) := by
  induction hfirst with
  | nil => exact hsecond
  | plain hquote hend _ ih => exact .plain hquote hend ih
  | quotation hmark hbody _ ih =>
    rw [List.cons_append, List.append_assoc, List.cons_append]
    exact .quotation hmark hbody ih

theorem of_forall {text : List Char} (h : ∀ c ∈ text, QuoteMarks.isQuote c = false ∧ c ≠ '>') :
    IsTagText text := by
  induction text with
  | nil => exact .nil
  | cons c text ih =>
    obtain ⟨hquote, hend⟩ := h c (List.mem_cons_self ..)
    exact .plain hquote hend (ih fun c hc => h c (List.mem_cons_of_mem _ hc))

end IsTagText

/-- Text inside a tag is passed over where the end of the tag is looked for. -/
theorem seek_append_of_isTagText {front : List Char} (h : IsTagText front) (rest : List Char) :
    seek ['>'] (front ++ rest) = (seek ['>'] rest).behind front := by
  induction h with
  | nil => rw [List.nil_append, Search.behind_nil]
  | @plain c front hquote hend _ ih =>
    have hmark : ¬ QuoteMarks.isQuote c = true := by simp [hquote]
    have hfront : ¬ List.isPrefixOf ['>'] (c :: (front ++ rest)) = true := by
      simp [List.isPrefixOf, Ne.symm hend]
    rw [List.cons_append, seek, seekFrom, if_neg hmark, if_neg hfront, ← seek, ih,
      Search.behind_after]
  | @quotation mark body front hmark hbody _ ih =>
    rw [List.cons_append, List.append_assoc, List.cons_append, seek_quotation hmark hbody, ih,
      Search.behind_behind]
    simp

/-- The `>` behind text inside a tag is the one that ends the tag. -/
theorem seek_isTagText {inner : List Char} (h : IsTagText inner) (rest : List Char) :
    seek ['>'] (inner ++ '>' :: rest) = .found inner ('>' :: rest) := by
  have hend : seek ['>'] ('>' :: rest) = .found [] ('>' :: rest) := rfl
  rw [seek_append_of_isTagText h, hend, Search.behind, List.append_nil]

/-- A tag behind text is scanned as the tag that it is. -/
theorem Markup.scan_tag {lead inner : List Char} (hlead : '<' ∉ lead) (h : IsTagText inner)
    (rest : List Char) :
    scan (lead ++ '<' :: (inner ++ '>' :: rest)) = (scan rest).push ⟨lead, inner⟩ := by
  have hbare : scan ('<' :: (inner ++ '>' :: rest)) = (scan rest).push ⟨[], inner⟩ := by
    rw [scan_eq]
    simp [seek_isTagText h rest]
  rw [scan_ledBy hlead, hbare]
  simp [ledBy, push]

/-! ## The names of elements -/

namespace KnownKind

/-- The characters of a name neither end it nor open a quotation. -/
theorem mem_name (kind : KnownKind) :
    ∀ c ∈ kind.name, isBlank c = false ∧ c ≠ '/' ∧ c ≠ '>' ∧ QuoteMarks.isQuote c = false := by
  have hall : (kind.name.all fun c =>
      !isBlank c && c != '/' && c != '>' && !QuoteMarks.isQuote c) = true := by
    rcases kind with (_ | _) | (_ | _ | _ | _ | _ | _ | _) <;> rfl
  intro c hc
  simpa [and_assoc] using List.all_eq_true.1 hall c hc

theorem name_ne_nil (kind : KnownKind) : kind.name ≠ [] := by
  rcases kind with (_ | _) | (_ | _ | _ | _ | _ | _ | _) <;> decide

/-- An element is recognized by its name. -/
theorem ofName_name (kind : KnownKind) : ElementKind.ofName kind.name = kind.toElementKind := by
  rcases kind with (_ | _) | (_ | _ | _ | _ | _ | _ | _) <;> decide

theorem toElementKind_ne_unrecognized (kind : KnownKind) : kind.toElementKind ≠ .unrecognized := by
  cases kind <;> exact nofun

theorem isTagText_name (kind : KnownKind) : IsTagText kind.name :=
  .of_forall fun c hc =>
    let ⟨_, _, hend, hquote⟩ := kind.mem_name c hc
    ⟨hquote, hend⟩

/-- The text inside the opening tag of an element is text inside a tag. -/
theorem isTagText_opening (kind : KnownKind) {attributes : List Char} (h : IsTagText attributes) :
    IsTagText (kind.name ++ ' ' :: attributes) :=
  kind.isTagText_name.append (.plain (by decide) (by decide) h)

/-- An opening tag does not begin with a slash. -/
theorem opening_ne_slash (kind : KnownKind) (behind closing : List Char) :
    kind.name ++ behind ≠ '/' :: closing := by
  intro heq
  cases hname : kind.name with
  | nil => exact kind.name_ne_nil hname
  | cons c name =>
    rw [hname, List.cons_append] at heq
    obtain ⟨rfl, -⟩ := List.cons.inj heq
    exact (kind.mem_name '/' (by simp [hname])).2.1 rfl

/-- The name of an opening tag is the name of the element. -/
theorem tagName_opening (kind : KnownKind) (attributes : List Char) :
    tagName (kind.name ++ ' ' :: attributes) = kind.name := by
  have hname : ∀ c ∈ kind.name, (!(isBlank c || c == '/' || c == '>')) = true := by
    intro c hc
    obtain ⟨hblank, hslash, hend, -⟩ := kind.mem_name c hc
    simp [hblank, hslash, hend]
  rw [tagName]
  · rw [List.takeWhile_append_of_pos hname, List.takeWhile_cons_of_neg (by decide), List.append_nil]
  · exact kind.opening_ne_slash _

/-- The name of a close tag, behind the slash, is the name of the element. -/
theorem tagName_name (kind : KnownKind) : tagName kind.name = kind.name := by
  rcases kind with (_ | _) | (_ | _ | _ | _ | _ | _ | _) <;> decide

end KnownKind

/-! ## The tags of a printed forest -/

namespace Forest

/-- The tags of a forest, behind text that leads up to it. -/
def scanned (lead : List Char) : Forest → Markup
  | nil => ⟨[], .plain lead⟩
  | prose words behind => behind.scanned (lead ++ words.text)
  | stray tag behind => (behind.scanned []).push ⟨lead, tag.inner⟩
  | closed kind attributes behind =>
    (behind.scanned []).push ⟨lead, kind.name ++ ' ' :: (attributes.text ++ ['/'])⟩
  | paired kind attributes inside behind =>
    let opening : Tag := ⟨lead, kind.name ++ ' ' :: attributes.text⟩
    let closing : Tag := ⟨(inside.scanned []).ending.text, '/' :: kind.name⟩
    { tags := opening :: ((inside.scanned []).tags ++ closing :: (behind.scanned []).tags)
      ending := (behind.scanned []).ending }

/-- A printed forest does not break off inside a tag. -/
theorem ending_scanned (lead : List Char) (forest : Forest) :
    ∃ text, (forest.scanned lead).ending = .plain text := by
  induction forest generalizing lead with
  | nil => exact ⟨lead, rfl⟩
  | prose words behind ih => exact ih (lead ++ words.text)
  | stray tag behind ih => exact ih []
  | closed kind attributes behind ih => exact ih []
  | paired kind attributes inside behind _ ih => exact ih []

/-- The tags of a printed forest are scanned as they were printed. -/
theorem scan_print {lead : List Char} (hlead : '<' ∉ lead) (forest : Forest) :
    Markup.scan (lead ++ forest.print) = forest.scanned lead := by
  induction forest generalizing lead with
  | nil =>
    rw [print, Markup.scan_ledBy hlead]
    simp [Markup.scan_eq, Markup.ledBy, scanned]
  | prose words behind ih =>
    have hwords : '<' ∉ lead ++ words.text := by
      rw [List.mem_append, not_or]
      exact ⟨hlead, words.noTag⟩
    rw [print, ← List.append_assoc, ih hwords]
    rfl
  | stray tag behind ih =>
    have hbehind := ih (List.not_mem_nil (a := '<'))
    rw [List.nil_append] at hbehind
    rw [print, List.cons_append, Markup.scan_tag hlead tag.isTagText, hbehind]
    rfl
  | closed kind attributes behind ih =>
    have hbehind := ih (List.not_mem_nil (a := '<'))
    rw [List.nil_append] at hbehind
    have hinner : IsTagText (kind.name ++ ' ' :: (attributes.text ++ ['/'])) :=
      kind.isTagText_opening (attributes.isTagText.append (.plain (by decide) (by decide) .nil))
    have hprint : (closed kind attributes behind).print =
        '<' :: (kind.name ++ ' ' :: (attributes.text ++ ['/']) ++ '>' :: behind.print) := by
      simp [print]
    rw [hprint, Markup.scan_tag hlead hinner, hbehind]
    rfl
  | paired kind attributes inside behind ihinside ihbehind =>
    have hinside := ihinside (List.not_mem_nil (a := '<'))
    have hbehind := ihbehind (List.not_mem_nil (a := '<'))
    rw [List.nil_append] at hinside hbehind
    have hopening := kind.isTagText_opening attributes.isTagText
    have hclosing : IsTagText ('/' :: kind.name) :=
      .plain (by decide) (by decide) kind.isTagText_name
    have hprint : (paired kind attributes inside behind).print =
        '<' :: (kind.name ++ ' ' :: attributes.text ++
          '>' :: (inside.print ++ ([] ++ '<' :: ('/' :: kind.name ++ '>' :: behind.print)))) := by
      simp [print]
    obtain ⟨text, htext⟩ := ending_scanned [] inside
    have hend : (Markup.scan inside.print).ending = .plain text := by rw [hinside, htext]
    rw [hprint, Markup.scan_tag hlead hopening, Markup.scan_append hend, hinside,
      Markup.scan_tag List.not_mem_nil hclosing, hbehind]
    simp [Markup.append, Markup.ledBy, Markup.push, scanned, htext, Ending.text]

end Forest

/-! ## Balanced tags -/

/-- The search for the close tag of an element with that name passes over the tags, whatever stands
behind them. -/
def BalancedTags (name : List Char) (tags : List Tag) : Prop :=
  ∀ depth more, splitAtClose name depth (tags ++ more) =
    (splitAtClose name depth more).map (Prod.map (tags ++ ·) id)

namespace BalancedTags

variable {name : List Char} {tag opening closing : Tag} {first second inside : List Tag}

theorem nil (name : List Char) : BalancedTags name [] := by
  intro depth more
  exact Option.map_id'.symm

theorem append (hfirst : BalancedTags name first) (hsecond : BalancedTags name second) :
    BalancedTags name (first ++ second) := by
  intro depth more
  rw [List.append_assoc, hfirst, hsecond, Option.map_map, Prod.map_comp_map]
  congr 2
  funext inside
  exact (List.append_assoc first second inside).symm

/-- A tag that does not matter is balanced. -/
theorem of_other (h : tag.role name = .other) : BalancedTags name [tag] := by
  intro depth more
  exact splitAtClose_of_other h depth more

/-- Balanced tags between an opening and a close tag are balanced together with them. -/
theorem enclose (hopening : opening.role name = .opens) (hinside : BalancedTags name inside)
    (hclosing : closing.role name = .closes) :
    BalancedTags name (opening :: (inside ++ [closing])) := by
  intro depth more
  have hsplit : opening :: (inside ++ [closing]) ++ more =
      opening :: (inside ++ closing :: more) := by
    simp
  rw [hsplit, splitAtClose_of_opens hopening, hinside, splitAtClose_succ_of_closes hclosing,
    Option.map_map, Option.map_map, Prod.map_comp_map, Prod.map_comp_map]
  congr 2
  funext before
  simp

end BalancedTags

namespace KnownKind

/-- A name that is not recognized is not the name of an element. -/
theorem ne_name_of_unrecognized (kind : KnownKind) {name : List Char}
    (h : ElementKind.ofName name = .unrecognized) : name ≠ kind.name := by
  rintro rfl
  rw [ofName_name] at h
  exact kind.toElementKind_ne_unrecognized h

/-- An opening tag opens an element unless it ends with a slash. -/
theorem role_eq (kind other : KnownKind) (lead attributes : List Char) :
    (Tag.mk lead (other.name ++ ' ' :: attributes)).role kind.name =
      if other.name = kind.name ∧ endsWithSlash (other.name ++ ' ' :: attributes) = false then .opens
      else .other := by
  rw [Tag.role.eq_def]
  split
  · next closing heq => exact absurd heq (other.opening_ne_slash _ closing)
  · simp [tagName_opening]

/-- An element that closes itself does not matter. -/
theorem role_closed (kind other : KnownKind) (lead attributes : List Char) :
    (Tag.mk lead (other.name ++ ' ' :: (attributes ++ ['/']))).role kind.name = .other := by
  have hslash : endsWithSlash (other.name ++ ' ' :: (attributes ++ ['/'])) = true := by
    have hassoc : other.name ++ ' ' :: (attributes ++ ['/']) =
        (other.name ++ ' ' :: attributes) ++ ['/'] := by simp
    rw [endsWithSlash, hassoc, trimEnd_append_singleton (by decide), List.getLast?_concat]
    decide
  rw [role_eq, hslash]
  simp

/-- The last character that is not blank is no slash in the opening tag of an element that does not
close itself. -/
theorem endsWithSlash_opening (kind : KnownKind) (attributes : OpenAttributes) :
    endsWithSlash (kind.name ++ ' ' :: attributes.text) = false := by
  have hlast := attributes.noSlash
  rw [getLast?_trim] at hlast
  rw [endsWithSlash, getLast?_trimEnd, List.reverse_append, List.reverse_cons, List.append_assoc,
    List.find?_append]
  cases hfind : attributes.text.reverse.find? (fun c => !isBlank c) with
  | some c =>
    rw [hfind] at hlast
    simpa using hlast
  | none =>
    rw [Option.none_or, beq_eq_false_iff_ne]
    intro hslash
    have hmem := List.mem_of_find?_eq_some hslash
    have hname : '/' ∈ kind.name := by simpa using hmem
    exact (kind.mem_name '/' hname).2.1 rfl

theorem role_opening (kind other : KnownKind) (lead : List Char) (attributes : OpenAttributes) :
    (Tag.mk lead (other.name ++ ' ' :: attributes.text)).role kind.name =
      if other.name = kind.name then .opens else .other := by
  rw [role_eq, endsWithSlash_opening]
  simp

theorem role_closing (kind other : KnownKind) (lead : List Char) :
    (Tag.mk lead ('/' :: other.name)).role kind.name =
      if other.name = kind.name then .closes else .other := by
  simp only [Tag.role, tagName_name]

end KnownKind

theorem StrayTag.role_eq (tag : StrayTag) (kind : KnownKind) (lead : List Char) :
    (Tag.mk lead tag.inner).role kind.name = .other := by
  have hname := kind.ne_name_of_unrecognized tag.unrecognized
  rw [Tag.role.eq_def]
  split
  · next closing hinner =>
    rw [if_neg (kind.ne_name_of_unrecognized (tag.closesNone closing hinner))]
  · simp [hname]

/-- A forest is balanced for the name of every element. -/
theorem Forest.balancedTags_scanned (kind : KnownKind) (forest : Forest) (lead : List Char) :
    BalancedTags kind.name (forest.scanned lead).tags := by
  induction forest generalizing lead with
  | nil => exact .nil kind.name
  | prose words behind ih => exact ih (lead ++ words.text)
  | stray tag behind ih => exact (BalancedTags.of_other (tag.role_eq kind lead)).append (ih [])
  | closed other attributes behind ih =>
    exact (BalancedTags.of_other (kind.role_closed other lead attributes.text)).append (ih [])
  | paired other attributes inside behind ihinside ihbehind =>
    have hopening := kind.role_opening other lead attributes
    have hclosing := kind.role_closing other ((inside.scanned []).ending.text)
    have htags : ((paired other attributes inside behind).scanned lead).tags =
        (⟨lead, other.name ++ ' ' :: attributes.text⟩ :: ((inside.scanned []).tags ++
          [⟨(inside.scanned []).ending.text, '/' :: other.name⟩])) ++
            (behind.scanned []).tags := by
      simp [scanned]
    rw [htags]
    by_cases hname : other.name = kind.name
    · rw [if_pos hname] at hopening hclosing
      exact (BalancedTags.enclose hopening (ihinside []) hclosing).append (ihbehind [])
    · rw [if_neg hname] at hopening hclosing
      have hfirst := (BalancedTags.of_other hopening).append (ihinside [])
      exact (hfirst.append (BalancedTags.of_other hclosing)).append (ihbehind [])

/-! ## Taking elements from a printed forest -/

/-- The attribute text of an element with a close tag. -/
theorem attributeText_opening (kind : KnownKind) (attributes : OpenAttributes) :
    Markup.attributeText kind.name (kind.name ++ ' ' :: attributes.text) =
      (trim attributes.text, false) := by
  rw [Markup.attributeText, List.drop_left, trim_cons_of_isBlank (by decide)]
  simp only [if_neg attributes.noSlash]

/-- The attribute text of an element that closes itself. -/
theorem attributeText_closed (kind : KnownKind) (attributes : List Char) :
    Markup.attributeText kind.name (kind.name ++ ' ' :: (attributes ++ ['/'])) =
      (trim attributes, true) := by
  have htrim : trim (attributes ++ ['/']) = trimStart attributes ++ ['/'] := by
    rw [trim, trimStart_append_singleton (by decide), trimEnd_append_singleton (by decide)]
  rw [Markup.attributeText, List.drop_left, trim_cons_of_isBlank (by decide), htrim]
  simp [trim]

namespace Forest

/-- A stray tag is taken alone, with the text behind its name as it stands. -/
theorem take?_stray (tag : StrayTag) (behind : Forest) (lead : List Char) :
    ((stray tag behind).scanned lead).take? =
      .ok (some (⟨.unrecognized, tag.inner.drop (tagName tag.inner).length, .empty⟩,
        behind.scanned [])) := by
  simp only [Markup.take?, scanned, Markup.push, tag.unrecognized, if_true]

/-- An element that closes itself is taken with its attribute text. -/
theorem take?_closed (kind : KnownKind) (attributes : ClosedAttributes) (behind : Forest)
    (lead : List Char) :
    ((closed kind attributes behind).scanned lead).take? =
      .ok (some (⟨kind.toElementKind, trim attributes.text, .empty⟩, behind.scanned [])) := by
  simp only [Markup.take?, scanned, Markup.push, KnownKind.tagName_opening, KnownKind.ofName_name,
    if_neg kind.toElementKind_ne_unrecognized, attributeText_closed, if_true]

/-- An element with a close tag is taken with its attribute text and what it holds. -/
theorem take?_paired (kind : KnownKind) (attributes : OpenAttributes) (inside behind : Forest)
    (lead : List Char) :
    ((paired kind attributes inside behind).scanned lead).take? =
      .ok (some (⟨kind.toElementKind, trim attributes.text, inside.scanned []⟩,
        behind.scanned [])) := by
  let closing : Tag := ⟨(inside.scanned []).ending.text, '/' :: kind.name⟩
  have hclosing : closing.role kind.name = .closes := by
    rw [KnownKind.role_closing, if_pos rfl]
  have hsplit : splitAtClose kind.name 0 ((inside.scanned []).tags ++
      closing :: (behind.scanned []).tags) =
        some ((inside.scanned []).tags, closing, (behind.scanned []).tags) := by
    rw [inside.balancedTags_scanned kind []]
    rw [splitAtClose_zero_of_closes hclosing, Option.map_some, Prod.map_apply, List.append_nil]
    rfl
  have hcontent : Markup.mk (inside.scanned []).tags (.plain closing.lead) = inside.scanned [] := by
    obtain ⟨text, htext⟩ := ending_scanned [] inside
    simp only [closing, htext, Ending.text]
    rw [← htext]
  have henclosed : Markup.enclosed kind.name
      ⟨(inside.scanned []).tags ++ closing :: (behind.scanned []).tags, (behind.scanned []).ending⟩ =
        .ok ⟨inside.scanned [], closing, behind.scanned []⟩ := by
    simp only [Markup.enclosed, hsplit, hcontent]
  simp only [Markup.take?, scanned, KnownKind.tagName_opening, KnownKind.ofName_name,
    if_neg kind.toElementKind_ne_unrecognized, attributeText_opening]
  rw [henclosed]
  rfl

end Forest

end PenPlot
