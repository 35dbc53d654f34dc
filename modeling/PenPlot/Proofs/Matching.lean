import PenPlot.Proofs.Cutting
import PenPlot.Proofs.Outside

/-!
# The close tag that matches

Whoever looks for the close tag of an element walks over the tags of the text behind its opening tag: each
from a `<` to the next `>` that is not in a quotation opened in the tag. The close tag that matches is the
first one at which the close tags of the name outnumber the open ones that do not close themselves. Tags of
other names do not count, and text between tags does not matter, with whatever quotation marks are in it.

The walk stops without one where no tag begins any more, or where a tag or a quotation in it has no end.
-/

namespace PenPlot

open Text

/-! ## Tags of a name -/

/-- A text that can be the name of a tag. -/
structure IsTagName (name : List Char) : Prop where
  ne_nil : name ≠ []
  mem : ∀ c ∈ name, isBlank c = false ∧ c ≠ '/' ∧ c ≠ '>'

theorem KnownKind.isTagName (kind : KnownKind) : IsTagName kind.name where
  ne_nil := kind.name_ne_nil
  mem := by
    intro c hc
    obtain ⟨hblank, hslash, hend, -⟩ := kind.mem_name c hc
    exact ⟨hblank, hslash, hend⟩

/-- The text begins with the name, and the name ends there. -/
def isNamed (name text : List Char) : Bool :=
  name.isPrefixOf text &&
    (text.drop name.length).head?.all fun c => isBlank c || c == '/' || c == '>'

namespace Tag

/-- The tag is a close tag of the name. -/
def isCloseOf (name : List Char) (tag : Tag) : Bool :=
  match tag.inner with
  | '/' :: closing => isNamed name closing
  | _ => false

/-- The tag is an open tag of the name, and it does not close itself. -/
def isOpenOf (name : List Char) (tag : Tag) : Bool :=
  isNamed name tag.inner && !endsWithSlash tag.inner

end Tag

/-- The close tags of the name outnumber the open ones, where `depth` elements were open before. -/
def ClosesExceed (name : List Char) (depth : Nat) (tags : List Tag) : Prop :=
  tags.countP (Tag.isOpenOf name) + depth < tags.countP (Tag.isCloseOf name)

section

variable {name : List Char}

theorem IsTagName.isNamed_slash (h : IsTagName name) (behind : List Char) :
    isNamed name ('/' :: behind) = false := by
  obtain ⟨c, more, rfl⟩ := List.exists_cons_of_ne_nil h.ne_nil
  obtain ⟨-, hslash, -⟩ := h.mem c (List.mem_cons_self ..)
  simp [isNamed, hslash]

theorem IsTagName.tagName_eq_iff (h : IsTagName name) (text : List Char) :
    tagName text = name ↔ isNamed name text = true := by
  by_cases hslash : text.head? = some '/'
  · obtain ⟨behind, rfl⟩ := List.head?_eq_some_iff.1 hslash
    rw [h.isNamed_slash]
    constructor
    · intro heq
      have hmem : '/' ∈ name := by
        rw [← heq, tagName]
        exact List.mem_cons_self ..
      exact absurd rfl (h.mem '/' hmem).2.1
    · rintro ⟨⟩
  · rw [tagName_of_ne hslash]
    constructor
    · intro heq
      have hsplit := List.takeWhile_append_dropWhile (l := text)
        (p := fun c => !(isBlank c || c == '/' || c == '>'))
      have hend := List.head?_dropWhile_not (fun c => !(isBlank c || c == '/' || c == '>')) text
      rw [heq] at hsplit
      generalize text.dropWhile (fun c => !(isBlank c || c == '/' || c == '>')) = rest at hsplit hend
      subst hsplit
      have hfront : name.isPrefixOf (name ++ rest) = true :=
        List.isPrefixOf_iff_prefix.2 (List.prefix_append ..)
      rw [isNamed, hfront, Bool.true_and, List.drop_left]
      cases rest with
      | nil => rfl
      | cons c rest =>
        have hstop : (!(isBlank c || c == '/' || c == '>')) = false := hend
        rw [Bool.not_eq_eq_eq_not] at hstop
        exact hstop
    · intro hnamed
      rw [isNamed, Bool.and_eq_true, List.isPrefixOf_iff_prefix] at hnamed
      obtain ⟨⟨rest, rfl⟩, hend⟩ := hnamed
      have hname : ∀ c ∈ name, (!(isBlank c || c == '/' || c == '>')) = true := by
        intro c hc
        obtain ⟨hblank, hslash, hbracket⟩ := h.mem c hc
        simp [hblank, hslash, hbracket]
      rw [List.drop_left] at hend
      rw [List.takeWhile_append_of_pos hname]
      cases rest with
      | nil => simp
      | cons c rest =>
        have hstop : (isBlank c || c == '/' || c == '>') = true := hend
        rw [List.takeWhile_cons, hstop]
        simp

theorem Tag.isCloseOf_eq (h : IsTagName name) (tag : Tag) :
    tag.isCloseOf name = decide (tag.role name = .closes) := by
  by_cases hslash : tag.inner.head? = some '/'
  · obtain ⟨lead, inner⟩ := tag
    obtain ⟨closing, rfl⟩ := List.head?_eq_some_iff.1 hslash
    have hclose : Tag.isCloseOf name ⟨lead, '/' :: closing⟩ = isNamed name closing := rfl
    rw [role_slash, hclose, Bool.eq_iff_iff, decide_eq_true_iff, ← h.tagName_eq_iff]
    by_cases hname : tagName closing = name <;> simp [hname]
  · rw [Tag.role_of_ne hslash, isCloseOf]
    split
    · next heq =>
      rw [heq] at hslash
      exact absurd rfl hslash
    · split <;> rfl

theorem Tag.isOpenOf_eq (h : IsTagName name) (tag : Tag) :
    tag.isOpenOf name = decide (tag.role name = .opens) := by
  by_cases hslash : tag.inner.head? = some '/'
  · obtain ⟨lead, inner⟩ := tag
    obtain ⟨closing, rfl⟩ := List.head?_eq_some_iff.1 hslash
    rw [role_slash, isOpenOf, h.isNamed_slash, Bool.false_and]
    by_cases hname : tagName closing = name <;> simp [hname]
  · have hnamed : decide (tagName tag.inner = name) = isNamed name tag.inner := by
      rw [Bool.eq_iff_iff, decide_eq_true_iff, h.tagName_eq_iff]
    rw [Tag.role_of_ne hslash, hnamed, isOpenOf]
    cases isNamed name tag.inner && !endsWithSlash tag.inner <;> rfl

/-! ## The first close tag too many -/

section

variable {tag : Tag} {depth further : Nat}

/-- A tag in front changes how many elements are open behind it. -/
theorem closesExceed_cons (tags : List Tag)
    (h : (if tag.isOpenOf name then 1 else 0) + depth =
      (if tag.isCloseOf name then 1 else 0) + further) :
    ClosesExceed name depth (tag :: tags) ↔ ClosesExceed name further tags := by
  rw [ClosesExceed, ClosesExceed, List.countP_cons, List.countP_cons]
  omega

theorem closesExceed_of_closes (hname : IsTagName name) (h : tag.role name = .closes) :
    ClosesExceed name 0 [tag] := by
  simp [ClosesExceed, tag.isCloseOf_eq hname, tag.isOpenOf_eq hname, h]

end

theorem not_closesExceed_nil (depth : Nat) : ¬ ClosesExceed name depth [] := Nat.not_lt_zero _

theorem concat_isPrefix (front : List Tag) (tag : Tag) (behind : List Tag) :
    front ++ [tag] <+: front ++ tag :: behind := by
  rw [List.prefix_append_right_inj]
  exact List.cons_prefix_cons.2 ⟨rfl, List.nil_prefix⟩

/-- The tags are split at the first one at which the close tags outnumber the open ones, or not at all if
there is none. -/
def IsSplit (name : List Char) (depth : Nat) (tags : List Tag) :
    Option (List Tag × Tag × List Tag) → Prop
  | some (inside, close, behind) =>
    tags = inside ++ close :: behind ∧
      (∀ front, front <+: inside → ¬ ClosesExceed name depth front) ∧
      ClosesExceed name depth (inside ++ [close])
  | none => ∀ front, front <+: tags → ¬ ClosesExceed name depth front

/-- A tag that is not the one looked for is passed over, with `further` elements open behind it. -/
theorem IsSplit.cons {tag : Tag} {depth further : Nat} {tags : List Tag}
    {found : Option (List Tag × Tag × List Tag)} (h : IsSplit name further tags found)
    (hdepth : (if tag.isOpenOf name then 1 else 0) + depth =
      (if tag.isCloseOf name then 1 else 0) + further) :
    IsSplit name depth (tag :: tags) (found.map (Prod.map (tag :: ·) id)) := by
  have hprefix : ∀ {inside : List Tag},
      (∀ front, front <+: inside → ¬ ClosesExceed name further front) →
        ∀ front, front <+: tag :: inside → ¬ ClosesExceed name depth front := by
    intro inside hinside front hfront
    rcases List.prefix_cons_iff.1 hfront with rfl | ⟨front, rfl, htail⟩
    · exact not_closesExceed_nil depth
    · rw [closesExceed_cons front hdepth]
      exact hinside front htail
  cases found with
  | none => exact hprefix h
  | some found =>
    obtain ⟨inside, close, behind⟩ := found
    obtain ⟨rfl, hinside, hclose⟩ := h
    exact ⟨rfl, hprefix hinside, (closesExceed_cons _ hdepth).2 hclose⟩

theorem isSplit_splitAtClose (hname : IsTagName name) (depth : Nat) (tags : List Tag) :
    IsSplit name depth tags (splitAtClose name depth tags) := by
  induction tags generalizing depth with
  | nil =>
    intro front hfront
    rw [List.prefix_nil.1 hfront]
    exact not_closesExceed_nil depth
  | cons tag tags ih =>
    have hopen := tag.isOpenOf_eq hname
    have hclose := tag.isCloseOf_eq hname
    cases hrole : tag.role name with
    | closes =>
      cases depth with
      | zero =>
        rw [splitAtClose_zero_of_closes hrole]
        refine ⟨rfl, ?_, closesExceed_of_closes hname hrole⟩
        intro front hfront
        rw [List.prefix_nil.1 hfront]
        exact not_closesExceed_nil 0
      | succ depth =>
        rw [splitAtClose_succ_of_closes hrole]
        refine (ih depth).cons ?_
        simp [hclose, hopen, hrole, Nat.add_comm]
    | opens =>
      rw [splitAtClose_of_opens hrole]
      refine (ih (depth + 1)).cons ?_
      simp [hclose, hopen, hrole, Nat.add_comm]
    | other =>
      rw [splitAtClose_of_other hrole]
      refine (ih depth).cons ?_
      simp [hclose, hopen, hrole]

theorem splitAtClose_eq_some_iff (hname : IsTagName name) {depth : Nat}
    {tags inside behind : List Tag} {close : Tag} :
    splitAtClose name depth tags = some (inside, close, behind) ↔
      tags = inside ++ close :: behind ∧
        (∀ front, front <+: inside → ¬ ClosesExceed name depth front) ∧
        ClosesExceed name depth (inside ++ [close]) := by
  have hspec := isSplit_splitAtClose hname depth tags
  constructor
  · intro h
    rw [h] at hspec
    exact hspec
  · rintro ⟨rfl, hinside, hclose⟩
    have hpart : ∀ {first : List Tag} {tag : Tag} {rest second behind : List Tag},
        first ++ tag :: rest = second ++ behind → first.length < second.length →
          first ++ [tag] <+: second := by
      intro first tag rest second behind heq hlt
      have hfirst : first ++ [tag] <+: second ++ behind := by
        rw [← heq]
        exact concat_isPrefix ..
      refine List.prefix_of_prefix_length_le hfirst (List.prefix_append ..) ?_
      rw [List.length_append, List.length_singleton]
      omega
    cases hfound : splitAtClose name depth (inside ++ close :: behind) with
    | none =>
      rw [hfound] at hspec
      exact absurd hclose (hspec _ (concat_isPrefix ..))
    | some found =>
      obtain ⟨inside', close', behind'⟩ := found
      rw [hfound] at hspec
      obtain ⟨heq, hinside', hclose'⟩ := hspec
      rcases Nat.lt_trichotomy inside.length inside'.length with hlt | hsame | hlt
      · exact absurd hclose (hinside' _ (hpart heq hlt))
      · obtain ⟨rfl, htail⟩ := List.append_inj heq hsame
        obtain ⟨rfl, rfl⟩ := List.cons.inj htail
        rfl
      · exact absurd hclose' (hinside _ (hpart heq.symm hlt))

theorem splitAtClose_eq_none_iff (hname : IsTagName name) {depth : Nat} {tags : List Tag} :
    splitAtClose name depth tags = none ↔
      ∀ front, front <+: tags → ¬ ClosesExceed name depth front := by
  have hspec := isSplit_splitAtClose hname depth tags
  constructor
  · intro h
    rw [h] at hspec
    exact hspec
  · intro hnone
    cases hfound : splitAtClose name depth tags with
    | none => rfl
    | some found =>
      obtain ⟨inside, close, behind⟩ := found
      rw [hfound] at hspec
      obtain ⟨rfl, -, hclose⟩ := hspec
      exact absurd hclose (hnone _ (concat_isPrefix ..))

end

/-! ## Text inside a tag -/

/-- Text with its quotations closed is text inside a tag, if no `>` stands in it outside quotations. -/
theorem isTagText_of_quotesClosed {front rest : List Char} (h : QuotesClosed front)
    (hnone : StandsNowhere ['>'] (front ++ rest)) : IsTagText front := by
  induction h with
  | nil => exact .nil
  | @plain c front hquote _ ih =>
    have hend : c ≠ '>' := by
      rintro rfl
      refine hnone [] _ rfl .nil ⟨⟨'>', front ++ rest, rfl, hquote⟩, ?_⟩
      exact List.cons_prefix_cons.2 ⟨rfl, List.nil_prefix⟩
    refine .plain hquote hend (ih ?_)
    intro before behind hsplit hbefore
    exact hnone (c :: before) behind (by rw [List.cons_append, hsplit, List.cons_append])
      (.plain hquote hbefore)
  | @quotation mark body front hmark hbody _ ih =>
    refine .quotation hmark hbody (ih ?_)
    intro before behind hsplit hbefore
    refine hnone (mark :: (body ++ mark :: before)) behind ?_ (.quotation hmark hbody hbefore)
    simp [hsplit]

/-! ## Walks over tags -/

/-- The text begins with the tags, one behind the other, and `rest` is what stands behind them. -/
structure IsWalk (body : List Char) (tags : List Tag) (rest : List Char) : Prop where
  text : body = tags.flatMap Tag.text ++ rest
  found : ∀ tag ∈ tags, tag.IsFound

/-- No tag can be read from the text, which is reported as a flaw of an element of the name. -/
inductive Stops (name : List Char) : List Char → MarkupFlaw → Prop where
  /-- No tag begins in it. -/
  | noTag {text : List Char} : '<' ∉ text → Stops name text (.neverClosed name)
  /-- The first tag has no end. -/
  | noEnd {lead inner : List Char} : '<' ∉ lead → IsTagText inner →
      Stops name (lead ++ '<' :: inner) (.missingTerminator ('<' :: inner))
  /-- A quotation in the first tag has no end. -/
  | noMark {lead inner quotation : List Char} : '<' ∉ lead → IsTagText inner →
      NeverCloses quotation →
      Stops name (lead ++ '<' :: (inner ++ quotation)) (.unclosedQuotation quotation)

/-- What is reported of an element that is not closed before the ending. -/
def Ending.flaw (name : List Char) : Ending → MarkupFlaw
  | .plain _ => .neverClosed name
  | .broken _ flaw => flaw

section

variable {name body rest : List Char} {flaw : MarkupFlaw}

theorem Stops.scan (h : Stops name rest flaw) :
    ∃ ending, Markup.scan rest = ⟨[], ending⟩ ∧ ending.flaw name = flaw := by
  cases h with
  | noTag hplain => exact ⟨_, Markup.isScanned_plain hplain, rfl⟩
  | @noEnd lead inner hlead hinner =>
    have hseek : seek ['>'] inner = .absent := by
      have hbehind := seek_append_of_isTagText hinner []
      rw [List.append_nil] at hbehind
      exact hbehind
    have hbracket : Markup.scan ('<' :: inner) =
        ⟨[], .broken ('<' :: inner) (.missingTerminator ('<' :: inner))⟩ := by
      rw [Markup.scan_eq]
      simp [hseek]
    rw [Markup.scan_ledBy hlead, hbracket]
    exact ⟨_, rfl, rfl⟩
  | @noMark lead inner quotation hlead hinner hnever =>
    have hseek : seek ['>'] (inner ++ quotation) = .unclosed quotation := by
      rw [seek_append_of_isTagText hinner, seek_of_neverCloses hnever]
      rfl
    have hbracket : Markup.scan ('<' :: (inner ++ quotation)) =
        ⟨[], .broken ('<' :: (inner ++ quotation)) (.unclosedQuotation quotation)⟩ := by
      rw [Markup.scan_eq]
      simp [hseek]
    rw [Markup.scan_ledBy hlead, hbracket]
    exact ⟨_, rfl, rfl⟩

theorem stops_of_scan {ending : Ending} (hscan : Markup.scan rest = ⟨[], ending⟩) :
    Stops name rest (ending.flaw name) := by
  rw [Markup.scan_eq] at hscan
  cases hbody : rest.dropWhile (· != '<') with
  | nil =>
    rw [hbody] at hscan
    cases hscan
    refine .noTag ?_
    intro hmem
    simpa using List.dropWhile_eq_nil_iff.1 hbody '<' hmem
  | cons bracket body =>
    rw [hbody] at hscan
    obtain ⟨rfl, htext, hlead⟩ := ByPosition.takeWhile_bracket hbody
    have hnoTag : '<' ∉ rest.takeWhile (· != '<') := by
      intro hmem
      simpa using hlead '<' hmem
    have hanswer := seek_answers ['>'] body
    rw [htext]
    cases hseek : seek ['>'] body with
    | found inner behind => simp [hseek, Markup.push] at hscan
    | absent =>
      simp only [hseek] at hscan
      rw [hseek] at hanswer
      cases hscan
      obtain ⟨hclosed, hnone⟩ := hanswer
      have hnowhere : StandsNowhere ['>'] (body ++ []) := by rwa [List.append_nil]
      exact .noEnd hnoTag (isTagText_of_quotesClosed hclosed hnowhere)
    | unclosed quotation =>
      simp only [hseek] at hscan
      rw [hseek] at hanswer
      cases hscan
      obtain ⟨hnone, inner, rfl, hclosed, hnever⟩ := hanswer
      exact .noMark hnoTag (isTagText_of_quotesClosed hclosed hnone) hnever

theorem IsWalk.scan {tags : List Tag} (h : IsWalk body tags rest) :
    Markup.scan body = ⟨tags ++ (Markup.scan rest).tags, (Markup.scan rest).ending⟩ := by
  obtain ⟨rfl, hfound⟩ := h
  induction tags with
  | nil => rfl
  | cons tag tags ih =>
    obtain ⟨htag, htags⟩ := List.forall_mem_cons.1 hfound
    rw [List.flatMap_cons, List.append_assoc, htag.scan_text, ih htags]
    rfl

theorem isWalk_of_tags {tags further : List Tag} (h : (Markup.scan body).tags = tags ++ further) :
    IsWalk body tags (Markup.text ⟨further, (Markup.scan body).ending⟩) where
  text := by
    have htext := Markup.text_scan body
    rw [Markup.text, h, List.flatMap_append, List.append_assoc] at htext
    exact htext.symm
  found := by
    intro tag htag
    refine (Markup.isScanned_scan body).tags tag ?_
    rw [h]
    exact List.mem_append_left _ htag

/-! ## The positions of the close tag -/

theorem Markup.closeFrom_eq_ok_iff {depth start stop : Nat} {markup : Markup} :
    markup.closeFrom name depth = .ok (start, stop) ↔
      ∃ inside close behind, splitAtClose name depth markup.tags = some (inside, close, behind) ∧
        start = byteLength (inside.flatMap Tag.text ++ close.lead) ∧
        stop = byteLength ((inside ++ [close]).flatMap Tag.text) := by
  have hlength : ∀ (inside : List Tag) (close : Tag),
      byteLength (inside.flatMap Tag.text ++ close.lead) +
          byteLength ('<' :: close.inner ++ ['>']) =
        byteLength ((inside ++ [close]).flatMap Tag.text) := by
    intro inside close
    rw [← byteLength_append, List.flatMap_append, List.flatMap_singleton, Tag.text]
    simp
  rw [closeFrom]
  cases splitAtClose name depth markup.tags with
  | none => cases markup.ending <;> simp
  | some found =>
    obtain ⟨inside, close, behind⟩ := found
    simp only [hlength, Except.ok.injEq, Prod.mk.injEq, Option.some.injEq]
    constructor
    · rintro ⟨rfl, rfl⟩
      exact ⟨inside, close, behind, ⟨rfl, rfl, rfl⟩, rfl, rfl⟩
    · rintro ⟨_, _, _, ⟨rfl, rfl, rfl⟩, rfl, rfl⟩
      exact ⟨rfl, rfl⟩

theorem Markup.closeFrom_eq_error_iff {depth : Nat} {markup : Markup} :
    markup.closeFrom name depth = .error flaw ↔
      splitAtClose name depth markup.tags = none ∧ markup.ending.flaw name = flaw := by
  rw [closeFrom]
  cases splitAtClose name depth markup.tags with
  | none => cases markup.ending <;> simp [Ending.flaw]
  | some found => simp

/-- The positions of the close tag in a text, and of what stands behind it, are those of the first tag on a
walk over the text at which the close tags of the name outnumber the open ones. None is found just if the
walk stops before it comes to such a tag. -/
theorem closePositions_first_exceeding (hname : IsTagName name) (body : List Char) :
    (∀ start stop, (Markup.scan body).closePositions name = .ok (start, stop) ↔
        ∃ before tag rest, IsWalk body (before ++ [tag]) rest ∧
          (∀ front, front <+: before → ¬ ClosesExceed name 0 front) ∧
          ClosesExceed name 0 (before ++ [tag]) ∧
          start = byteLength (before.flatMap Tag.text ++ tag.lead) ∧
          stop = byteLength ((before ++ [tag]).flatMap Tag.text)) ∧
      ∀ flaw, (Markup.scan body).closePositions name = .error flaw ↔
        ∃ tags rest, IsWalk body tags rest ∧
          (∀ front, front <+: tags → ¬ ClosesExceed name 0 front) ∧ Stops name rest flaw := by
  rw [Markup.closePositions_eq]
  refine ⟨?_, ?_⟩
  · intro start stop
    rw [Markup.closeFrom_eq_ok_iff]
    constructor
    · rintro ⟨before, tag, behind, hsplit, hstart, hstop⟩
      obtain ⟨htags, hbefore, hexceed⟩ := (splitAtClose_eq_some_iff hname).1 hsplit
      rw [List.append_cons] at htags
      exact ⟨before, tag, _, isWalk_of_tags htags, hbefore, hexceed, hstart, hstop⟩
    · rintro ⟨before, tag, rest, hwalk, hbefore, hexceed, hstart, hstop⟩
      refine ⟨before, tag, (Markup.scan rest).tags, ?_, hstart, hstop⟩
      rw [hwalk.scan]
      exact (splitAtClose_eq_some_iff hname).2 ⟨(List.append_cons ..).symm, hbefore, hexceed⟩
  · intro flaw
    rw [Markup.closeFrom_eq_error_iff, splitAtClose_eq_none_iff hname]
    constructor
    · rintro ⟨hnone, rfl⟩
      have hwalk : IsWalk body (Markup.scan body).tags (Markup.scan body).ending.text := by
        have h := isWalk_of_tags (List.append_nil (Markup.scan body).tags).symm
        simpa [Markup.text] using h
      have hending := (Markup.isScanned_scan body).ending
      exact ⟨_, _, hwalk, hnone, stops_of_scan hending⟩
    · rintro ⟨tags, rest, hwalk, hnone, hstops⟩
      obtain ⟨ending, hscan, hflaw⟩ := hstops.scan
      have hbody := hwalk.scan
      rw [hscan, List.append_nil] at hbody
      rw [hbody]
      exact ⟨hnone, hflaw⟩

/-- Behind the tag of a group stand one with a `>` and a close tag in its attributes, one that closes
itself, a tag of another name and text with an apostrophe. A second text breaks off in a quotation. -/
theorem closePositions_first_exceeding_group :
    let name := "g".toList
    let body := "<g id='</g>'>it's é<g x=\">\"/><gg></g ></gg></g\n></g>".toList
    let broken := "<g></g><path d='M</g>".toList
    IsTagName name ∧ (Markup.scan body).closePositions name = .ok (44, 49) ∧
      (∃ before tag rest, IsWalk body (before ++ [tag]) rest ∧
          (∀ front, front <+: before → ¬ ClosesExceed name 0 front) ∧
          ClosesExceed name 0 (before ++ [tag]) ∧
          44 = byteLength (before.flatMap Tag.text ++ tag.lead) ∧
          49 = byteLength ((before ++ [tag]).flatMap Tag.text)) ∧
      (Markup.scan broken).closePositions name = .error (.unclosedQuotation "'M</g>".toList) ∧
      ∃ tags rest, IsWalk broken tags rest ∧
        (∀ front, front <+: tags → ¬ ClosesExceed name 0 front) ∧
        Stops name rest (.unclosedQuotation "'M</g>".toList) := by
  intro name body broken
  have hname : IsTagName name := (KnownKind.container .group).isTagName
  have hok : (Markup.scan body).closePositions name = .ok (44, 49) := by decide +kernel
  have herror : (Markup.scan broken).closePositions name =
      .error (.unclosedQuotation "'M</g>".toList) := by decide +kernel
  obtain ⟨hfound, _⟩ := closePositions_first_exceeding hname body
  obtain ⟨_, hfailed⟩ := closePositions_first_exceeding hname broken
  exact ⟨hname, hok, (hfound 44 49).1 hok, herror, (hfailed _).1 herror⟩

end

end PenPlot
