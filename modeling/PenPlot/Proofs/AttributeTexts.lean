import PenPlot.Proofs.Assignments
import PenPlot.Proofs.Lookup
import PenPlot.Proofs.Outside
import PenPlot.Proofs.Unbroken

/-!
# Quotations in attribute texts

A look-up that comes to a quotation that is never closed answers as if the attribute were missing. For the
attribute text of an element this does not happen: all quotations in the tag are closed, and what is cut
off around the attributes holds no quotation marks, so all quotations in the attributes are closed as well.
They are still closed behind each place at which a search finds a name, which is where the next search
begins.
-/

namespace PenPlot

namespace Text

namespace QuotesClosed

variable {σ : Type} [QuoteMarks σ] {first second text : List σ}

theorem append (hfirst : QuotesClosed first) (hsecond : QuotesClosed second) :
    QuotesClosed (first ++ second) := by
  induction hfirst with
  | nil => exact hsecond
  | plain hc _ ih => exact .plain hc ih
  | quotation hmark hbody _ ih =>
    have hclosed := quotation hmark hbody ih
    simpa using hclosed

/-- Closed quotations at the front may be cut off. -/
theorem of_append_right (hfirst : QuotesClosed first) (h : QuotesClosed (first ++ second)) :
    QuotesClosed second := by
  induction hfirst with
  | nil => exact h
  | plain hc _ ih => exact ih (h.of_plain hc)
  | @quotation mark body first hmark hbody _ ih =>
    have hwhole : mark :: (body ++ mark :: (first ++ second)) =
        (mark :: (body ++ mark :: first) ++ second) ++ [] := by simp
    obtain ⟨inner, -, hrest, hinner⟩ := h.of_quotation hmark hbody (by simp) hwhole
    rw [List.append_nil] at hrest
    exact ih (hrest ▸ hinner)

theorem not_neverCloses (h : QuotesClosed text) : ¬ NeverCloses text := by
  rintro ⟨mark, body, rfl, hmark, hbody⟩
  cases h with
  | plain hc _ =>
    rw [hc] at hmark
    cases hmark
  | quotation _ _ _ => simp at hbody

theorem of_unquoted (h : ∀ c ∈ text, QuoteMarks.isQuote c = false) : QuotesClosed text := by
  induction text with
  | nil => exact .nil
  | cons c text ih =>
    obtain ⟨hc, hothers⟩ := List.forall_mem_cons.1 h
    exact .plain hc (ih hothers)

/-- Text without quotation marks may be cut off at the end. -/
theorem of_append_left (hsecond : ∀ c ∈ second, QuoteMarks.isQuote c = false)
    (h : QuotesClosed (first ++ second)) : QuotesClosed first := by
  induction hlength : first.length using Nat.strongRecOn generalizing first with
  | ind length ih =>
    subst hlength
    rcases quote_cases first with rfl | ⟨c, rest, rfl, hc⟩ | ⟨mark, body, rest, rfl, hmark, hbody⟩ |
      ⟨mark, body, rfl, hmark, hbody⟩
    · exact .nil
    · have hrest : QuotesClosed (rest ++ second) := h.of_plain hc
      exact .plain hc (ih rest.length (Nat.lt_succ_self _) hrest rfl)
    · have hsplit : mark :: (body ++ mark :: rest) ++ second =
          mark :: (body ++ [mark]) ++ (rest ++ second) := by simp
      have hrest : QuotesClosed (rest ++ second) := by
        rw [hsplit] at h
        exact of_append_right (quotation hmark hbody .nil) h
      have hshorter : rest.length < (mark :: (body ++ mark :: rest)).length := by
        simp only [List.length_cons, List.length_append]
        omega
      exact .quotation hmark hbody (ih rest.length hshorter hrest rfl)
    · -- The mark is not in what is cut off either.
      have hnever : mark ∉ body ++ second := by
        rw [List.mem_append, not_or]
        refine ⟨hbody, fun hmem => ?_⟩
        rw [hsecond mark hmem] at hmark
        cases hmark
      exact absurd ⟨mark, body ++ second, rfl, hmark, hnever⟩ h.not_neverCloses

theorem trimStart {text : List Char} (h : QuotesClosed text) :
    QuotesClosed (trimStart text) := by
  have hblanks : ∀ c ∈ text.takeWhile isBlank, QuoteMarks.isQuote c = false := by
    intro c hc
    exact isQuote_of_isBlank (List.mem_takeWhile_imp hc)
  rw [← List.takeWhile_append_dropWhile (p := isBlank) (l := text)] at h
  exact (of_unquoted hblanks).of_append_right h

end QuotesClosed

theorem isQuote_of_mem_utf8EncodeChar {c : Char} (h : QuoteMarks.isQuote c = false) :
    ∀ b ∈ String.utf8EncodeChar c, QuoteMarks.isQuote b = false := by
  obtain ⟨tail, hencode, htail⟩ := exists_utf8EncodeChar_eq c
  rw [hencode]
  refine List.forall_mem_cons.2 ⟨?_, ?_⟩
  · rw [isQuote_firstByte, h]
  · intro b hb
    rw [Bool.eq_false_iff]
    intro hquote
    have hlt := toNat_lt_of_isQuoteByte hquote
    have hle := (htail b hb).1
    omega

/-- Quotations that are closed in a text are closed in its bytes. -/
theorem QuotesClosed.bytes {text : List Char} (h : QuotesClosed text) : QuotesClosed (bytes text) := by
  induction h with
  | nil => exact .nil
  | plain hc _ ih =>
    rw [bytes_cons]
    exact (of_unquoted (isQuote_of_mem_utf8EncodeChar hc)).append ih
  | @quotation mark body rest hmark hbody _ ih =>
    have hlt := toNat_lt_of_isQuote hmark
    have hbytes : Text.bytes (mark :: (body ++ mark :: rest)) =
        firstByte mark :: (Text.bytes body ++ firstByte mark :: Text.bytes rest) := by
      simp [utf8EncodeChar_of_lt hlt]
    rw [hbytes]
    exact .quotation ((isQuote_firstByte mark).trans hmark) (firstByte_notMem hlt hbody) ih

end Text

open Text

theorem IsTagText.quotesClosed {text : List Char} (h : IsTagText text) : QuotesClosed text := by
  induction h with
  | nil => exact .nil
  | plain hc _ _ ih => exact .plain hc ih
  | quotation hmark hbody _ ih => exact .quotation hmark hbody ih

/-! ## Attribute texts -/

theorem exists_trimEnd (text : List Char) :
    ∃ blanks, text = trimEnd text ++ blanks ∧ ∀ c ∈ blanks, isBlank c = true := by
  refine ⟨(text.reverse.takeWhile isBlank).reverse, ?_, ?_⟩
  · rw [trimEnd, ← List.reverse_append, List.takeWhile_append_dropWhile, List.reverse_reverse]
  · intro c hc
    exact List.mem_takeWhile_imp (List.mem_reverse.1 hc)

theorem exists_trim (text : List Char) :
    ∃ blanks behind, text = blanks ++ (trim text ++ behind) ∧
      (∀ c ∈ blanks, isBlank c = true) ∧ ∀ c ∈ behind, isBlank c = true := by
  obtain ⟨behind, hbehind, hblank⟩ := exists_trimEnd (trimStart text)
  refine ⟨text.takeWhile isBlank, behind, ?_, List.all_eq_true.1 List.all_takeWhile, hblank⟩
  have hend : trimStart text = trim text ++ behind := hbehind
  rw [← hend]
  exact List.takeWhile_append_dropWhile.symm

namespace Markup

/-- Where the attributes of an element stand in its tag: behind the name and blanks, and before blanks
and a slash. -/
structure AttributesAt (inner attributes front behind : List Char) : Prop where
  text : inner = front ++ (attributes ++ behind)
  front : ∃ blanks, front = tagName inner ++ blanks ∧ ∀ c ∈ blanks, isBlank c = true
  behind : ∀ c ∈ behind, isBlank c = true ∨ c = '/'

theorem exists_attributesAt (inner : List Char) :
    ∃ front behind, AttributesAt inner (attributeText (tagName inner) inner).1 front behind := by
  have hname := List.prefix_iff_eq_append.1 (tagName_isPrefix inner)
  obtain ⟨blanks, behind, hsplit, hblanks, hbehind⟩ := exists_trim (inner.drop (tagName inner).length)
  rw [attributeText]
  set text := trim (inner.drop (tagName inner).length) with htext
  have hinner : inner = tagName inner ++ blanks ++ (text ++ behind) := by
    rw [List.append_assoc, ← hsplit, hname]
  by_cases hslash : text.getLast? = some '/'
  · obtain ⟨more, hmore, hblank⟩ := exists_trimEnd text.dropLast
    have hlast : text = trimEnd text.dropLast ++ (more ++ ['/']) := by
      rw [← List.append_assoc, ← hmore]
      exact (List.dropLast_append_getLast? '/' hslash).symm
    rw [if_pos hslash]
    refine ⟨tagName inner ++ blanks, more ++ ['/'] ++ behind, ⟨?_, ⟨blanks, rfl, hblanks⟩, ?_⟩⟩
    · rw [← List.append_assoc (trimEnd text.dropLast), ← hlast]
      exact hinner
    · intro c hc
      rw [List.mem_append, List.mem_append, List.mem_singleton] at hc
      rcases hc with (hc | rfl) | hc
      · exact .inl (hblank c hc)
      · exact .inr rfl
      · exact .inl (hbehind c hc)
  · rw [if_neg hslash]
    refine ⟨tagName inner ++ blanks, behind, ⟨hinner, ⟨blanks, rfl, hblanks⟩, ?_⟩⟩
    intro c hc
    exact .inl (hbehind c hc)

/-- No quotation of a tag is open where the attributes of a known element begin or where they end. -/
theorem AttributesAt.quotesClosed {inner attributes front behind : List Char}
    (h : AttributesAt inner attributes front behind) (htag : IsTagText inner)
    (hkind : ElementKind.ofName (tagName inner) ≠ .unrecognized) :
    QuotesClosed front ∧ QuotesClosed attributes := by
  obtain ⟨htext, ⟨blanks, hfront, hblanks⟩, hbehind⟩ := h
  have hplain : ∀ c ∈ front, QuoteMarks.isQuote c = false := by
    intro c hc
    rw [hfront, List.mem_append] at hc
    rcases hc with hc | hc
    · exact isQuote_of_mem_tagName hkind c hc
    · exact isQuote_of_isBlank (hblanks c hc)
  have hcut : ∀ c ∈ behind, QuoteMarks.isQuote c = false := by
    intro c hc
    rcases hbehind c hc with hblank | rfl
    · exact isQuote_of_isBlank hblank
    · rfl
  have hclosed := htag.quotesClosed
  rw [htext] at hclosed
  have hopen : QuotesClosed front := .of_unquoted hplain
  exact ⟨hopen, (hopen.of_append_right hclosed).of_append_left hcut⟩

end Markup

/-! ## Searches of a look-up -/

/-- Behind a place at which a search finds the word, all quotations are closed if they are behind its
start. -/
theorem quotesClosed_behind_findByte {word haystack : List Char} {start i : Nat}
    (hclosed : QuotesClosed ((bytes haystack).drop start))
    (hfind : findByte word haystack start = .ok (some i)) :
    QuotesClosed ((bytes haystack).drop (i + 1)) := by
  obtain ⟨hstands, -⟩ := findByte_eq_some_iff.1 hfind
  obtain ⟨before, behind, hsplit, rfl, hbefore, ⟨c, rest, rfl, hc⟩, -⟩ := standsAt_iff.1 hstands
  have hrest : (bytes haystack).drop (start + before.length + 1) = rest := by
    rw [Nat.add_assoc, ← List.drop_drop, hsplit, ← List.drop_drop, List.drop_left]
    rfl
  rw [hsplit] at hclosed
  rw [hrest]
  exact (hbefore.of_append_right hclosed).of_plain hc

theorem exists_findByte_eq_ok {haystack : List Char} {start : Nat}
    (hclosed : QuotesClosed ((bytes haystack).drop start)) (word : List Char) :
    ∃ found?, findByte word haystack start = .ok found? := by
  cases hfind : findByte word haystack start with
  | ok found? => exact ⟨found?, rfl⟩
  | error flaw =>
    obtain ⟨j, hnever, -⟩ := findByte_eq_error_iff.1 hfind
    obtain ⟨before, quotation, hsplit, -, hbefore, hquotation⟩ := neverClosesAt_iff.1 hnever
    rw [hsplit] at hclosed
    exact absurd hquotation (hbefore.of_append_right hclosed).not_neverCloses

namespace ByPosition

variable {name attributes : List Char} {start : Nat}

/-- The look-up of a value searches for the name from this position on: it begins at the front, and goes
on behind the first byte of a name that is given no value where it is found. -/
inductive IsSearched (name attributes : List Char) : Nat → Prop where
  | front : IsSearched name attributes 0
  | behind {start i : Nat} : IsSearched name attributes start →
      findByte name attributes start = .ok (some i) →
      (∀ further, valueAt name attributes i further = further) → IsSearched name attributes (i + 1)

/-- The look-up answers what it answers from any position at which it searches. -/
theorem IsSearched.valueOf_zero (h : IsSearched name attributes start) :
    valueOf name attributes 0 = valueOf name attributes start := by
  induction h with
  | front => rfl
  | behind _ hfind hfurther ih =>
    rw [ih, valueOf, find_eq, hfind]
    exact hfurther _

theorem IsSearched.quotesClosed (h : IsSearched name attributes start)
    (hclosed : QuotesClosed attributes) : QuotesClosed ((bytes attributes).drop start) := by
  induction h with
  | front => exact hclosed.bytes
  | behind _ hfind _ ih => exact quotesClosed_behind_findByte ih hfind

/-- A name that is found is given a value, or the look-up goes on. -/
theorem valueAt_cases (name attributes : List Char) (i : Nat) :
    (∀ further, valueAt name attributes i further = further) ∨
      ∃ answer, ∀ further, valueAt name attributes i further = answer := by
  unfold valueAt
  cases mayBegin i attributes with
  | none => exact .inr ⟨none, fun _ => rfl⟩
  | some begins =>
    cases begins with
    | false => exact .inl fun _ => rfl
    | true =>
      cases from? (i + byteLength name) attributes with
      | none => exact .inr ⟨none, fun _ => rfl⟩
      | some behind =>
        simp only [some_bind, if_pos, assigned_eq]
        cases Assignment.read behind with
        | absent => exact .inl fun _ => rfl
        | value value => exact .inr ⟨some (some value), fun _ => rfl⟩
        | unfinished => exact .inr ⟨some none, fun _ => rfl⟩

/-- If all quotations are closed, the look-up ends with a search that finds nothing more, or at a name where
the answer is decided. -/
theorem IsSearched.exists_last (h : IsSearched name attributes start) (hclosed : QuotesClosed attributes) :
    ∃ last, IsSearched name attributes last ∧
      (findByte name attributes last = .ok none ∧ attribute? name attributes = none ∨
        ∃ i, findByte name attributes last = .ok (some i) ∧
          ∀ further, valueAt name attributes i further = some (attribute? name attributes)) := by
  induction hleft : byteLength attributes - start using Nat.strongRecOn generalizing start with
  | ind left ih =>
    subst hleft
    have hanswer := h.valueOf_zero
    rw [ByPosition.valueOf_eq, valueOf, find_eq] at hanswer
    obtain ⟨found?, hfind⟩ := exists_findByte_eq_ok (h.quotesClosed hclosed) name
    rw [hfind] at hanswer
    cases found? with
    | none => exact ⟨start, h, .inl ⟨hfind, Option.some.inj hanswer⟩⟩
    | some i =>
      rcases valueAt_cases name attributes i with hfurther | ⟨answer, hdecided⟩
      · -- The next search begins further on, and it answers the same.
        have hbounds := bounds_of_find ((find_eq name attributes start).trans (congrArg some hfind))
        exact ih (byteLength attributes - (i + 1)) (by omega) (h.behind hfind hfurther) rfl
      · refine ⟨start, h, .inr ⟨i, hfind, fun further => ?_⟩⟩
        rw [hdecided further, hanswer]
        exact (hdecided _).symm

end ByPosition

/-! ## Values -/

theorem quotesClosed_of_mem_occurrencesFrom {needle : List Char}
    (hneedle : ∀ c ∈ needle, QuoteMarks.isQuote c = false) {previous : Option Char} {text : List Char}
    (h : QuotesClosed text) :
    ∀ found ∈ occurrencesFrom needle previous none text, QuotesClosed found.2 := by
  induction h generalizing previous with
  | nil => exact nofun
  | @plain c rest hc hrest ih =>
    have hquote : ¬ QuoteMarks.isQuote c = true := by simp [hc]
    rw [occurrencesFrom, if_neg hquote]
    split
    · next hfront =>
      obtain ⟨behind, hbehind⟩ := List.isPrefixOf_iff_prefix.1 hfront
      have hclosed := QuotesClosed.plain hc hrest
      rw [← hbehind] at hclosed
      refine List.forall_mem_cons.2 ⟨?_, ih⟩
      rw [← hbehind, List.drop_left]
      exact (QuotesClosed.of_unquoted hneedle).of_append_right hclosed
    · exact ih
  | @quotation mark body rest hmark hbody _ ih =>
    rw [occurrencesFrom, if_pos hmark, occurrencesFrom_inside hbody]
    exact ih

/-- If all quotations are closed, a value is missing behind an equals sign only at the end. -/
theorem Assignment.exists_of_read_unfinished {behind : List Char} (h : QuotesClosed behind)
    (hread : read behind = .unfinished) :
    ∃ text, Text.trimStart behind = '=' :: text ∧ Text.trimStart text = [] := by
  rw [read] at hread
  split at hread
  · next text hsign =>
    have htext : QuotesClosed text := by
      have hstart := h.trimStart
      rw [hsign] at hstart
      exact hstart.of_plain rfl
    split at hread
    · next hnil => exact ⟨text, hsign, hnil⟩
    · next mark body hmark =>
      have hbody := htext.trimStart
      rw [hmark] at hbody
      split at hread
      · next hquote =>
        split at hread
        · cases hread
        · next hnever => exact absurd ⟨mark, body, rfl, hquote, hnever⟩ hbody.not_neverCloses
      · cases hread
  · cases hread

/-- No quotation of an attribute text keeps a look-up from its answer. -/
structure IsSearchable (attributes : List Char) : Prop where
  /-- No search that a look-up makes comes to a quotation that is never closed. -/
  searches : ∀ name start, ByPosition.IsSearched name attributes start →
    ∃ found?, findByte name attributes start = .ok found?
  /-- A look-up ends with a search that finds nothing more, or at a name where the answer is decided. -/
  ends : ∀ name, ∃ last, ByPosition.IsSearched name attributes last ∧
    (findByte name attributes last = .ok none ∧ attribute? name attributes = none ∨
      ∃ i, findByte name attributes last = .ok (some i) ∧
        ∀ further, ByPosition.valueAt name attributes i further = some (attribute? name attributes))
  /-- An assignment is left unfinished only where the text ends behind the equals sign. -/
  values : ∀ name : List Char, (∀ c ∈ name, QuoteMarks.isQuote c = false) →
    ∀ found ∈ occurrences name attributes, Assignment.read found.2 = .unfinished →
      ∃ text, trimStart found.2 = '=' :: text ∧ trimStart text = []

theorem isSearchable_of_quotesClosed {attributes : List Char} (h : QuotesClosed attributes) :
    IsSearchable attributes where
  searches _ _ hsearched := exists_findByte_eq_ok (hsearched.quotesClosed h) _
  ends _ := ByPosition.IsSearched.front.exists_last h
  values _ hname found hfound hread :=
    Assignment.exists_of_read_unfinished (quotesClosed_of_mem_occurrencesFrom hname h found hfound) hread

/-! ## Elements -/

/-- The tag that an element begins with, where its attributes stand. -/
theorem Markup.exists_tag_text_of_take? {text : List Char} {element : Element} {rest : Markup}
    (h : (scan text).take? = .ok (some (element, rest))) (hkind : element.kind ≠ .unrecognized) :
    ∃ lead inner more front behind, text = lead ++ '<' :: (inner ++ '>' :: more) ∧ '<' ∉ lead ∧
      IsTagText inner ∧ ElementKind.ofName (tagName inner) ≠ .unrecognized ∧
      AttributesAt inner element.attributes front behind := by
  obtain ⟨tag, hfirst, hofName, hattributes⟩ := head?_tags_of_take? h
  obtain ⟨tags, htags⟩ := List.head?_eq_some_iff.1 hfirst
  have hfound := (isScanned_scan text).tags tag (List.mem_of_head? hfirst)
  have htext := text_scan text
  rw [Markup.text, htags, List.flatMap_cons, Tag.text] at htext
  obtain ⟨front, behind, hat⟩ := exists_attributesAt tag.inner
  rw [← hattributes hkind] at hat
  have hsplit : text = tag.lead ++ '<' :: (tag.inner ++ '>' ::
      (tags.flatMap Tag.text ++ (scan text).ending.text)) := by
    simpa using htext.symm
  exact ⟨tag.lead, tag.inner, _, front, behind, hsplit, hfound.lead, hfound.inner, hofName ▸ hkind, hat⟩

variable {α σ : Type} [Scalar α]

/-- A walk takes elements only as the tags of its text say. -/
theorem exists_tag_of_mem_visits (sheet : Sheet α) (sink : Sink α σ) (receiver : σ) (text : List Char) :
    ∀ visit ∈ (walkThrough sheet sink receiver text).2.visits, ∃ tag ∈ (Markup.scan text).tags,
      visit.kind = .ofName (tagName tag.inner) ∧
        (visit.kind ≠ .unrecognized →
          visit.attributes = (Markup.attributeText (tagName tag.inner) tag.inner).1) := by
  intro visit hvisit
  obtain ⟨-, hadvanced⟩ := walkThrough_follows sheet sink receiver text
  have hvisits := hadvanced.visits
  rw [← Array.mem_toList_iff, hvisits] at hvisit
  obtain ⟨station, hstation, rfl⟩ := List.mem_map.1 hvisit
  exact Route.exists_tag_of_mem_taken sheet .bare (.scan text) station hstation

/-- Whatever name is looked up in the attributes of a known element, no search for it comes to a quotation
that is never closed. The attributes begin and end outside the quotations of the tag. So it is for the
element at the front of a text, and for all elements that a walk through the text takes. -/
theorem isSearchable_attributes (sheet : Sheet α) (sink : Sink α σ) (receiver : σ) (text : List Char) :
    (∀ element rest, (Markup.scan text).take? = .ok (some (element, rest)) →
      element.kind ≠ .unrecognized →
        IsSearchable element.attributes ∧
        ∃ lead inner more front behind, text = lead ++ '<' :: (inner ++ '>' :: more) ∧ '<' ∉ lead ∧
          IsTagText inner ∧ Markup.AttributesAt inner element.attributes front behind ∧
          QuotesClosed front ∧ QuotesClosed (front ++ element.attributes)) ∧
      ∀ visit ∈ (walkThrough sheet sink receiver text).2.visits, visit.kind ≠ .unrecognized →
        IsSearchable visit.attributes := by
  constructor
  · intro element rest htake hkind
    obtain ⟨lead, inner, more, front, behind, htext, hlead, htag, hknown, hat⟩ :=
      Markup.exists_tag_text_of_take? htake hkind
    obtain ⟨hfront, hattributes⟩ := hat.quotesClosed htag hknown
    exact ⟨isSearchable_of_quotesClosed hattributes, lead, inner, more, front, behind, htext, hlead,
      htag, hat, hfront, hfront.append hattributes⟩
  · intro visit hvisit hkind
    obtain ⟨tag, htag, hofName, hattributes⟩ :=
      exists_tag_of_mem_visits sheet sink receiver text visit hvisit
    have hinner := ((Markup.isScanned_scan text).tags tag htag).inner
    obtain ⟨front, behind, hat⟩ := Markup.exists_attributesAt tag.inner
    rw [← hattributes hkind] at hat
    exact isSearchable_of_quotesClosed (hat.quotesClosed hinner (hofName ▸ hkind)).2

/-- Between the tags stands a mark that opens no quotation, and `d` is found in `id`, where it does not
stand on its own. -/
theorem isSearchable_attributes_group :
    let sheet : Sheet Float := ⟨⟨10, 10⟩, ⟨2, false⟩⟩
    let text := "it's<g\tid=\"é='>\" x = '5\">' / >".toList
    let attributes := "id=\"é='>\" x = '5\">'".toList
    (Markup.scan text).take? = .ok (some (⟨.container .group, attributes, .empty⟩, .empty)) ∧
      ByPosition.IsSearched ['d'] attributes 2 ∧ findByte ['d'] attributes 2 = .ok none ∧
      IsSearchable attributes ∧
      (∃ lead inner more front behind, text = lead ++ '<' :: (inner ++ '>' :: more) ∧ '<' ∉ lead ∧
        IsTagText inner ∧ Markup.AttributesAt inner attributes front behind ∧
        QuotesClosed front ∧ QuotesClosed (front ++ attributes)) ∧
      ⟨.container .group, attributes, 0⟩ ∈ (walkThrough sheet .counting (0, 0) text).2.visits := by
  intro sheet text attributes
  have htake : (Markup.scan text).take? =
      .ok (some (⟨.container .group, attributes, .empty⟩, .empty)) := by
    decide +kernel
  have hfind : findByte ['d'] attributes 0 = .ok (some 1) := by decide +kernel
  have hsearched : ByPosition.IsSearched ['d'] attributes 2 := .behind .front hfind fun _ => rfl
  have hvisit : ⟨.container .group, attributes, 0⟩ ∈
      (walkThrough sheet .counting (0, 0) text).2.visits := by
    decide +kernel
  obtain ⟨htaken, hvisited⟩ := isSearchable_attributes sheet .counting (0, 0) text
  obtain ⟨-, hplace⟩ := htaken _ _ htake nofun
  exact ⟨htake, hsearched, by decide +kernel, hvisited _ hvisit nofun, hplace, hvisit⟩

end PenPlot
