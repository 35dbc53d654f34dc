import PenPlot.Proofs.Cutting

/-!
# Values without line breaks

Preparing a source and scanning what was prepared decide separately what is a tag and what is quoted in
it. The one passes over the text once, character by character, and knows only the place where it is. The
other looks for the `<` and the `>` of one tag after the other. They agree, whatever stray marks stand
between the tags: inside the tags that are scanned no quotation holds a line break or a tab, and so no
value does that is looked up in the attributes of an element.
-/

namespace PenPlot

namespace Text

/-- The text has no line breaks and no tabs. -/
def IsUnbroken (text : List Char) : Prop := ∀ c ∈ text, c ≠ '\r' ∧ c ≠ '\n' ∧ c ≠ '\t'

/-- No quotation in the text has line breaks or tabs, be it closed or not. `within` is the mark of the
quotation that the text begins in. -/
def QuotesUnbroken : (within : Option Char) → List Char → Prop
  | _, [] => True
  | none, c :: rest => QuotesUnbroken (if QuoteMarks.isQuote c then some c else none) rest
  | some mark, c :: rest =>
    if c = mark then QuotesUnbroken none rest
    else (c ≠ '\r' ∧ c ≠ '\n' ∧ c ≠ '\t') ∧ QuotesUnbroken (some mark) rest

namespace QuotesUnbroken

variable {within : Option Char} {first second : List Char}

theorem of_append_left (h : QuotesUnbroken within (first ++ second)) :
    QuotesUnbroken within first := by
  induction first generalizing within with
  | nil => cases within <;> trivial
  | cons c first ih =>
    cases within with
    | none => exact ih h
    | some mark =>
      simp only [List.cons_append, QuotesUnbroken] at h ⊢
      split at h
      · next hc =>
        rw [if_pos hc]
        exact ih h
      · next hc =>
        rw [if_neg hc]
        exact ⟨h.1, ih h.2⟩

theorem of_isPrefix (h : QuotesUnbroken within second) (hfirst : first <+: second) :
    QuotesUnbroken within first := by
  obtain ⟨rest, rfl⟩ := hfirst
  exact h.of_append_left

/-- Behind text without quotation marks the text is again outside quotations. -/
theorem of_append_right (hfirst : ∀ c ∈ first, QuoteMarks.isQuote c = false)
    (h : QuotesUnbroken none (first ++ second)) : QuotesUnbroken none second := by
  induction first with
  | nil => exact h
  | cons c first ih =>
    obtain ⟨hc, hothers⟩ := List.forall_mem_cons.1 hfirst
    refine ih hothers ?_
    simpa [QuotesUnbroken, hc] using h

theorem trimStart (h : QuotesUnbroken none first) : QuotesUnbroken none (trimStart first) := by
  have hblanks : ∀ c ∈ first.takeWhile isBlank, QuoteMarks.isQuote c = false := by
    intro c hc
    exact isQuote_of_isBlank (List.mem_takeWhile_imp hc)
  rw [← List.takeWhile_append_dropWhile (p := isBlank) (l := first)] at h
  exact h.of_append_right hblanks

theorem trimEnd (h : QuotesUnbroken within first) : QuotesUnbroken within (trimEnd first) :=
  h.of_isPrefix (List.rdropWhile_prefix isBlank first)

/-- What a quotation holds up to its end. -/
theorem takeWhile {mark : Char} (h : QuotesUnbroken (some mark) first) :
    IsUnbroken (first.takeWhile (· != mark)) := by
  induction first with
  | nil => exact nofun
  | cons c first ih =>
    rw [QuotesUnbroken] at h
    by_cases hc : c = mark
    · rw [List.takeWhile_cons_of_neg (by simp [hc])]
      exact nofun
    · rw [if_neg hc] at h
      rw [List.takeWhile_cons_of_pos (by simp [hc])]
      exact List.forall_mem_cons.2 ⟨h.1, ih h.2⟩

/-- A quotation without line breaks and tabs, and what is behind it. -/
theorem of_quotation {mark : Char} {body : List Char} (hbody : IsUnbroken body) (hmark : mark ∉ body)
    (h : QuotesUnbroken none second) : QuotesUnbroken (some mark) (body ++ mark :: second) := by
  induction body with
  | nil => simpa [QuotesUnbroken] using h
  | cons c body ih =>
    obtain ⟨hc, hothers⟩ := List.forall_mem_cons.1 hbody
    rw [List.mem_cons, not_or] at hmark
    rw [List.cons_append, QuotesUnbroken, if_neg (Ne.symm hmark.1)]
    exact ⟨hc, ih hothers hmark.2⟩

end QuotesUnbroken

/-- Behind a needle without quotation marks that is found outside quotations, the text is outside of
them as well. -/
theorem quotesUnbroken_of_mem_occurrencesFrom {needle : List Char}
    (hneedle : ∀ c ∈ needle, QuoteMarks.isQuote c = false) {previous within : Option Char}
    {text : List Char} (h : QuotesUnbroken within text) :
    ∀ found ∈ occurrencesFrom needle previous within text, QuotesUnbroken none found.2 := by
  induction text generalizing previous within with
  | nil => exact nofun
  | cons c rest ih =>
    cases within with
    | some mark =>
      rw [QuotesUnbroken] at h
      rw [occurrencesFrom]
      by_cases hc : c = mark
      · rw [if_pos hc] at h ⊢
        exact ih h
      · rw [if_neg hc] at h ⊢
        exact ih h.2
    | none =>
      have hrest := h
      rw [QuotesUnbroken] at hrest
      rw [occurrencesFrom]
      by_cases hquote : QuoteMarks.isQuote c = true
      · rw [if_pos hquote] at hrest ⊢
        exact ih hrest
      · rw [if_neg hquote] at hrest ⊢
        split
        · next hfront =>
          refine List.forall_mem_cons.2 ⟨?_, ih hrest⟩
          obtain ⟨behind, hbehind⟩ := List.isPrefixOf_iff_prefix.1 hfront
          rw [← hbehind, List.drop_left]
          rw [← hbehind] at h
          exact h.of_append_right hneedle
        · exact ih hrest

end Text

open Text

/-! ## Attributes -/

theorem Assignment.isUnbroken_of_read {behind value : List Char} (h : QuotesUnbroken none behind)
    (hread : read behind = .value value) : IsUnbroken value := by
  rw [read] at hread
  split at hread
  · next text hsign =>
    have htext : QuotesUnbroken none text := by
      have hstart := h.trimStart
      rw [hsign] at hstart
      simpa [QuotesUnbroken, QuoteMarks.isQuote] using hstart
    split at hread
    · cases hread
    · next mark body hmark =>
      have hbody := htext.trimStart
      rw [hmark] at hbody
      split at hread
      · next hquote =>
        split at hread
        · cases hread
          rw [QuotesUnbroken, if_pos hquote] at hbody
          exact hbody.takeWhile
        · cases hread
      · cases hread
  · cases hread

theorem isUnbroken_of_attribute? {name attributes value : List Char}
    (hname : ∀ c ∈ name, QuoteMarks.isQuote c = false) (h : QuotesUnbroken none attributes)
    (hvalue : attribute? name attributes = some value) : IsUnbroken value := by
  rw [attribute?] at hvalue
  split at hvalue
  · next text hfind =>
    cases hvalue
    obtain ⟨⟨previous, behind⟩, hfound, hread⟩ := List.mem_map.1 (List.mem_of_find?_eq_some hfind)
    have hbehind : QuotesUnbroken none behind :=
      quotesUnbroken_of_mem_occurrencesFrom hname h _ hfound
    dsimp only at hread
    split at hread
    · exact Assignment.isUnbroken_of_read hbehind hread
    · cases hread
  · cases hvalue

/-- The name of an element that is recognized. -/
theorem KnownKind.exists_name {text : List Char} (h : ElementKind.ofName text ≠ .unrecognized) :
    ∃ kind : KnownKind, kind.name = text := by
  rw [ElementKind.ofName] at h
  cases hfind : ElementKind.known.find? fun kind => kind.name.toList == text with
  | none =>
    rw [hfind] at h
    exact absurd rfl h
  | some found =>
    rw [hfind] at h
    have hname : found.name.toList = text := by simpa using List.find?_some hfind
    cases found with
    | container kind => exact ⟨.container kind, hname⟩
    | shape kind => exact ⟨.shape kind, hname⟩
    | unrecognized => exact absurd rfl h

theorem isQuote_of_mem_tagName {inner : List Char}
    (hkind : ElementKind.ofName (tagName inner) ≠ .unrecognized) :
    ∀ c ∈ tagName inner, QuoteMarks.isQuote c = false := by
  obtain ⟨kind, hname⟩ := KnownKind.exists_name hkind
  intro c hc
  rw [← hname] at hc
  exact (kind.mem_name c hc).2.2.2

theorem Markup.quotesUnbroken_attributeText {inner : List Char}
    (hkind : ElementKind.ofName (tagName inner) ≠ .unrecognized) (h : QuotesUnbroken none inner) :
    QuotesUnbroken none (attributeText (tagName inner) inner).1 := by
  have hbehind : QuotesUnbroken none (inner.drop (tagName inner).length) := by
    rw [← List.prefix_iff_eq_append.1 (tagName_isPrefix inner)] at h
    exact h.of_append_right (isQuote_of_mem_tagName hkind)
  rw [attributeText]
  split
  · exact (hbehind.trimStart.trimEnd.of_isPrefix (List.dropLast_prefix _)).trimEnd
  · exact hbehind.trimStart.trimEnd

/-! ## Places -/

namespace Source

/-- The place behind a text. -/
def Place.after (place : Place) : List Char → Place
  | [] => place
  | c :: rest => (place.next c).after rest

/-- Folding leaves the text as it is. -/
def Place.Keeps (place : Place) (text : List Char) : Prop := foldBreaks place text = text

namespace Place

variable {place : Place} {first second : List Char}

theorem after_append : place.after (first ++ second) = (place.after first).after second := by
  induction first generalizing place with
  | nil => rfl
  | cons c first ih => exact ih

theorem keeps_cons {c : Char} {rest : List Char} :
    place.Keeps (c :: rest) ↔ place.fold c = c ∧ (place.next c).Keeps rest := by
  rw [Keeps, foldBreaks, List.cons.injEq, Keeps]

theorem keeps_append :
    place.Keeps (first ++ second) ↔ place.Keeps first ∧ (place.after first).Keeps second := by
  induction first generalizing place with
  | nil => exact ⟨fun h => ⟨rfl, h⟩, And.right⟩
  | cons c first ih =>
    rw [List.cons_append, keeps_cons, keeps_cons, ih, and_assoc]
    rfl

/-- If the place is in a quotation, no blank closes it. -/
def Marked (place : Place) : Prop := ∀ mark, place = quotation mark → isBlank mark = false

theorem Marked.next (h : place.Marked) (c : Char) : (place.next c).Marked := by
  intro mark hmark
  cases place with
  | text =>
    simp only [Place.next] at hmark
    split at hmark <;> cases hmark
  | tag =>
    simp only [Place.next] at hmark
    split at hmark
    · cases hmark
    · split at hmark
      · next hc =>
        cases hmark
        rcases hc with rfl | rfl <;> rfl
      · cases hmark
  | quotation mark' =>
    simp only [Place.next] at hmark
    split at hmark
    · cases hmark
    · exact h mark hmark

/-- Folding a second time changes nothing. -/
theorem keeps_foldBreaks (h : place.Marked) (text : List Char) :
    place.Keeps (foldBreaks place text) := by
  induction text generalizing place with
  | nil => rfl
  | cons c rest ih =>
    have hc : place.fold (place.fold c) = place.fold c ∧
        place.next (place.fold c) = place.next c := by
      cases place with
      | text => exact ⟨rfl, rfl⟩
      | tag => exact ⟨rfl, rfl⟩
      | quotation mark =>
        have hmark : ' ' ≠ mark := by
          rintro rfl
          cases h ' ' rfl
        by_cases hbreak : c ≠ mark ∧ (c = '\n' ∨ c = '\r' ∨ c = '\t')
        · simp [fold, Place.next, hbreak, hmark]
        · simp only [fold, if_neg hbreak, and_self]
    rw [foldBreaks, keeps_cons, hc.2]
    exact ⟨hc.1, ih (h.next c)⟩

theorem after_text {lead : List Char} (h : '<' ∉ lead) : text.after lead = text := by
  induction lead with
  | nil => rfl
  | cons c lead ih =>
    rw [List.mem_cons, not_or] at h
    have hnext : text.next c = text := if_neg (Ne.symm h.1)
    rw [after, hnext]
    exact ih h.2

/-- In a quotation, up to the mark that closes it. -/
theorem after_quotation {mark : Char} {body : List Char} (h : mark ∉ body) :
    (quotation mark).after body = quotation mark := by
  induction body with
  | nil => rfl
  | cons c body ih =>
    rw [List.mem_cons, not_or] at h
    have hnext : (quotation mark).next c = quotation mark := if_neg (Ne.symm h.1)
    rw [after, hnext]
    exact ih h.2

theorem isUnbroken_of_keeps {mark : Char} {body : List Char} (h : mark ∉ body)
    (hkeeps : (quotation mark).Keeps body) : IsUnbroken body := by
  induction body with
  | nil => exact nofun
  | cons c body ih =>
    rw [List.mem_cons, not_or] at h
    rw [keeps_cons] at hkeeps
    obtain ⟨hfold, hothers⟩ := hkeeps
    have hnext : (quotation mark).next c = quotation mark := if_neg (Ne.symm h.1)
    rw [hnext] at hothers
    refine List.forall_mem_cons.2 ⟨?_, ih h.2 hothers⟩
    refine ⟨?_, ?_, ?_⟩
    all_goals
      rintro rfl
      simp [fold, Ne.symm h.1] at hfold

/-- The text inside a tag ends inside it, outside quotations, and the quotations in it are kept only if
they have no line breaks and no tabs. -/
theorem tag_keeps {inner : List Char} (h : IsTagText inner) :
    tag.after inner = tag ∧ (tag.Keeps inner → QuotesUnbroken none inner) := by
  -- A character outside quotations and a whole quotation both lead back into the tag.
  induction h with
  | nil => exact ⟨rfl, fun _ => trivial⟩
  | @plain c rest hquote hend _ ih =>
    have hmark : ¬ (c = '"' ∨ c = '\'') := by simpa [QuoteMarks.isQuote] using hquote
    have hnext : tag.next c = tag := by rw [Place.next, if_neg hend, if_neg hmark]
    rw [after, hnext, keeps_cons, hnext, QuotesUnbroken, hquote]
    exact ⟨ih.1, fun hkeeps => ih.2 hkeeps.2⟩
  | @quotation mark body rest hquote hbody _ ih =>
    have hmark : mark = '"' ∨ mark = '\'' := by simpa [QuoteMarks.isQuote] using hquote
    have hopen : tag.next mark = quotation mark := by
      rw [Place.next, if_neg (by rintro rfl; cases hquote), if_pos hmark]
    have hclose : (quotation mark).next mark = tag := if_pos rfl
    refine ⟨?_, ?_⟩
    · rw [after, hopen, after_append, after_quotation hbody, after, hclose]
      exact ih.1
    · intro hkeeps
      rw [keeps_cons, hopen, keeps_append, after_quotation hbody, keeps_cons, hclose] at hkeeps
      obtain ⟨-, hinside, -, hbehind⟩ := hkeeps
      rw [QuotesUnbroken, if_pos hquote]
      exact .of_quotation (isUnbroken_of_keeps hbody hinside) hbody (ih.2 hbehind)

end Place

end Source

/-! ## Tags -/

open Source

/-- In text that folding leaves as it is, no quotation in a tag has line breaks or tabs. -/
theorem Markup.quotesUnbroken_of_keeps {markup : Markup} (hfound : ∀ tag ∈ markup.tags, tag.IsFound)
    (h : Place.text.Keeps markup.text) : ∀ tag ∈ markup.tags, QuotesUnbroken none tag.inner := by
  obtain ⟨tags, ending⟩ := markup
  induction tags with
  | nil => exact nofun
  | cons tag tags ih =>
    obtain ⟨⟨hlead, hinner⟩, hothers⟩ := List.forall_mem_cons.1 hfound
    obtain ⟨hend, hquotes⟩ := Place.tag_keeps hinner
    have htext : (Markup.mk (tag :: tags) ending).text =
        tag.lead ++ '<' :: (tag.inner ++ '>' :: (Markup.mk tags ending).text) := by
      simp [Markup.text, Tag.text]
    have hopen : Place.text.next '<' = .tag := rfl
    -- Behind a tag the place is the same as at the start, which is what keeps the two in step.
    have hclose : Place.tag.next '>' = .text := rfl
    rw [htext, Place.keeps_append, Place.after_text hlead, Place.keeps_cons, hopen,
      Place.keeps_append, hend, Place.keeps_cons, hclose] at h
    obtain ⟨-, -, hkept, -, hbehind⟩ := h
    exact List.forall_mem_cons.2 ⟨hquotes hkept, ih hothers hbehind⟩

namespace Markup

variable {markup rest : Markup} {element : Element}

/-- An element is what the name of the first tag says, with the attribute text of that tag if it is
known. -/
theorem head?_tags_of_take? (h : take? markup = .ok (some (element, rest))) :
    ∃ tag ∈ markup.tags.head?, element.kind = .ofName (tagName tag.inner) ∧
      (element.kind ≠ .unrecognized →
        element.attributes = (attributeText (tagName tag.inner) tag.inner).1) := by
  obtain ⟨tags, ending⟩ := markup
  cases tags with
  | nil => cases ending <;> cases h
  | cons tag tags =>
    refine ⟨tag, rfl, ?_⟩
    simp only [take?] at h
    split at h
    · next hkind =>
      cases h
      exact ⟨rfl, fun hknown => absurd hkind hknown⟩
    · split at h
      · cases h
        exact ⟨rfl, fun _ => rfl⟩
      · cases hfound : enclosed (tagName tag.inner) ⟨tags, ending⟩ with
        | error flaw =>
          rw [hfound] at h
          cases h
        | ok found =>
          rw [hfound] at h
          cases h
          exact ⟨rfl, fun _ => rfl⟩

theorem attributes_of_take? (h : take? markup = .ok (some (element, rest))) :
    ∃ tag ∈ markup.tags, element.kind = .ofName (tagName tag.inner) ∧
      (element.kind ≠ .unrecognized →
        element.attributes = (attributeText (tagName tag.inner) tag.inner).1) := by
  obtain ⟨tag, hfirst, hmeans⟩ := head?_tags_of_take? h
  exact ⟨tag, List.mem_of_head? hfirst, hmeans⟩

theorem tags_of_take? (h : take? markup = .ok (some (element, rest))) :
    element.content.tags ⊆ markup.tags ∧ rest.tags ⊆ markup.tags := by
  obtain ⟨first, tags, htags, -, hpieces⟩ := exists_tag_of_take? h
  rw [htags]
  rcases hpieces with ⟨hcontent, hrest⟩ | ⟨close, hsplit, -⟩
  · rw [hcontent, hrest]
    exact ⟨List.nil_subset _, List.subset_cons_self _ _⟩
  · rw [hsplit]
    refine ⟨?_, ?_⟩
    · intro tag htag
      exact List.mem_cons_of_mem _ (List.mem_append_left _ htag)
    · intro tag htag
      exact List.mem_cons_of_mem _ (List.mem_append_right _ (List.mem_cons_of_mem _ htag))

end Markup

variable {α σ : Type} [Scalar α]

omit [Scalar α] in
theorem Route.mem_taken_append {first second : Route α} {station : Station α}
    (h : station ∈ (first.append second).taken) : station ∈ first.taken ∨ station ∈ second.taken := by
  cases hstop : first.stop with
  | some stop =>
    rw [append_of_stop hstop] at h
    exact .inl h
  | none =>
    rw [taken_append hstop] at h
    exact List.mem_append.1 h

/-- Every element on a route is what one of the tags says. -/
theorem Route.exists_tag_of_mem_taken (sheet : Sheet α) (around : Surroundings α) (markup : Markup) :
    ∀ station ∈ (ofMarkup sheet around markup).taken, ∃ tag ∈ markup.tags,
      station.kind = .ofName (tagName tag.inner) ∧
        (station.kind ≠ .unrecognized →
          station.attributes = (Markup.attributeText (tagName tag.inner) tag.inner).1) := by
  fun_induction ofMarkup sheet around markup with
  | case1 around markup flaw _ =>
    intro station hstation
    cases hstation
  | case2 around markup _ =>
    intro station hstation
    cases hstation
  | case3 around markup element rest htake _ station fault _ =>
    exact List.forall_mem_singleton.2 (Markup.attributes_of_take? htake)
  | case4 around markup element rest htake _ station _ ih =>
    rw [taken_push]
    refine List.forall_mem_cons.2 ⟨Markup.attributes_of_take? htake, ?_⟩
    intro other hother
    obtain ⟨tag, htag, hmeans⟩ := ih other hother
    exact ⟨tag, (Markup.tags_of_take? htake).2 htag, hmeans⟩
  | case5 around markup element rest htake _ station inner _ ihinner ihrest =>
    rw [taken_push]
    refine List.forall_mem_cons.2 ⟨Markup.attributes_of_take? htake, ?_⟩
    intro other hother
    rcases mem_taken_append hother with hother | hother
    · obtain ⟨tag, htag, hmeans⟩ := ihinner other hother
      exact ⟨tag, (Markup.tags_of_take? htake).1 htag, hmeans⟩
    · obtain ⟨tag, htag, hmeans⟩ := ihrest other hother
      exact ⟨tag, (Markup.tags_of_take? htake).2 htag, hmeans⟩

/-- Wherever line breaks and tabs stand in a source, no value that is looked up in the attributes of an
element has one, for all elements that a walk through the prepared text takes. -/
theorem isUnbroken_of_mem_visits (sheet : Sheet α) (sink : Sink α σ) (receiver : σ)
    (source : List Char) {visit : Visit}
    (hvisit : visit ∈ (walkThrough sheet sink receiver (Source.prepare source)).2.visits)
    (hkind : visit.kind ≠ .unrecognized) {name value : List Char}
    (hname : ∀ c ∈ name, QuoteMarks.isQuote c = false)
    (hvalue : attribute? name visit.attributes = some value) : IsUnbroken value := by
  obtain ⟨-, hadvanced⟩ := walkThrough_follows sheet sink receiver (Source.prepare source)
  have hmem : visit ∈ (Route.ofText sheet (Source.prepare source)).taken.map Station.visit := by
    have hvisits := hadvanced.visits
    rw [← Array.mem_toList_iff, hvisits] at hvisit
    exact hvisit
  obtain ⟨station, hstation, rfl⟩ := List.mem_map.1 hmem
  have hmarked : Place.text.Marked := by
    intro mark hmark
    cases hmark
  have hkept : Place.text.Keeps (Markup.scan (Source.prepare source)).text := by
    rw [Markup.text_scan]
    exact Place.keeps_foldBreaks hmarked _
  have htags := Markup.quotesUnbroken_of_keeps (Markup.isScanned_scan _).tags hkept
  obtain ⟨tag, htag, hofName, hattributes⟩ :=
    Route.exists_tag_of_mem_taken sheet .bare _ station hstation
  have hquotes : QuotesUnbroken none station.attributes := by
    rw [hattributes hkind]
    exact Markup.quotesUnbroken_attributeText (hofName ▸ hkind) (htags tag htag)
  exact isUnbroken_of_attribute? hname hquotes hvalue

/-- Between the tags stands a mark that opens no quotation, a declaration holds a stray one, and a
comment is taken out in front of the line break. -/
theorem isUnbroken_of_mem_visits_points :
    let sheet : Sheet Float := ⟨⟨10, 10⟩, ⟨2, false⟩⟩
    let source := ("<?xml a=\"\n'\"?>it's\n<svg\n>\"<polyline\tid='<\n>' points\n=\n'0,0<!-- \" -->" ++
      "\n1\r\n\t1'/></svg>").toList
    let visit : Visit := ⟨.shape .polyline, "id='< >' points\n=\n'0,0 1   1'".toList, 1⟩
    visit ∈ (walkThrough sheet .counting (0, 0) (Source.prepare source)).2.visits ∧
      attribute? "points".toList visit.attributes = some "0,0 1   1".toList ∧
      IsUnbroken "0,0 1   1".toList := by
  intro sheet source visit
  have hvisit : visit ∈ (walkThrough sheet .counting (0, 0) (Source.prepare source)).2.visits := by
    decide +kernel
  have hvalue : attribute? "points".toList visit.attributes = some "0,0 1   1".toList := by
    decide +kernel
  have hname : ∀ c ∈ "points".toList, QuoteMarks.isQuote c = false := by simp [QuoteMarks.isQuote]
  exact ⟨hvisit, hvalue,
    isUnbroken_of_mem_visits sheet .counting (0, 0) source hvisit nofun hname hvalue⟩

end PenPlot
