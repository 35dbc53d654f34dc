import PenPlot.Proofs.Balance
import PenPlot.Proofs.Taking

/-!
# No text is read twice

The first element of a text cuts the text: behind the `<` of its tag come the text that it holds and the
text that remains behind it, one after the other with tags between them. Both are scanned to just the
tags that the element was taken with, so a walk through a document reads texts that become shorter and
do not overlap. It comes to an end for every text, and as each element has a `<` of its own, a walk
counts no more elements than there are `<` in the document.
-/

namespace PenPlot

open Text

/-! ## Tags that are found -/

/-- Text inside a tag, where the text may begin inside a quotation with that mark. -/
def IsTagTextFrom : (within : Option Char) → List Char → Prop
  | none, text => IsTagText text
  | some mark, text => ∃ body rest, text = body ++ mark :: rest ∧ mark ∉ body ∧ IsTagText rest

/-- What stands before the `>` that is found is text inside a tag. -/
theorem isTagTextFrom_of_seekFrom {within : Option (Char × List Char)}
    {text before after : List Char} (h : seekFrom ['>'] within text = .found before after) :
    IsTagTextFrom (within.map Prod.fst) before := by
  induction text generalizing within before with
  | nil => cases within <;> simp [seekFrom] at h
  | cons c text ih =>
    rcases within with _ | ⟨mark, quotation⟩
    · simp only [seekFrom] at h
      split at h
      · next hquote =>
        obtain ⟨found, hfound, rfl⟩ := after_eq_found h
        obtain ⟨body, rest, rfl, hbody, hrest⟩ := ih hfound
        exact .quotation hquote hbody hrest
      · next hquote =>
        split at h
        · cases h
          exact .nil
        · next hfront =>
          obtain ⟨found, hfound, rfl⟩ := after_eq_found h
          have hend : c ≠ '>' := by
            rintro rfl
            exact hfront rfl
          exact .plain (by simpa using hquote) hend (ih hfound)
    · simp only [seekFrom] at h
      obtain ⟨found, hfound, rfl⟩ := after_eq_found h
      have hfurther := ih hfound
      by_cases hc : c = mark
      · subst hc
        rw [if_pos rfl] at hfurther
        exact ⟨[], found, rfl, List.not_mem_nil, hfurther⟩
      · rw [if_neg hc] at hfurther
        obtain ⟨body, rest, rfl, hbody, hrest⟩ := hfurther
        refine ⟨c :: body, rest, rfl, ?_, hrest⟩
        rw [List.mem_cons, not_or]
        exact ⟨Ne.symm hc, hbody⟩

/-- The tag is one that is found wherever it stands: none begins in the text before it, and it does not
end earlier. -/
structure Tag.IsFound (tag : Tag) : Prop where
  /-- No tag begins in the text before it. -/
  lead : '<' ∉ tag.lead
  /-- It does not end earlier. -/
  inner : IsTagText tag.inner

theorem Tag.IsFound.scan_text {tag : Tag} (h : tag.IsFound) (more : List Char) :
    Markup.scan (tag.text ++ more) = (Markup.scan more).push tag := by
  have htag := Markup.scan_tag h.lead h.inner more
  rw [← htag, Tag.text]
  simp

namespace Markup

/-- The markup is what its text is scanned to. -/
structure IsScanned (markup : Markup) : Prop where
  /-- Its tags are found. -/
  tags : ∀ tag ∈ markup.tags, tag.IsFound
  /-- Behind them no tag is found. -/
  ending : scan markup.ending.text = ⟨[], markup.ending⟩

theorem isScanned_plain {lead : List Char} (h : '<' ∉ lead) : scan lead = ⟨[], .plain lead⟩ := by
  have hscan := scan_ledBy h []
  rw [List.append_nil, scan_nil] at hscan
  rw [hscan]
  simp [empty, ledBy]

theorem IsScanned.scan_text {markup : Markup} (h : markup.IsScanned) :
    scan markup.text = markup := by
  obtain ⟨tags, ending⟩ := markup
  obtain ⟨htags, hending⟩ := h
  induction tags with
  | nil => exact hending
  | cons tag tags ih =>
    have hrest := ih (fun other hother => htags other (List.mem_cons_of_mem _ hother)) hending
    have hfirst := (htags tag (List.mem_cons_self ..)).scan_text (Markup.mk tags ending).text
    have htext : (Markup.mk (tag :: tags) ending).text = tag.text ++ (Markup.mk tags ending).text := by
      simp [Markup.text]
    rw [htext, hfirst, hrest]
    rfl

/-- What a text is scanned to is scanned to itself, piece by piece. -/
theorem isScanned_scan (text : List Char) : (scan text).IsScanned := by
  fun_induction scan text with
  | case1 text hnone =>
    have hlead : '<' ∉ text := by
      intro hmem
      simpa using List.dropWhile_eq_nil_iff.1 hnone '<' hmem
    exact ⟨by simp, isScanned_plain hlead⟩
  | case2 text bracket body hbody inner behind hseek _ ih =>
    refine ⟨?_, ih.ending⟩
    intro tag htag
    rcases List.mem_cons.1 htag with rfl | htag
    · have hlead : '<' ∉ text.takeWhile (· != '<') := by
        intro hmem
        simpa using List.mem_takeWhile_imp hmem
      have hinner : IsTagTextFrom none inner := isTagTextFrom_of_seekFrom hseek
      exact ⟨hlead, hinner⟩
    · exact ih.tags tag htag
  | case3 text bracket body hbody hseek =>
    refine ⟨by simp, ?_⟩
    show scan text = _
    rw [scan_eq, hbody]
    simp only [hseek]
  | case4 text bracket body hbody quotation hseek =>
    refine ⟨by simp, ?_⟩
    show scan text = _
    rw [scan_eq, hbody]
    simp only [hseek]

/-! ## Elements of scanned markup -/

variable {markup rest : Markup} {element : Element}

/-- What an element is taken from: its tag, with what it holds and the close tag behind it unless it
holds nothing, and then what remains. -/
theorem exists_tag_of_take? (h : take? markup = .ok (some (element, rest))) :
    ∃ tag tags, markup.tags = tag :: tags ∧ rest.ending = markup.ending ∧
      ((element.content = empty ∧ rest.tags = tags) ∨
        ∃ close, tags = element.content.tags ++ close :: rest.tags ∧
          element.content.ending = .plain close.lead) := by
  obtain ⟨tags, ending⟩ := markup
  have hending := ending_take? h
  cases tags with
  | nil => cases ending <;> cases h
  | cons tag tags =>
    refine ⟨tag, tags, rfl, hending, ?_⟩
    simp only [take?] at h
    split at h
    · cases h
      exact .inl ⟨rfl, rfl⟩
    · split at h
      · cases h
        exact .inl ⟨rfl, rfl⟩
      · cases hfound : enclosed (tagName tag.inner) ⟨tags, ending⟩ with
        | error flaw =>
          rw [hfound] at h
          cases h
        | ok found =>
          rw [hfound] at h
          cases h
          unfold enclosed at hfound
          split at hfound
          · next inside close behind hsplit =>
            cases hfound
            exact .inr ⟨close, splitAtClose_eq_some hsplit, rfl⟩
          · split at hfound <;> cases hfound

/-- What an element holds and what remains behind it are scanned markup again. -/
theorem IsScanned.take? (hscanned : markup.IsScanned)
    (h : markup.take? = .ok (some (element, rest))) :
    element.content.IsScanned ∧ rest.IsScanned := by
  obtain ⟨tag, tags, htags, hending, hpieces⟩ := exists_tag_of_take? h
  have hfound : ∀ other ∈ tags, other.IsFound := by
    intro other hother
    refine hscanned.tags other ?_
    rw [htags]
    exact List.mem_cons_of_mem _ hother
  have hlast : scan rest.ending.text = ⟨[], rest.ending⟩ := by
    rw [hending]
    exact hscanned.ending
  rcases hpieces with ⟨hcontent, hrest⟩ | ⟨close, hsplit, hcontent⟩
  · refine ⟨?_, ?_, hlast⟩
    · rw [hcontent, ← scan_nil]
      exact isScanned_scan []
    · rw [hrest]
      exact hfound
  · rw [hsplit] at hfound
    refine ⟨⟨?_, ?_⟩, ?_, hlast⟩
    · intro other hother
      exact hfound other (List.mem_append_left _ hother)
    · rw [hcontent]
      exact isScanned_plain (hfound close (by simp)).lead
    · intro other hother
      exact hfound other (by simp [hother])

/-- Behind the `<` of its tag the text holds what the element holds and then what remains. -/
theorem text_of_take? (hscanned : markup.IsScanned)
    (h : markup.take? = .ok (some (element, rest))) :
    ∃ lead opening closing, '<' ∉ lead ∧
      markup.text = lead ++ '<' :: (opening ++ (element.content.text ++ (closing ++ rest.text))) := by
  obtain ⟨tag, tags, htags, hending, hpieces⟩ := exists_tag_of_take? h
  have hfound := hscanned.tags tag (by simp [htags])
  have htext : markup.text = tag.lead ++ '<' :: (tag.inner ++ ['>'] ++
      (tags.flatMap Tag.text ++ rest.ending.text)) := by
    rw [Markup.text, htags, hending, List.flatMap_cons, Tag.text]
    simp
  rw [htext]
  rcases hpieces with ⟨hcontent, hrest⟩ | ⟨close, hsplit, hcontent⟩
  · refine ⟨tag.lead, tag.inner ++ ['>'], [], hfound.lead, ?_⟩
    rw [← hrest, hcontent]
    rfl
  · refine ⟨tag.lead, tag.inner ++ ['>'], '<' :: close.inner ++ ['>'], hfound.lead, ?_⟩
    rw [hsplit, Markup.text, hcontent, Markup.text, Ending.text, List.flatMap_append,
      List.flatMap_cons, Tag.text]
    simp

end Markup

/-! ## Elements of texts -/

namespace Taken

deriving instance DecidableEq for Taken

/-- The first element of a text, with the texts of what it holds and of what remains behind it. -/
def first? (text : List Char) : Except MarkupFlaw (Option Taken) :=
  (Markup.scan text).take?.map fun found? => found?.map fun (element, rest) =>
    ⟨element.kind, element.attributes, element.content.text, rest.text⟩

/-- The element cuts the text behind the `<` of its tag. -/
structure Cuts (taken : Taken) (text : List Char) : Prop where
  /-- What it holds and what remains stand behind the `<`, and do not overlap. -/
  pieces : ∃ lead opening closing, '<' ∉ lead ∧
    text = lead ++ '<' :: (opening ++ (taken.content ++ (closing ++ taken.rest)))
  /-- So together they are shorter than the text. -/
  shorter : byteLength taken.content + byteLength taken.rest < byteLength text
  /-- Their tags are those that the element was taken with. -/
  scanned : (Markup.scan text).take? = .ok (some taken.scanned)

theorem cuts_of_first? {text : List Char} {taken : Taken} (h : first? text = .ok (some taken)) :
    taken.Cuts text := by
  cases htake : (Markup.scan text).take? with
  | error flaw => simp [first?, htake, Except.map] at h
  | ok found? =>
    cases found? with
    | none => simp [first?, htake, Except.map] at h
    | some found =>
      obtain ⟨element, rest⟩ := found
      simp only [first?, htake, Except.map, Option.map_some, Except.ok.injEq, Option.some.injEq] at h
      subst h
      have hscanned := Markup.isScanned_scan text
      obtain ⟨hcontent, hrest⟩ := hscanned.take? htake
      obtain ⟨lead, opening, closing, hlead, htext⟩ := Markup.text_of_take? hscanned htake
      rw [Markup.text_scan] at htext
      refine ⟨⟨lead, opening, closing, hlead, htext⟩, ?_, ?_⟩
      · have hlength := congrArg byteLength htext
        have hbracket : '<'.utf8Size = 1 := rfl
        simp only [byteLength_append, byteLength_cons] at hlength
        show byteLength element.content.text + byteLength rest.text < byteLength text
        omega
      · rw [htake]
        simp only [scanned, hcontent.scan_text, hrest.scan_text]

end Taken

/-- What is read next once the first element of a text is taken: what the element holds, or what remains
behind it. -/
inductive IsReadNext : List Char → List Char → Prop where
  /-- What the element holds. -/
  | content {text : List Char} {taken : Taken} (h : Taken.first? text = .ok (some taken)) :
    IsReadNext taken.content text
  /-- What remains behind it. -/
  | rest {text : List Char} {taken : Taken} (h : Taken.first? text = .ok (some taken)) :
    IsReadNext taken.rest text

theorem IsReadNext.byteLength_lt {piece text : List Char} (h : IsReadNext piece text) :
    byteLength piece < byteLength text := by
  cases h with
  | content h =>
    have hshorter := (Taken.cuts_of_first? h).shorter
    omega
  | rest h =>
    have hshorter := (Taken.cuts_of_first? h).shorter
    omega

theorem wellFounded_isReadNext : WellFounded IsReadNext :=
  Subrelation.wf IsReadNext.byteLength_lt (measure byteLength).wf

variable {α σ : Type} [Scalar α]

namespace Walking

/-- Reads a text by its first element, where `readNext` reads what is read next in a scope: stops at a
flaw, and otherwise visits the element, reads what it holds if that is to be visited, and then reads
what remains. -/
def visitFirst (sheet : Sheet α) (sink : Sink α σ) (scope : Scope α)
    (readNext : Scope α → List Char → Walking α σ Unit) (text : List Char) : Walking α σ Unit :=
  match Taken.first? text with
  | .error flaw => throw (.markup flaw)
  | .ok none => pure ()
  | .ok (some taken) => do
    match ← visit sheet sink scope taken.kind taken.attributes with
    | some inner => readNext inner taken.content
    | none => pure ()
    readNext scope taken.rest

/-- A walk through the tags of a text reads the text element by element. -/
theorem visitAll_scan (sheet : Sheet α) (sink : Sink α σ) (scope : Scope α) (text : List Char) :
    visitAll sheet sink scope (.scan text) =
      visitFirst sheet sink scope (fun inner piece => visitAll sheet sink inner (.scan piece))
        text := by
  unfold visitFirst
  cases htake : (Markup.scan text).take? with
  | error flaw =>
    rw [visitAll_of_error htake, Taken.first?, htake]
    rfl
  | ok found? =>
    cases found? with
    | none =>
      rw [visitAll_of_none htake, Taken.first?, htake]
      rfl
    | some found =>
      obtain ⟨element, rest⟩ := found
      obtain ⟨hcontent, hrest⟩ := (Markup.isScanned_scan text).take? htake
      have hvisited := visitAll_of_some htake sheet sink scope
      rw [← hcontent.scan_text, ← hrest.scan_text] at hvisited
      rw [Taken.first?, htake]
      exact hvisited

end Walking

/-! ## How many elements are taken -/

/-- A route takes no more elements than there are tags. -/
theorem Route.length_taken_le (sheet : Sheet α) (around : Surroundings α) (markup : Markup) :
    (ofMarkup sheet around markup).taken.length ≤ markup.tags.length := by
  fun_induction ofMarkup sheet around markup with
  | case1 around markup flaw h => exact Nat.zero_le _
  | case2 around markup h => exact Nat.zero_le _
  | case3 around markup element rest h _ station fault hfault =>
    have hfewer := Markup.length_take?_lt h
    show 1 ≤ markup.tags.length
    omega
  | case4 around markup element rest h _ station hok ih =>
    have hfewer := Markup.length_take?_lt h
    rw [taken_push, List.length_cons]
    omega
  | case5 around markup element rest h _ station inner hok ihinner ihrest =>
    have hfewer := Markup.length_take?_lt h
    rw [taken_push, List.length_cons]
    cases hstop : (ofMarkup sheet inner element.content).stop with
    | some stop =>
      rw [append_of_stop hstop]
      omega
    | none =>
      rw [taken_append hstop, List.length_append]
      omega

/-- Every tag has a `<` of its own. -/
theorem Markup.length_tags_le (markup : Markup) : markup.tags.length ≤ markup.text.count '<' := by
  obtain ⟨tags, ending⟩ := markup
  induction tags with
  | nil => exact Nat.zero_le _
  | cons tag tags ih =>
    have htext : (Markup.mk (tag :: tags) ending).text = tag.text ++ (Markup.mk tags ending).text := by
      simp [Markup.text]
    have htag : 1 ≤ tag.text.count '<' := by
      rw [Tag.text]
      simp
      omega
    rw [htext, List.count_append, List.length_cons]
    replace ih : tags.length ≤ (Markup.mk tags ending).text.count '<' := ih
    omega

omit [Scalar α] in
theorem Station.elements_foldl_count (stations : List (Station α)) (tally : Tally) :
    (stations.foldl count tally).elements = tally.elements + stations.length := by
  induction stations generalizing tally with
  | nil => rfl
  | cons station stations ih =>
    rw [List.foldl_cons, ih, elements_count, List.length_cons]
    omega

/-- No text is read twice, whatever the document. The first element of a text cuts it into what the
element holds and what remains, which do not overlap. A walk reads these two next and nothing else, and
no text is followed by shorter and shorter ones without end, so every walk ends. At the end of the
document, or at the fault at which it stops, it has counted no more elements than there are `<`. -/
theorem walkThrough_reads_once (sheet : Sheet α) (sink : Sink α σ) (receiver : σ)
    (document : List Char) :
    (∀ text taken, Taken.first? text = .ok (some taken) → taken.Cuts text) ∧
      WellFounded IsReadNext ∧
      (∀ scope text, Walking.visitAll sheet sink scope (.scan text) =
        Walking.visitFirst sheet sink scope
          (fun inner piece => Walking.visitAll sheet sink inner (.scan piece)) text) ∧
      (walkThrough sheet sink receiver document).2.total.elements ≤ document.count '<' := by
  refine ⟨fun _ _ => Taken.cuts_of_first?, wellFounded_isReadNext, Walking.visitAll_scan sheet sink, ?_⟩
  obtain ⟨-, hadvanced⟩ := walkThrough_follows sheet sink receiver document
  have hcounted : (walkThrough sheet sink receiver document).2.total.elements =
      (Route.ofText sheet document).taken.length := by
    show (walkThrough sheet sink receiver document).2.tally.elements = _
    rw [hadvanced.tally, Station.elements_foldl_count]
    exact Nat.zero_add _
  have htaken := Route.length_taken_le sheet .bare (.scan document)
  have htags := Markup.length_tags_le (.scan document)
  rw [Markup.text_scan] at htags
  calc (walkThrough sheet sink receiver document).2.total.elements
      = (Route.ofText sheet document).taken.length := hcounted
    _ ≤ (Markup.scan document).tags.length := htaken
    _ ≤ document.count '<' := htags

/-- The `<` in the quoted value begins no tag, and the group holds a group of its own. The walk stops at
the third group, whose close tag is missing, when it has counted three elements. -/
theorem walkThrough_reads_once_nested :
    let sheet : Sheet Float := ⟨⟨10, 10⟩, ⟨2, false⟩⟩
    let text := "a<g id='<'><g/><b></g>tail<g><rect/>".toList
    let taken : Taken := ⟨.container .group, "id='<'".toList, "<g/><b>".toList, "tail<g><rect/>".toList⟩
    let counted := (walkThrough sheet .counting (0, 0) text).2.total.elements
    Taken.first? text = .ok (some taken) ∧ taken.Cuts text ∧ counted = 3 ∧
      counted ≤ text.count '<' := by
  intro sheet text taken counted
  obtain ⟨hcuts, -, -, hcounted⟩ := walkThrough_reads_once sheet .counting (0, 0) text
  have hfirst : Taken.first? text = .ok (some taken) := by decide +kernel
  exact ⟨hfirst, hcuts text taken hfirst, by decide +kernel, hcounted⟩

end PenPlot
