import PenPlot.Proofs.Folding
import PenPlot.Proofs.Pieces
import PenPlot.Proofs.Seeking

/-!
# Elements cut out by position

The first element of a text is cut out of it at the positions of the brackets, of the end of the tag name
and of the matching close tag. All of these are between characters, and each piece begins before it ends,
so the pieces are those of the scanned text.
-/

namespace PenPlot

open Text

namespace ByPosition

/-- The name that a tag begins with. -/
def tagName (tag : List Char) : Option (List Char) := do
  let stop := (position? (fun c => isBlank c || c == '/' || c == '>') tag).getD (byteLength tag)
  if stop = 0 ∧ tag.head? = some '/' then
    let behind ← from? 1 tag
    let length := ((position? (fun c => isBlank c || c == '>') behind).map (· + 1)).getD
      (byteLength tag)
    upTo? length tag
  else upTo? stop tag

/-- A count that is lowered, which must not be zero. -/
def lowered? : Nat → Option Nat
  | 0 => none
  | n + 1 => some n

/-- The positions of the close tag that matches and of what stands behind it, looked for from byte `i`
on, where `depth` elements of the name are open besides the one that is to be closed. -/
def closePositions (name body : List Char) (depth i : Nat) :
    Option (Except MarkupFlaw (Nat × Nat)) := do
  match position? (· == '<') (← from? i body) with
  | none => return .error (.neverClosed name)
  | some offset =>
    let opening := i + offset
    match _h : find ['>'] body (opening + 1) with
    | none => none
    | some (.error flaw) => return .error flaw
    | some (.ok none) => return .error (.missingTerminator (← from? opening body))
    | some (.ok (some closing)) =>
      match ← between? (opening + 1) closing body with
      | '/' :: tag =>
        if (← tagName tag) = name then
          if depth = 0 then return .ok (opening, closing + 1)
          else closePositions name body (← lowered? depth) (closing + 1)
        else closePositions name body depth (closing + 1)
      | tag =>
        if (← tagName tag) = name ∧ ¬ endsWithSlash tag then
          closePositions name body (depth + 1) (closing + 1)
        else closePositions name body depth (closing + 1)
termination_by byteLength body - i
decreasing_by
  all_goals
    have hbounds := bounds_of_find _h
    omega

/-- What stands at the front of a text. -/
structure Next where
  /-- What it is taken as, unless the text ends. -/
  kind : Option ElementKind
  /-- Its attribute text. -/
  attributes : List Char
  /-- The text between its opening and its close tag. -/
  content : List Char
  /-- The text behind it. -/
  rest : List Char

/-- What is taken from a text next. -/
def take (text : List Char) : Option (Except MarkupFlaw Next) := do
  match position? (· == '<') text with
  | none => return .ok ⟨none, [], [], []⟩
  | some opening =>
    let tag ← from? (opening + 1) text
    match ← find ['>'] tag 0 with
    | .error flaw => return .error flaw
    | .ok none => return .error (.missingTerminator (← from? opening text))
    | .ok (some closing) =>
      let behind ← from? (closing + 1) tag
      let name ← tagName tag
      let kind := ElementKind.ofName name
      let inner ← between? (byteLength name) closing tag
      if kind = .unrecognized then return .ok ⟨some kind, inner, [], behind⟩
      else
        let (attributes, selfClosing) :=
          if (trim inner).getLast? = some '/' then (trimEnd (trim inner).dropLast, true)
          else (trim inner, false)
        if selfClosing then return .ok ⟨some kind, attributes, [], behind⟩
        else
          match ← closePositions name behind 0 0 with
          | .error flaw => return .error flaw
          | .ok (stop, start) =>
            return .ok ⟨some kind, attributes, ← upTo? stop behind, ← from? start behind⟩

/-- The first element of a text, if there is one. The end of the text is dealt with first, so there is
nothing to be done about it where the kinds are told apart. -/
def first (text : List Char) : Option (Except MarkupFlaw (Option Taken)) := do
  match ← take text with
  | .error flaw => return .error flaw
  | .ok next =>
    if next.kind = none then return .ok none
    else
      match next.kind with
      | none => none
      | some kind => return .ok (some ⟨kind, next.attributes, next.content, next.rest⟩)

end ByPosition

/-! ## Names of tags -/

namespace ByPosition

theorem tagName_eq (tag : List Char) : tagName tag = some (PenPlot.tagName tag) := by
  by_cases hclose : tag.head? = some '/'
  · obtain ⟨behind, rfl⟩ := List.head?_eq_some_iff.1 hclose
    have hlength : ((position? (fun c => isBlank c || c == '>') behind).map (· + 1)).getD
        (byteLength ('/' :: behind)) =
          byteLength (PenPlot.tagName ('/' :: behind)) := by
      have hbehind := position?_getD (fun c => isBlank c || c == '>') behind
      rw [PenPlot.tagName, byteLength_cons, byteLength_cons, ← hbehind]
      cases position? (fun c => isBlank c || c == '>') behind with
      | none => rfl
      | some n => exact Nat.add_comm n 1
    have hbehind : from? 1 ('/' :: behind) = some behind := from?_succ (by decide) [] behind
    have hname := upTo?_append (PenPlot.tagName ('/' :: behind))
      (behind.dropWhile fun c => !(isBlank c || c == '>'))
    rw [PenPlot.tagName, List.cons_append, List.takeWhile_append_dropWhile] at hname
    rw [tagName, if_pos ⟨rfl, hclose⟩, hbehind, some_bind, hlength]
    exact hname
  · rw [tagName, if_neg fun h => hclose h.2, position?_getD, upTo?_takeWhile,
      tagName_of_ne hclose]

end ByPosition

/-! ## Matching close tags -/

namespace Markup

/-- Positions behind a part of the text. -/
def shift (offset : Nat) (positions : Nat × Nat) : Nat × Nat :=
  (offset + positions.1, offset + positions.2)

/-- The positions of the close tag that matches and of what stands behind it, where `depth` elements of
the name are open besides the one that is to be closed. -/
def closeFrom (name : List Char) (depth : Nat) (markup : Markup) : Except MarkupFlaw (Nat × Nat) :=
  match splitAtClose name depth markup.tags with
  | some (inside, close, _) =>
    let position := byteLength (inside.flatMap Tag.text ++ close.lead)
    .ok (position, position + byteLength ('<' :: close.inner ++ ['>']))
  | none =>
    match markup.ending with
    | .broken _ flaw => .error flaw
    | .plain _ => .error (.neverClosed name)

theorem closePositions_eq (name : List Char) (markup : Markup) :
    markup.closePositions name = markup.closeFrom name 0 := by
  rw [closePositions, closeFrom, enclosed]
  cases splitAtClose name 0 markup.tags with
  | none => cases markup.ending <;> rfl
  | some pieces => rfl

section

variable {name : List Char} {tag : Tag}

theorem shift_shift (first second : Nat) (positions : Nat × Nat) :
    shift first (shift second positions) = shift (first + second) positions := by
  simp only [shift, Nat.add_assoc]

/-- A close tag that is found behind a tag is found behind its text. -/
theorem closeFrom_push {depth further : Nat} {markup : Markup}
    (h : splitAtClose name depth (tag :: markup.tags) =
      (splitAtClose name further markup.tags).map (Prod.map (tag :: ·) id)) :
    (markup.push tag).closeFrom name depth =
      (markup.closeFrom name further).map (shift (byteLength tag.text)) := by
  rw [closeFrom, closeFrom, push, h]
  cases splitAtClose name further markup.tags with
  | none => cases markup.ending <;> rfl
  | some pieces =>
    simp only [Option.map_some, Prod.map, Except.map, shift, List.flatMap_cons, byteLength_append,
      Nat.add_assoc, id_eq]

theorem closeFrom_push_of_closes (h : tag.role name = .closes) (markup : Markup) :
    (markup.push tag).closeFrom name 0 =
      .ok (byteLength tag.lead, byteLength tag.lead + byteLength ('<' :: tag.inner ++ ['>'])) := by
  rw [closeFrom, push, splitAtClose_zero_of_closes h]
  rfl

end

end Markup

namespace ByPosition

open Markup

theorem exists_of_seek {body inner behind : List Char} (h : seek ['>'] body = .found inner behind) :
    ∃ more, behind = '>' :: more ∧ body = inner ++ '>' :: more := by
  obtain ⟨hbody, hne, hfront⟩ := seek_eq_found h
  cases behind with
  | nil => exact absurd rfl hne
  | cons c more =>
    obtain rfl : '>' = c := by simpa [List.isPrefixOf] using hfront
    exact ⟨more, rfl, hbody⟩

theorem takeWhile_bracket {text body : List Char} {bracket : Char}
    (h : text.dropWhile (· != '<') = bracket :: body) :
    bracket = '<' ∧ text = text.takeWhile (· != '<') ++ '<' :: body ∧
      ∀ c ∈ text.takeWhile (· != '<'), (c == '<') = false := by
  have hbracket : bracket = '<' := by
    have hhead := List.head?_dropWhile_not (· != '<') text
    rw [h] at hhead
    simpa using hhead
  have hsplit := List.takeWhile_append_dropWhile (p := (· != '<')) (l := text)
  rw [h, hbracket] at hsplit
  refine ⟨hbracket, hsplit.symm, ?_⟩
  intro c hc
  simpa using List.mem_takeWhile_imp hc

theorem byteLength_bracket (front lead : List Char) :
    byteLength (front ++ (lead ++ ['<'])) = byteLength front + byteLength lead + 1 := by
  rw [← List.append_assoc, byteLength_concat (by decide), byteLength_append]

theorem append_bracket (front lead body : List Char) :
    front ++ (lead ++ '<' :: body) = front ++ (lead ++ ['<']) ++ body := by
  rw [List.append_cons lead, List.append_assoc front]

/-- The end of a tag is looked for from its bracket on. -/
theorem find_behind_bracket (front lead body : List Char) :
    find ['>'] (front ++ (lead ++ '<' :: body)) (byteLength front + byteLength lead + 1) =
      some (match seek ['>'] body with
        | .found inner _ => .ok (some (byteLength front + byteLength lead + 1 + byteLength inner))
        | .absent => .ok none
        | .unclosed quotation => .error (.unclosedQuotation quotation)) := by
  rw [append_bracket, ← byteLength_bracket, find_eq]
  exact congrArg some (findByte_append ['>'] (front ++ (lead ++ ['<'])) body)

/-- One turn of the search for the close tag: over the text up to the next tag, and over the tag. -/
theorem closePositions_turn {lead inner more : List Char}
    (hlead : ∀ c ∈ lead, (c == '<') = false)
    (hseek : seek ['>'] (inner ++ '>' :: more) = .found inner ('>' :: more))
    (name front : List Char) (depth : Nat) :
    closePositions name (front ++ (lead ++ '<' :: (inner ++ '>' :: more))) depth (byteLength front) =
      match Tag.role name ⟨lead, inner⟩, depth with
      | .closes, 0 => some (.ok (byteLength front + byteLength lead,
          byteLength front + byteLength lead + 1 + byteLength inner + 1))
      | .closes, depth + 1 =>
        closePositions name (front ++ (lead ++ '<' :: (inner ++ '>' :: more))) depth
          (byteLength front + byteLength lead + 1 + byteLength inner + 1)
      | .opens, depth =>
        closePositions name (front ++ (lead ++ '<' :: (inner ++ '>' :: more))) (depth + 1)
          (byteLength front + byteLength lead + 1 + byteLength inner + 1)
      | .other, depth =>
        closePositions name (front ++ (lead ++ '<' :: (inner ++ '>' :: more))) depth
          (byteLength front + byteLength lead + 1 + byteLength inner + 1) := by
  have hend := find_behind_bracket front lead (inner ++ '>' :: more)
  rw [hseek] at hend
  have hinner : between? (byteLength front + byteLength lead + 1)
      (byteLength front + byteLength lead + 1 + byteLength inner)
        (front ++ (lead ++ '<' :: (inner ++ '>' :: more))) = some inner := by
    rw [append_bracket, ← byteLength_bracket, between?_append]
  rw [closePositions, from?_append, some_bind, position?_append hlead rfl]
  -- From here on the text is known only by the end of its tag and by what stands inside.
  generalize front ++ (lead ++ '<' :: (inner ++ '>' :: more)) = whole at hend hinner ⊢
  simp only
  rw [hend]
  show (between? _ _ whole >>= _) = _
  rw [hinner, some_bind]
  by_cases hclose : inner.head? = some '/'
  · obtain ⟨closing, rfl⟩ := List.head?_eq_some_iff.1 hclose
    show (tagName closing >>= _) = _
    rw [Tag.role_slash, tagName_eq, some_bind]
    by_cases hname : PenPlot.tagName closing = name
    · rw [if_pos hname, if_pos hname]
      cases depth with
      | zero => rfl
      | succ depth => rfl
    · rw [if_neg hname, if_neg hname]
  · rw [Tag.role_of_ne hclose]
    split
    · exact absurd rfl hclose
    · rw [tagName_eq, some_bind]
      by_cases hopens : PenPlot.tagName inner = name ∧ ¬ endsWithSlash inner = true
      · have hrole : (decide (PenPlot.tagName inner = name) && !endsWithSlash inner) = true := by
          simpa using hopens
        rw [if_pos hopens, if_pos hrole]
      · have hrole : ¬ (decide (PenPlot.tagName inner = name) && !endsWithSlash inner) = true := by
          simpa using hopens
        rw [if_neg hopens, if_neg hrole]

/-- The search for the close tag never leaves the text, and its depth never falls below zero. -/
theorem closePositions_append (name front text : List Char) (depth : Nat) :
    closePositions name (front ++ text) depth (byteLength front) =
      some ((closeFrom name depth (scan text)).map (shift (byteLength front))) := by
  -- The scan meets what a turn can meet: no bracket, a tag, a tag without end, an open quotation.
  fun_induction scan text generalizing front depth with
  | case1 text hnone =>
    have hplain : ∀ c ∈ text, (c == '<') = false := by
      intro c hc
      simpa using List.dropWhile_eq_nil_iff.1 hnone c hc
    rw [closePositions, from?_append, some_bind, position?_eq_none hplain]
    rfl
  | case2 text bracket body hbody inner behind hseek _ ih =>
    obtain ⟨-, htext, hlead⟩ := takeWhile_bracket hbody
    generalize text.takeWhile (· != '<') = lead at htext hlead ⊢
    obtain ⟨more, rfl, rfl⟩ := exists_of_seek hseek
    have hturn := closePositions_turn hlead hseek name front depth
    have htag : (⟨lead, inner⟩ : Tag).text = lead ++ '<' :: inner ++ ['>'] := rfl
    have hlength : byteLength (front ++ (⟨lead, inner⟩ : Tag).text) =
        byteLength front + byteLength lead + 1 + byteLength inner + 1 := by
      simp only [htag, byteLength_append, byteLength_cons, byteLength_nil,
        utf8Size_eq_one (c := '<') (by decide), utf8Size_eq_one (c := '>') (by decide)]
      omega
    have hsplit : front ++ (lead ++ '<' :: (inner ++ '>' :: more)) =
        front ++ (⟨lead, inner⟩ : Tag).text ++ more := by
      simp [htag]
    -- A tag that is not the one looked for changes the depth of both searches alike.
    have hfurther : ∀ {depth further : Nat},
        splitAtClose name depth (⟨lead, inner⟩ :: (scan more).tags) =
          (splitAtClose name further (scan more).tags).map (Prod.map (⟨lead, inner⟩ :: ·) id) →
        closePositions name (front ++ (lead ++ '<' :: (inner ++ '>' :: more))) further
            (byteLength front + byteLength lead + 1 + byteLength inner + 1) =
          some ((closeFrom name depth ((scan more).push ⟨lead, inner⟩)).map
            (shift (byteLength front))) := by
      intro depth further h
      rw [hsplit, ← hlength, closeFrom_push h]
      refine (ih _ further).trans ?_
      rw [List.drop_succ_cons, List.drop_zero, byteLength_append]
      cases closeFrom name further (scan more) with
      | error flaw => rfl
      | ok positions => simp only [Except.map, shift_shift]
    rw [htext, hturn, List.drop_succ_cons, List.drop_zero]
    cases hrole : Tag.role name ⟨lead, inner⟩ with
    | closes =>
      cases depth with
      | zero =>
        have hstop : byteLength front + byteLength lead + 1 + byteLength inner + 1 =
            byteLength front + (byteLength lead + byteLength ('<' :: inner ++ ['>'])) := by
          simp only [byteLength_append, byteLength_cons, byteLength_nil,
            utf8Size_eq_one (c := '<') (by decide), utf8Size_eq_one (c := '>') (by decide)]
          omega
        rw [closeFrom_push_of_closes hrole, hstop]
        rfl
      | succ depth => exact hfurther (splitAtClose_succ_of_closes hrole depth _)
    | opens => exact hfurther (splitAtClose_of_opens hrole depth _)
    | other => exact hfurther (splitAtClose_of_other hrole depth _)
  | case3 text bracket body hbody hseek =>
    obtain ⟨rfl, htext, hlead⟩ := takeWhile_bracket hbody
    generalize text.takeWhile (· != '<') = lead at htext hlead
    have hat := from?_append (front ++ lead) ('<' :: body)
    rw [List.append_assoc, byteLength_append, ← htext] at hat
    have hend := find_behind_bracket front lead body
    rw [hseek, ← htext] at hend
    have hposition := position?_append hlead (c := '<') rfl body
    rw [← htext] at hposition
    rw [closePositions, from?_append, some_bind, hposition]
    simp only
    rw [hend]
    show (from? (byteLength front + byteLength lead) (front ++ text) >>= _) = _
    rw [hat]
    rfl
  | case4 text bracket body hbody quotation hseek =>
    obtain ⟨rfl, htext, hlead⟩ := takeWhile_bracket hbody
    generalize text.takeWhile (· != '<') = lead at htext hlead
    have hend := find_behind_bracket front lead body
    rw [hseek, ← htext] at hend
    have hposition := position?_append hlead (c := '<') rfl body
    rw [← htext] at hposition
    rw [closePositions, from?_append, some_bind, hposition]
    simp only
    rw [hend]
    rfl

theorem closePositions_eq (name body : List Char) :
    closePositions name body 0 0 = some ((scan body).closePositions name) := by
  have h := closePositions_append name [] body 0
  rw [List.nil_append, byteLength_nil] at h
  rw [h, Markup.closePositions_eq]
  cases closeFrom name 0 (scan body) with
  | error flaw => rfl
  | ok positions => simp only [Except.map, shift, Nat.zero_add]

end ByPosition

/-! ## First elements -/

theorem Markup.text_of_enclosed {name : List Char} {markup : Markup} {found : Enclosed}
    (h : markup.enclosed name = .ok found) :
    markup.text = found.content.text ++ ('<' :: found.close.inner ++ ['>'] ++ found.rest.text) := by
  unfold enclosed at h
  split at h
  · next inside close behind hsplit =>
    cases h
    have htags := splitAtClose_eq_some hsplit
    simp only [Markup.text, htags, List.flatMap_append, List.flatMap_cons, Tag.text, Ending.text,
      List.append_assoc, List.cons_append]
  · split at h <;> cases h

/-- A character of which the property does not hold ends the part for which it holds. -/
theorem takeWhile_append_stop {p : Char → Bool} {c : Char} (h : p c = false)
    (front rest : List Char) : (front ++ c :: rest).takeWhile p = front.takeWhile p := by
  induction front with
  | nil => rw [List.nil_append, List.takeWhile_cons_of_neg (by simp [h]), List.takeWhile_nil]
  | cons d front ih => rw [List.cons_append, List.takeWhile_cons, List.takeWhile_cons, ih]

/-- The name of a tag ends before the tag does. -/
theorem tagName_append (inner more : List Char) : tagName (inner ++ '>' :: more) = tagName inner := by
  by_cases hclose : inner.head? = some '/'
  · obtain ⟨closing, rfl⟩ := List.head?_eq_some_iff.1 hclose
    rw [List.cons_append, tagName, tagName, takeWhile_append_stop (by simp)]
  · have hopen : (inner ++ '>' :: more).head? ≠ some '/' := by
      cases inner with
      | nil => exact fun h => absurd (Option.some.inj h) (by decide)
      | cons c inner => exact hclose
    rw [tagName_of_ne hopen, tagName_of_ne hclose, takeWhile_append_stop (by simp)]

theorem tagName_isPrefix (inner : List Char) : tagName inner <+: inner := by
  by_cases hclose : inner.head? = some '/'
  · obtain ⟨closing, rfl⟩ := List.head?_eq_some_iff.1 hclose
    exact List.cons_prefix_cons.2 ⟨rfl, List.takeWhile_prefix _⟩
  · rw [tagName_of_ne hclose]
    exact List.takeWhile_prefix _

namespace ByPosition

/-- What is taken next, if the first element of a text is known. -/
def Next.ofFirst : Option Taken → Next
  | none => ⟨none, [], [], []⟩
  | some taken => ⟨some taken.kind, taken.attributes, taken.content, taken.rest⟩

theorem find_zero (body : List Char) :
    find ['>'] body 0 =
      some (match seek ['>'] body with
        | .found inner _ => .ok (some (byteLength inner))
        | .absent => .ok none
        | .unclosed quotation => .error (.unclosedQuotation quotation)) := by
  have h := findByte_append ['>'] [] body
  rw [List.nil_append, byteLength_nil] at h
  rw [find_eq, h]
  cases seek ['>'] body with
  | found inner behind => simp only [Nat.zero_add]
  | absent => rfl
  | unclosed quotation => rfl

/-- The pieces of an element whose tag has its end are those of the scanned text. -/
theorem take_tag {lead inner more : List Char} (hlead : ∀ c ∈ lead, (c == '<') = false)
    (hseek : seek ['>'] (inner ++ '>' :: more) = .found inner ('>' :: more)) :
    take (lead ++ '<' :: (inner ++ '>' :: more)) =
      some ((((Markup.scan more).push ⟨lead, inner⟩).take?.map fun found? =>
        found?.map fun (element, rest) =>
          ⟨element.kind, element.attributes, element.content.text, rest.text⟩).map
            Next.ofFirst) := by
  have htag : from? (byteLength lead + 1) (lead ++ '<' :: (inner ++ '>' :: more)) =
      some (inner ++ '>' :: more) := from?_succ (by decide) lead _
  have hbehind : from? (byteLength inner + 1) (inner ++ '>' :: more) = some more :=
    from?_succ (by decide) inner more
  have hend := find_zero (inner ++ '>' :: more)
  rw [hseek] at hend
  have hname : tagName (inner ++ '>' :: more) = some (PenPlot.tagName inner) := by
    rw [tagName_eq, tagName_append]
  have hinner : between? (byteLength (PenPlot.tagName inner)) (byteLength inner)
      (inner ++ '>' :: more) = some (inner.drop (PenPlot.tagName inner).length) := by
    have hsplit := List.prefix_iff_eq_append.1 (tagName_isPrefix inner)
    have h := between?_append (PenPlot.tagName inner) (inner.drop (PenPlot.tagName inner).length)
      ('>' :: more)
    rwa [← List.append_assoc, ← byteLength_append, hsplit] at h
  rw [take, position?_append hlead rfl]
  show (from? (byteLength lead + 1) _ >>= _) = _
  rw [htag, some_bind, hend, some_bind]
  show (from? (byteLength inner + 1) _ >>= _) = _
  rw [hbehind, some_bind, hname, some_bind]
  show (between? _ _ _ >>= _) = _
  rw [hinner, some_bind]
  have hmore : (⟨(Markup.scan more).tags, (Markup.scan more).ending⟩ : Markup).text = more :=
    Markup.text_scan more
  simp only [Markup.take?, Markup.push]
  by_cases hunrecognized : ElementKind.ofName (PenPlot.tagName inner) = .unrecognized
  · rw [if_pos hunrecognized, if_pos hunrecognized]
    simp only [Except.map, Option.map_some, Next.ofFirst, hmore]
    rfl
  · rw [if_neg hunrecognized, if_neg hunrecognized]
    by_cases hslash : (trim (inner.drop (PenPlot.tagName inner).length)).getLast? = some '/'
    · simp only [Markup.attributeText, if_pos hslash, if_true, Except.map, Option.map_some,
        Next.ofFirst, hmore]
      rfl
    · simp only [Markup.attributeText, if_neg hslash, Bool.false_eq_true, if_false]
      rw [closePositions_eq, some_bind, Markup.closePositions]
      cases hfound : (Markup.scan more).enclosed (PenPlot.tagName inner) with
      | error flaw => rfl
      | ok found =>
        have htext := Markup.text_of_enclosed hfound
        rw [Markup.text_scan] at htext
        have hcontent := upTo?_append found.content.text
          ('<' :: found.close.inner ++ ['>'] ++ found.rest.text)
        rw [← htext] at hcontent
        have hrest := from?_append (found.content.text ++ ('<' :: found.close.inner ++ ['>']))
          found.rest.text
        rw [List.append_assoc, ← htext, byteLength_append] at hrest
        show (upTo? (byteLength found.content.text) more >>= _) = _
        rw [hcontent, some_bind]
        show (from? (byteLength found.content.text +
          byteLength ('<' :: found.close.inner ++ ['>'])) more >>= _) = _
        rw [hrest]
        rfl

theorem take_eq (text : List Char) : take text = some ((Taken.first? text).map Next.ofFirst) := by
  have hscan := Markup.scan_eq text
  cases hbody : text.dropWhile (· != '<') with
  | nil =>
    have hplain : ∀ c ∈ text, (c == '<') = false := by
      intro c hc
      simpa using List.dropWhile_eq_nil_iff.1 hbody c hc
    rw [hbody] at hscan
    rw [take, position?_eq_none hplain, Taken.first?, hscan]
    rfl
  | cons bracket body =>
    rw [hbody] at hscan
    obtain ⟨rfl, htext, hlead⟩ := takeWhile_bracket hbody
    generalize text.takeWhile (· != '<') = lead at htext hlead hscan
    subst htext
    have htag : from? (byteLength lead + 1) (lead ++ '<' :: body) = some body :=
      from?_succ (by decide) lead body
    have hend := find_zero body
    simp only at hscan
    cases hseek : seek ['>'] body with
    | absent =>
      rw [hseek] at hscan hend
      rw [take, position?_append hlead rfl, Taken.first?, hscan]
      show (from? (byteLength lead + 1) (lead ++ '<' :: body) >>= _) = _
      rw [htag, some_bind, hend, some_bind]
      show (from? (byteLength lead) (lead ++ '<' :: body) >>= _) = _
      rw [from?_append]
      rfl
    | unclosed quotation =>
      rw [hseek] at hscan hend
      rw [take, position?_append hlead rfl, Taken.first?, hscan]
      show (from? (byteLength lead + 1) (lead ++ '<' :: body) >>= _) = _
      rw [htag, some_bind, hend]
      rfl
    | found inner behind =>
      rw [hseek] at hscan
      obtain ⟨more, rfl, rfl⟩ := exists_of_seek hseek
      rw [take_tag hlead hseek, Taken.first?, hscan]
      rfl

/-- The end of the text is never met where the kinds of elements are told apart. -/
theorem first_eq (text : List Char) : first text = some (Taken.first? text) := by
  rw [first, take_eq, some_bind]
  cases Taken.first? text with
  | error flaw => rfl
  | ok found? => cases found? <;> rfl

end ByPosition

end PenPlot
