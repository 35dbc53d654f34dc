import Mathlib.Data.List.TakeWhile
import PenPlot.Markup.Element

/-!
# Text behind text

A part of a text that a search passes over only stands in front of what it finds behind it.
What is read at the front of a text is read there no matter what stands behind. A tag that is finished
remains the same tag, and an element that is taken remains the same element, whatever is appended. Text
without a tag only leads up to the tag behind it. So the markup of two texts, one behind the other, is
the markup of the first with that of the second behind it, unless the first breaks off inside a tag.
-/

namespace PenPlot

namespace Text

section

variable {σ : Type}

/-- The same search result for a text with more in front. -/
def Search.behind (front : List σ) : Search σ → Search σ
  | .found before rest => .found (front ++ before) rest
  | .absent => .absent
  | .unclosed quotation => .unclosed quotation

theorem Search.after_eq_behind (c : σ) (search : Search σ) : search.after c = search.behind [c] := by
  cases search <;> rfl

theorem Search.behind_nil (search : Search σ) : search.behind [] = search := by
  cases search <;> rfl

theorem Search.behind_behind (first second : List σ) (search : Search σ) :
    (search.behind second).behind first = search.behind (first ++ second) := by
  cases search with
  | found before rest => rw [behind, behind, behind, List.append_assoc]
  | absent => rfl
  | unclosed quotation => rfl

theorem Search.behind_after (c : σ) (front : List σ) (search : Search σ) :
    (search.behind front).after c = search.behind (c :: front) := by
  cases search <;> rfl

variable [DecidableEq σ] [QuoteMarks σ] {needle : List σ} {mark : σ}

/-- A part of a quotation without its mark is passed over. -/
theorem seekFrom_inside {body : List σ} (h : mark ∉ body) (quotation rest : List σ) :
    seekFrom needle (some (mark, quotation)) (body ++ rest) =
      (seekFrom needle (some (mark, quotation)) rest).behind body := by
  induction body with
  | nil => rw [List.nil_append, Search.behind_nil]
  | cons c body ih =>
    rw [List.mem_cons, not_or] at h
    rw [List.cons_append, seekFrom, if_neg (Ne.symm h.1), ih h.2, Search.behind_after]

theorem seekFrom_unclosed {body : List σ} (h : mark ∉ body) (quotation : List σ) :
    seekFrom needle (some (mark, quotation)) body = .unclosed quotation := by
  induction body with
  | nil => rfl
  | cons c body ih =>
    rw [List.mem_cons, not_or] at h
    rw [seekFrom, if_neg (Ne.symm h.1), ih h.2]
    rfl

/-- A quotation is passed over as a whole. -/
theorem seek_quotation {body : List σ} (hmark : QuoteMarks.isQuote mark = true)
    (hbody : mark ∉ body) (rest : List σ) :
    seek needle (mark :: (body ++ mark :: rest)) =
      (seek needle rest).behind (mark :: (body ++ [mark])) := by
  rw [seek, seek, seekFrom, if_pos hmark, seekFrom_inside hbody, seekFrom, if_pos rfl,
    Search.after_eq_behind, Search.after_eq_behind, Search.behind_behind, Search.behind_behind]
  rfl

end

variable {σ : Type} [DecidableEq σ] [QuoteMarks σ]

omit [DecidableEq σ] [QuoteMarks σ] in
theorem after_eq_found {c : σ} {search : Search σ} {before after : List σ}
    (h : search.after c = .found before after) :
    ∃ rest, search = .found rest after ∧ before = c :: rest := by
  cases search with
  | found rest behind =>
    cases h
    exact ⟨rest, rfl, rfl⟩
  | absent => cases h
  | unclosed quotation => cases h

/-- A symbol that is found in a text is found there with more text behind. Of the quotation that the text
begins in, only the mark matters. -/
theorem seekFrom_append {symbol : σ} {text before after : List σ}
    {within within' : Option (σ × List σ)} (h : seekFrom [symbol] within text = .found before after)
    (hmark : within.map Prod.fst = within'.map Prod.fst) (more : List σ) :
    seekFrom [symbol] within' (text ++ more) = .found before (after ++ more) := by
  induction text generalizing within within' before with
  | nil => cases within <;> simp [seekFrom] at h
  | cons c rest ih =>
    rw [List.cons_append]
    cases within with
    | some quotation =>
      obtain ⟨mark, body⟩ := quotation
      obtain ⟨⟨mark', body'⟩, rfl, rfl⟩ : ∃ q, within' = some q ∧ q.1 = mark := by
        cases within' with
        | none => cases hmark
        | some q => exact ⟨q, rfl, (Option.some.inj hmark).symm⟩
      simp only [seekFrom] at h ⊢
      obtain ⟨found, hfound, rfl⟩ := after_eq_found h
      rw [ih hfound (by by_cases hc : c = mark' <;> simp [hc])]
      rfl
    | none =>
      obtain rfl : within' = none := by simpa using hmark.symm
      simp only [seekFrom] at h ⊢
      by_cases hquote : QuoteMarks.isQuote c = true
      · rw [if_pos hquote] at h ⊢
        obtain ⟨found, hfound, rfl⟩ := after_eq_found h
        have hmarks : Option.map Prod.fst (some (c, c :: rest)) =
            Option.map Prod.fst (some (c, c :: (rest ++ more))) := rfl
        rw [ih hfound hmarks]
        rfl
      · rw [if_neg hquote] at h ⊢
        by_cases hfront : symbol = c
        · simp only [List.isPrefixOf, hfront, beq_self_eq_true, Bool.true_and, if_true] at h ⊢
          cases h
          rfl
        · simp only [List.isPrefixOf, beq_iff_eq, hfront, Bool.and_true, if_false] at h ⊢
          obtain ⟨found, hfound, rfl⟩ := after_eq_found h
          rw [ih hfound rfl]
          rfl

/-- A symbol that is found in a text is found there with more text behind. -/
theorem seek_append {symbol : σ} {text before after : List σ}
    (h : seek [symbol] text = .found before after) (more : List σ) :
    seek [symbol] (text ++ more) = .found before (after ++ more) :=
  seekFrom_append h rfl more

end Text

/-! ## Matching close tags -/

section

variable {name : List Char} {tag : Tag}

theorem Tag.role_slash (name lead closing : List Char) :
    Tag.role name ⟨lead, '/' :: closing⟩ =
      if tagName closing = name then .closes else .other := rfl

theorem splitAtClose_of_opens (h : tag.role name = .opens) (depth : Nat) (tags : List Tag) :
    splitAtClose name depth (tag :: tags) =
      (splitAtClose name (depth + 1) tags).map (Prod.map (tag :: ·) id) := by
  simp only [splitAtClose, h]
  rfl

theorem splitAtClose_of_other (h : tag.role name = .other) (depth : Nat) (tags : List Tag) :
    splitAtClose name depth (tag :: tags) =
      (splitAtClose name depth tags).map (Prod.map (tag :: ·) id) := by
  simp only [splitAtClose, h]
  rfl

theorem splitAtClose_zero_of_closes (h : tag.role name = .closes) (tags : List Tag) :
    splitAtClose name 0 (tag :: tags) = some ([], tag, tags) := by
  simp only [splitAtClose, h]

theorem splitAtClose_succ_of_closes (h : tag.role name = .closes) (depth : Nat)
    (tags : List Tag) :
    splitAtClose name (depth + 1) (tag :: tags) =
      (splitAtClose name depth tags).map (Prod.map (tag :: ·) id) := by
  simp only [splitAtClose, h]
  rfl

/-- The matching close tag is found no matter which tags stand behind it. -/
theorem splitAtClose_append {depth : Nat} {tags inside behind : List Tag} {close : Tag}
    (h : splitAtClose name depth tags = some (inside, close, behind)) (more : List Tag) :
    splitAtClose name depth (tags ++ more) = some (inside, close, behind ++ more) := by
  induction tags generalizing depth inside with
  | nil => cases h
  | cons tag tags ih =>
    -- Wherever the search goes on behind the first tag, it goes on to the same close tag.
    have hfurther : ∀ {depth : Nat},
        (splitAtClose name depth tags).map (Prod.map (tag :: ·) id) = some (inside, close, behind) →
        (splitAtClose name depth (tags ++ more)).map (Prod.map (tag :: ·) id) =
          some (inside, close, behind ++ more) := by
      intro depth hmap
      obtain ⟨⟨inside', close', behind'⟩, hsplit, heq⟩ := Option.map_eq_some_iff.1 hmap
      cases heq
      rw [ih hsplit]
      rfl
    rw [List.cons_append]
    cases hrole : tag.role name with
    | closes =>
      cases depth with
      | zero =>
        rw [splitAtClose_zero_of_closes hrole] at h ⊢
        cases h
        rfl
      | succ depth =>
        rw [splitAtClose_succ_of_closes hrole] at h ⊢
        exact hfurther h
    | opens =>
      rw [splitAtClose_of_opens hrole] at h ⊢
      exact hfurther h
    | other =>
      rw [splitAtClose_of_other hrole] at h ⊢
      exact hfurther h

end

namespace Markup

open Text

/-! ## Markup behind text -/

/-- The markup behind a text that holds no tag. -/
def ledBy (lead : List Char) (markup : Markup) : Markup :=
  match markup.tags with
  | tag :: tags => ⟨{ tag with lead := lead ++ tag.lead } :: tags, markup.ending⟩
  | [] =>
    match markup.ending with
    | .plain text => ⟨[], .plain (lead ++ text)⟩
    | .broken text flaw => ⟨[], .broken (lead ++ text) flaw⟩

/-- One markup behind another, unless the first breaks off inside a tag. -/
def append (first second : Markup) : Markup :=
  match first.ending with
  | .plain text => ⟨first.tags ++ (second.ledBy text).tags, (second.ledBy text).ending⟩
  | .broken _ _ => first

/-- The tags of a text, without the proofs that the scanner carries. -/
theorem scan_eq (text : List Char) :
    scan text =
      match text.dropWhile (· != '<') with
      | [] => ⟨[], .plain text⟩
      | bracket :: body =>
        match seek ['>'] body with
        | .found inner behind =>
          (scan (behind.drop 1)).push ⟨text.takeWhile (· != '<'), inner⟩
        | .absent => ⟨[], .broken text (.missingTerminator (bracket :: body))⟩
        | .unclosed quotation => ⟨[], .broken text (.unclosedQuotation quotation)⟩ := by
  rw [scan]
  split
  · next h => simp only [h]
  · next bracket body h =>
    split
    all_goals
      next hseek => simp only [h, hseek]

/-- Text without a tag leads up to the tags behind it. -/
theorem scan_ledBy {lead : List Char} (h : '<' ∉ lead) (text : List Char) :
    scan (lead ++ text) = (scan text).ledBy lead := by
  have hlead : ∀ c ∈ lead, (c != '<') = true := by
    intro c hc
    rw [bne_iff_ne]
    rintro rfl
    exact h hc
  rw [scan_eq (lead ++ text), scan_eq text, List.dropWhile_append_of_pos hlead,
    List.takeWhile_append_of_pos hlead]
  cases text.dropWhile (· != '<') with
  | nil => rfl
  | cons bracket body =>
    cases hseek : seek ['>'] body with
    | found inner behind => simp only [hseek, push, ledBy]
    | absent => simp only [hseek, ledBy]
    | unclosed quotation => simp only [hseek, ledBy]

theorem append_push (tag : Tag) (first second : Markup) :
    (first.push tag).append second = (first.append second).push tag := by
  cases hending : first.ending with
  | plain text => simp only [append, push, hending, List.cons_append]
  | broken text flaw => simp only [append, push, hending]

/-- A finished tag is scanned as it is, with more text behind. -/
theorem scan_eq_push {text body inner behind : List Char} {bracket : Char}
    (htext : text.dropWhile (· != '<') = bracket :: body)
    (hseek : seek ['>'] body = .found inner behind) (more : List Char) :
    scan (text ++ more) =
      (scan (behind.drop 1 ++ more)).push ⟨text.takeWhile (· != '<'), inner⟩ := by
  have hbracket : (bracket != '<') = false := by
    have h := List.head?_dropWhile_not (· != '<') text
    rw [htext] at h
    simpa using h
  have hlead : ∀ c ∈ text.takeWhile (· != '<'), (c != '<') = true := by
    intro c hc
    exact List.mem_takeWhile_imp (p := (· != '<')) hc
  have hsplit : text ++ more = text.takeWhile (· != '<') ++ (bracket :: (body ++ more)) := by
    conv => lhs; rw [← List.takeWhile_append_dropWhile (p := (· != '<')) (l := text), htext]
    simp
  have hdrop : (behind ++ more).drop 1 = behind.drop 1 ++ more := by
    obtain ⟨-, hne, -⟩ := seek_eq_found hseek
    cases behind with
    | nil => exact absurd rfl hne
    | cons c behind => rfl
  rw [scan_eq (text ++ more), hsplit, List.dropWhile_append_of_pos hlead,
    List.takeWhile_append_of_pos hlead, List.dropWhile_cons_of_neg (by simp [hbracket]),
    List.takeWhile_cons_of_neg (by simp [hbracket]), List.append_nil]
  simp only [seek_append hseek more, hdrop]

/-- The tags of one text behind another, if the first does not break off inside a tag. -/
theorem scan_append {first text : List Char} (h : (scan first).ending = .plain text)
    (second : List Char) : scan (first ++ second) = (scan first).append (scan second) := by
  fun_induction scan first with
  | case1 first hfirst =>
    have hlead : '<' ∉ first := by
      intro hmem
      simpa using List.dropWhile_eq_nil_iff.1 hfirst '<' hmem
    rw [scan_ledBy hlead]
    rfl
  | case2 first bracket body hfirst inner behind hseek _ ih =>
    rw [scan_eq_push hfirst hseek, append_push, ih h]
  | case3 first bracket body hfirst hseek => cases h
  | case4 first bracket body hfirst quotation hseek => cases h

/-! ## Elements at the front of markup -/

/-- Text before the first tag does not matter to the element that is taken. -/
theorem take?_ledBy (lead : List Char) (markup : Markup) :
    take? (markup.ledBy lead) = take? markup := by
  obtain ⟨tags, ending⟩ := markup
  cases tags with
  | cons tag tags => rfl
  | nil => cases ending <;> rfl

/-- No element is left just if no tag is, and the text does not break off inside one. -/
theorem eq_plain_of_take? {markup : Markup} (h : take? markup = .ok none) :
    ∃ text, markup = ⟨[], .plain text⟩ := by
  obtain ⟨tags, ending⟩ := markup
  cases tags with
  | nil =>
    cases ending with
    | plain text => exact ⟨text, rfl⟩
    | broken text flaw => cases h
  | cons tag tags =>
    simp only [take?] at h
    split at h
    · cases h
    · split at h
      · cases h
      · cases hfound : enclosed (tagName tag.inner) ⟨tags, ending⟩ <;> rw [hfound] at h <;> cases h

/-- What stands before a close tag that is found is the same with more markup behind. -/
theorem enclosed_append {name : List Char} {first : Markup} {found : Enclosed}
    (h : enclosed name first = .ok found) (second : Markup) :
    enclosed name (first.append second) = .ok { found with rest := found.rest.append second } := by
  obtain ⟨tags, ending⟩ := first
  cases hsplit : splitAtClose name 0 tags with
  | none => cases ending <;> simp [enclosed, hsplit] at h
  | some pieces =>
    obtain ⟨inside, close, behind⟩ := pieces
    simp only [enclosed, hsplit, Except.ok.injEq] at h
    subst h
    cases ending with
    | plain text =>
      simp only [enclosed, append, splitAtClose_append hsplit]
    | broken text flaw =>
      simp only [enclosed, append, hsplit]

/-- An element that is taken is taken no matter which markup stands behind. -/
theorem take?_append {first rest : Markup} {element : Element}
    (h : take? first = .ok (some (element, rest))) (second : Markup) :
    take? (first.append second) = .ok (some (element, rest.append second)) := by
  obtain ⟨tags, ending⟩ := first
  cases tags with
  | nil => cases ending <;> cases h
  | cons tag tags =>
    have happend : Markup.append ⟨tag :: tags, ending⟩ second =
        (Markup.append ⟨tags, ending⟩ second).push tag := append_push tag ⟨tags, ending⟩ second
    rw [happend]
    simp only [take?, push] at h ⊢
    by_cases hunrecognized : ElementKind.ofName (tagName tag.inner) = .unrecognized
    · rw [if_pos hunrecognized] at h ⊢
      cases h
      rfl
    · rw [if_neg hunrecognized] at h ⊢
      by_cases hselfClosing : (attributeText (tagName tag.inner) tag.inner).2 = true
      · rw [if_pos hselfClosing] at h ⊢
        cases h
        rfl
      · rw [if_neg hselfClosing] at h ⊢
        cases hfound : enclosed (tagName tag.inner) ⟨tags, ending⟩ with
        | error flaw =>
          rw [hfound] at h
          cases h
        | ok found =>
          rw [hfound] at h
          rw [enclosed_append hfound second]
          cases h
          rfl

/-- What remains behind a close tag ends as the markup does. -/
theorem ending_enclosed {name : List Char} {markup : Markup} {found : Enclosed}
    (h : enclosed name markup = .ok found) : found.rest.ending = markup.ending := by
  unfold enclosed at h
  split at h
  · cases h
    rfl
  · split at h <;> cases h

/-- What remains behind an element ends as the markup does. -/
theorem ending_take? {markup rest : Markup} {element : Element}
    (h : take? markup = .ok (some (element, rest))) : rest.ending = markup.ending := by
  obtain ⟨tags, ending⟩ := markup
  cases tags with
  | nil => cases ending <;> cases h
  | cons tag tags =>
    simp only [take?] at h
    split at h
    · cases h
      rfl
    · split at h
      · cases h
        rfl
      · cases hfound : enclosed (tagName tag.inner) ⟨tags, ending⟩ with
        | error flaw =>
          rw [hfound] at h
          cases h
        | ok found =>
          rw [hfound] at h
          cases h
          rw [ending_enclosed hfound]

end Markup

end PenPlot
