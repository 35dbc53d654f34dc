import Mathlib.Order.Bounds.Basic
import PenPlot.Proofs.Seeking

/-!
# What a search outside quotations finds

A text has its quotations closed if it is made of symbols that are no quotation marks and of complete
quotations: a mark, anything but that mark, and the mark again. A place is outside quotations if the text
before it is of this kind, and where a search looks is said by that alone, without the steps of the search.

So are the three things that can come of it: the first place outside quotations at which the word stands, a
quotation that is opened outside of others before that and never closed, or neither. No place outside
quotations is behind a quotation that is never closed, so the three exclude each other.
-/

namespace PenPlot

namespace Text

variable {σ : Type} [QuoteMarks σ] {word : List σ}

/-- The text is made of symbols that are no quotation marks and of complete quotations. -/
inductive QuotesClosed : List σ → Prop where
  | nil : QuotesClosed []
  | plain {c : σ} {rest : List σ} : QuoteMarks.isQuote c = false → QuotesClosed rest →
      QuotesClosed (c :: rest)
  | quotation {mark : σ} {body rest : List σ} : QuoteMarks.isQuote mark = true → mark ∉ body →
      QuotesClosed rest → QuotesClosed (mark :: (body ++ mark :: rest))

/-- The word stands at the front of the text, where no quotation is opened. -/
def StandsOpen (word text : List σ) : Prop :=
  (∃ c rest, text = c :: rest ∧ QuoteMarks.isQuote c = false) ∧ word <+: text

/-- A quotation is opened at the front of the text and never closed. -/
def NeverCloses (text : List σ) : Prop :=
  ∃ mark body, text = mark :: body ∧ QuoteMarks.isQuote mark = true ∧ mark ∉ body

/-- The word does not stand anywhere outside quotations. -/
def StandsNowhere (word text : List σ) : Prop :=
  ∀ before behind, text = before ++ behind → QuotesClosed before → ¬ StandsOpen word behind

/-! ## Places outside quotations -/

theorem NeverCloses.not_standsOpen {text : List σ} (h : NeverCloses text) : ¬ StandsOpen word text := by
  rintro ⟨⟨c, rest, htext, hc⟩, -⟩
  obtain ⟨mark, body, rfl, hmark, -⟩ := h
  obtain ⟨rfl, -⟩ := List.cons.inj htext
  rw [hmark] at hc
  cases hc

omit [QuoteMarks σ] in
theorem eq_of_append_mark {mark : σ} {first second rest more : List σ} (hfirst : mark ∉ first)
    (hsecond : mark ∉ second) (h : first ++ mark :: rest = second ++ mark :: more) :
    first = second ∧ rest = more := by
  induction first generalizing second with
  | nil =>
    cases second with
    | nil => exact ⟨rfl, (List.cons.inj h).2⟩
    | cons c second =>
      have hc : mark = c := (List.cons.inj h).1
      exact absurd (hc ▸ List.mem_cons_self ..) hsecond
  | cons c first ih =>
    rw [List.mem_cons, not_or] at hfirst
    cases second with
    | nil =>
      have hc : c = mark := (List.cons.inj h).1
      exact absurd hc.symm hfirst.1
    | cons d second =>
      rw [List.mem_cons, not_or] at hsecond
      obtain ⟨rfl, htail⟩ := List.cons.inj h
      obtain ⟨rfl, rfl⟩ := ih hfirst.2 hsecond.2 htail
      exact ⟨rfl, rfl⟩

namespace QuotesClosed

variable {c mark : σ} {body rest before behind : List σ}

theorem of_plain (hc : QuoteMarks.isQuote c = false) (h : QuotesClosed (c :: rest)) :
    QuotesClosed rest := by
  cases h with
  | plain _ hrest => exact hrest
  | quotation hmark _ _ =>
    rw [hc] at hmark
    cases hmark

/-- No place inside a quotation is outside quotations. -/
theorem of_quotation (hmark : QuoteMarks.isQuote mark = true) (hbody : mark ∉ body)
    (h : QuotesClosed before) (hne : before ≠ [])
    (hsplit : mark :: (body ++ mark :: rest) = before ++ behind) :
    ∃ inner, before = mark :: (body ++ mark :: inner) ∧ rest = inner ++ behind ∧
      QuotesClosed inner := by
  cases h with
  | nil => exact absurd rfl hne
  | plain hc _ =>
    obtain ⟨rfl, -⟩ := List.cons.inj hsplit
    rw [hmark] at hc
    cases hc
  | @quotation other body' inner _ hbody' hinner =>
    rw [List.cons_append, List.append_assoc, List.cons_append] at hsplit
    obtain ⟨rfl, htail⟩ := List.cons.inj hsplit
    obtain ⟨rfl, rfl⟩ := eq_of_append_mark hbody hbody' htail
    exact ⟨inner, rfl, rfl, hinner⟩

/-- Behind a quotation that is never closed no place is outside quotations. -/
theorem length_le_of_neverCloses {first : List σ} (hfirst : QuotesClosed first)
    (h : NeverCloses rest) (hbefore : QuotesClosed before)
    (hsplit : first ++ rest = before ++ behind) : before.length ≤ first.length := by
  induction hfirst generalizing before with
  | nil =>
    obtain ⟨mark, body, rfl, hmark, hbody⟩ := h
    cases hbefore with
    | nil => exact Nat.le_refl _
    | plain hc _ =>
      obtain ⟨rfl, -⟩ := List.cons.inj hsplit
      rw [hmark] at hc
      cases hc
    | quotation _ _ _ =>
      obtain ⟨rfl, rfl⟩ := List.cons.inj hsplit
      simp at hbody
  | @plain c first hc _ ih =>
    cases before with
    | nil => exact Nat.zero_le _
    | cons d before =>
      obtain ⟨rfl, htail⟩ := List.cons.inj hsplit
      have hle := ih (hbefore.of_plain hc) htail
      rw [List.length_cons, List.length_cons]
      omega
  | @quotation mark body first hmark hbody _ ih =>
    by_cases hne : before = []
    · rw [hne]
      exact Nat.zero_le _
    · rw [List.cons_append, List.append_assoc, List.cons_append] at hsplit
      obtain ⟨inner, rfl, htail, hinner⟩ := hbefore.of_quotation hmark hbody hne hsplit
      have hle := ih hinner htail
      simp only [List.length_cons, List.length_append]
      omega

end QuotesClosed

/-! ## The answer of a search -/

/-- The search result is the answer for the text. -/
def Answers (word text : List σ) : Search σ → Prop
  | .found before after =>
    text = before ++ after ∧ QuotesClosed before ∧ StandsOpen word after ∧
      ∀ other behind, text = other ++ behind → QuotesClosed other → StandsOpen word behind →
        before.length ≤ other.length
  | .absent => QuotesClosed text ∧ StandsNowhere word text
  | .unclosed quotation =>
    StandsNowhere word text ∧
      ∃ before, text = before ++ quotation ∧ QuotesClosed before ∧ NeverCloses quotation

/-- The answer for a text is one for the text with a part in front that is passed over: places outside
quotations remain so behind it, and the word stands in no other place. -/
theorem Answers.behind {front rest : List σ} {search : Search σ} (h : Answers word rest search)
    (hclosed : ∀ inner, QuotesClosed inner → QuotesClosed (front ++ inner))
    (hsplit : ∀ other behind, front ++ rest = other ++ behind → QuotesClosed other →
      StandsOpen word behind →
        ∃ inner, other = front ++ inner ∧ rest = inner ++ behind ∧ QuotesClosed inner) :
    Answers word (front ++ rest) (search.behind front) := by
  have hnowhere : StandsNowhere word rest → StandsNowhere word (front ++ rest) := by
    intro hrest other behind htext hother hstands
    obtain ⟨inner, -, htail, hinner⟩ := hsplit other behind htext hother hstands
    exact hrest inner behind htail hinner hstands
  cases search with
  | found before after =>
    obtain ⟨rfl, hbefore, hstands, hleast⟩ := h
    refine ⟨(List.append_assoc ..).symm, hclosed before hbefore, hstands, ?_⟩
    intro other behind htext hother hbehind
    obtain ⟨inner, rfl, htail, hinner⟩ := hsplit other behind htext hother hbehind
    have hle := hleast inner behind htail hinner hbehind
    rw [List.length_append, List.length_append]
    omega
  | absent =>
    obtain ⟨hrest, hnone⟩ := h
    exact ⟨hclosed rest hrest, hnowhere hnone⟩
  | unclosed quotation =>
    obtain ⟨hnone, before, rfl, hbefore, hnever⟩ := h
    exact ⟨hnowhere hnone, front ++ before, (List.append_assoc ..).symm, hclosed before hbefore,
      hnever⟩

/-- A text is empty, or it begins with a symbol that is no quotation mark, with a complete quotation or
with one that is never closed. -/
theorem quote_cases (text : List σ) :
    text = [] ∨ (∃ c rest, text = c :: rest ∧ QuoteMarks.isQuote c = false) ∨
      (∃ mark body rest, text = mark :: (body ++ mark :: rest) ∧
        QuoteMarks.isQuote mark = true ∧ mark ∉ body) ∨ NeverCloses text := by
  cases text with
  | nil => exact .inl rfl
  | cons c rest =>
    cases hc : QuoteMarks.isQuote c with
    | false => exact .inr (.inl ⟨c, rest, rfl, hc⟩)
    | true =>
      by_cases hmem : c ∈ rest
      · obtain ⟨body, more, rfl, hbody⟩ := List.eq_append_cons_of_mem hmem
        exact .inr (.inr (.inl ⟨c, body, more, rfl, hc, hbody⟩))
      · exact .inr (.inr (.inr ⟨c, rest, rfl, hc, hmem⟩))

variable [DecidableEq σ]

theorem seek_of_neverCloses {text : List σ} (h : NeverCloses text) : seek word text = .unclosed text := by
  obtain ⟨mark, body, rfl, hmark, hbody⟩ := h
  rw [seek, seekFrom, if_pos hmark, seekFrom_unclosed hbody]
  rfl

theorem seek_answers (word text : List σ) : Answers word text (seek word text) := by
  -- A quotation is passed over as a whole, so the rest is shorter by more than one symbol.
  induction hlength : text.length using Nat.strongRecOn generalizing text with
  | ind length ih =>
    subst hlength
    rcases quote_cases text with rfl | ⟨c, rest, rfl, hc⟩ | ⟨mark, body, rest, rfl, hmark, hbody⟩ |
      hnever
    · refine ⟨.nil, ?_⟩
      rintro before behind htext - ⟨⟨c, rest, rfl, -⟩, -⟩
      simp at htext
    · have hrest := ih rest.length (Nat.lt_succ_self _) rest rfl
      have hquote : ¬ QuoteMarks.isQuote c = true := by simp [hc]
      rw [seek, seekFrom, if_neg hquote]
      by_cases hfront : word.isPrefixOf (c :: rest) = true
      · rw [if_pos hfront]
        refine ⟨rfl, .nil, ⟨⟨c, rest, rfl, hc⟩, List.isPrefixOf_iff_prefix.1 hfront⟩, ?_⟩
        intro other behind htext hother hbehind
        exact Nat.zero_le _
      · rw [if_neg hfront, Search.after_eq_behind]
        refine hrest.behind (fun inner hinner => .plain hc hinner) ?_
        intro other behind htext hother hbehind
        cases other with
        | nil =>
          rw [List.nil_append] at htext
          rw [← htext] at hbehind
          exact absurd (List.isPrefixOf_iff_prefix.2 hbehind.2) hfront
        | cons d inner =>
          obtain ⟨rfl, htail⟩ := List.cons.inj htext
          exact ⟨inner, rfl, htail, hother.of_plain hc⟩
    · have hshorter : rest.length < (mark :: (body ++ mark :: rest)).length := by
        simp only [List.length_cons, List.length_append]
        omega
      have hrest := ih rest.length hshorter rest rfl
      have hwhole : mark :: (body ++ mark :: rest) = mark :: (body ++ [mark]) ++ rest := by simp
      rw [seek_quotation hmark hbody, hwhole]
      refine hrest.behind ?_ ?_
      · intro inner hinner
        have hquotation := QuotesClosed.quotation hmark hbody hinner
        simpa using hquotation
      · intro other behind htext hother hbehind
        rw [← hwhole] at htext
        by_cases hne : other = []
        · subst hne
          rw [List.nil_append] at htext
          obtain ⟨⟨c, tail, rfl, hc⟩, -⟩ := hbehind
          obtain ⟨rfl, -⟩ := List.cons.inj htext
          rw [hmark] at hc
          cases hc
        · obtain ⟨inner, rfl, htail, hinner⟩ := hother.of_quotation hmark hbody hne htext
          exact ⟨inner, by simp, htail, hinner⟩
    · rw [seek_of_neverCloses hnever]
      refine ⟨?_, [], rfl, .nil, hnever⟩
      intro before behind htext hbefore hbehind
      have hle := QuotesClosed.nil.length_le_of_neverCloses hnever hbefore htext
      obtain rfl : before = [] := List.eq_nil_of_length_eq_zero (Nat.le_zero.1 hle)
      rw [List.nil_append] at htext
      exact (htext ▸ hnever).not_standsOpen hbehind

end Text

/-! ## Searches by position -/

open Text

/-- From byte `start` to byte `i` all quotations are closed. -/
structure IsOutside (haystack : List Char) (start i : Nat) : Prop where
  start_le : start ≤ i
  before : QuotesClosed ((bytes haystack).extract start i)

/-- The word stands at byte `i`, which is outside quotations and no quotation mark. -/
structure StandsAt (word haystack : List Char) (start i : Nat) : Prop extends
    IsOutside haystack start i where
  mark : ∃ b, byte? i haystack = some b ∧ QuoteMarks.isQuote b = false
  word : bytes word <+: (bytes haystack).drop i

/-- Byte `j` is outside quotations and a quotation mark that never occurs again. -/
structure NeverClosesAt (haystack : List Char) (start j : Nat) : Prop extends
    IsOutside haystack start j where
  mark : ∃ b, byte? j haystack = some b ∧ QuoteMarks.isQuote b = true ∧
    b ∉ (bytes haystack).drop (j + 1)

section

variable {word haystack : List Char} {start i j : Nat}

theorem IsOutside.exists_split (h : IsOutside haystack start i) {b : UInt8}
    (hb : byte? i haystack = some b) :
    ∃ before, (bytes haystack).drop start = before ++ b :: (bytes haystack).drop (i + 1) ∧
      start + before.length = i ∧ QuotesClosed before := by
  have hinside : i < (bytes haystack).length := (List.getElem?_eq_some_iff.1 hb).1
  have hsplit := List.take_append_drop (i - start) ((bytes haystack).drop start)
  rw [List.drop_drop, Nat.add_sub_cancel' h.start_le, drop_bytes_of_byte? hb] at hsplit
  have hlength : (((bytes haystack).drop start).take (i - start)).length = i - start := by
    rw [List.length_take, List.length_drop]
    omega
  have hstart := h.start_le
  have hbefore := h.before
  rw [List.extract_eq_take_drop] at hbefore
  exact ⟨_, hsplit.symm, by omega, hbefore⟩

theorem isOutside_of_split {before behind : List UInt8} {b : UInt8}
    (hsplit : (bytes haystack).drop start = before ++ b :: behind) (hbefore : QuotesClosed before) :
    IsOutside haystack start (start + before.length) ∧
      byte? (start + before.length) haystack = some b ∧
      (bytes haystack).drop (start + before.length) = b :: behind := by
  have hbehind : (bytes haystack).drop (start + before.length) = b :: behind := by
    rw [← List.drop_drop, hsplit, List.drop_left]
  refine ⟨⟨Nat.le_add_right _ _, ?_⟩, ?_, hbehind⟩
  · rw [List.extract_eq_take_drop, Nat.add_sub_cancel_left, hsplit, List.take_left]
    exact hbefore
  · rw [byte?, ← List.head?_drop, hbehind]
    rfl

theorem standsAt_iff :
    StandsAt word haystack start i ↔
      ∃ before behind, (bytes haystack).drop start = before ++ behind ∧
        start + before.length = i ∧ QuotesClosed before ∧ StandsOpen (bytes word) behind := by
  constructor
  · rintro ⟨houtside, ⟨b, hb, hmark⟩, hword⟩
    obtain ⟨before, hsplit, hlength, hbefore⟩ := houtside.exists_split hb
    rw [drop_bytes_of_byte? hb] at hword
    exact ⟨before, _, hsplit, hlength, hbefore, ⟨b, _, rfl, hmark⟩, hword⟩
  · rintro ⟨before, _, hsplit, rfl, hbefore, ⟨b, behind, rfl, hmark⟩, hword⟩
    obtain ⟨houtside, hb, hbehind⟩ := isOutside_of_split hsplit hbefore
    rw [← hbehind] at hword
    exact ⟨houtside, ⟨b, hb, hmark⟩, hword⟩

theorem neverClosesAt_iff :
    NeverClosesAt haystack start j ↔
      ∃ before quotation, (bytes haystack).drop start = before ++ quotation ∧
        start + before.length = j ∧ QuotesClosed before ∧ NeverCloses quotation := by
  constructor
  · rintro ⟨houtside, b, hb, hmark, hnever⟩
    obtain ⟨before, hsplit, hlength, hbefore⟩ := houtside.exists_split hb
    exact ⟨before, _, hsplit, hlength, hbefore, b, _, rfl, hmark, hnever⟩
  · rintro ⟨before, _, hsplit, rfl, hbefore, b, behind, rfl, hmark, hnever⟩
    obtain ⟨houtside, hb, hbehind⟩ := isOutside_of_split hsplit hbefore
    have htail : (bytes haystack).drop (start + before.length + 1) = behind := by
      rw [← List.drop_drop, hbehind]
      rfl
    rw [← htail] at hnever
    exact ⟨houtside, b, hb, hmark, hnever⟩

/-- What stands outside quotations stands before one that is never closed. -/
theorem NeverClosesAt.lt_of_standsAt (h : NeverClosesAt haystack start j)
    (hstands : StandsAt word haystack start i) : i < j := by
  obtain ⟨before, quotation, hsplit, rfl, hbefore, hnever⟩ := neverClosesAt_iff.1 h
  obtain ⟨other, behind, hother, rfl, hclosed, hopen⟩ := standsAt_iff.1 hstands
  rw [hsplit] at hother
  have hle := hbefore.length_le_of_neverCloses hnever hclosed hother
  have hne : other.length ≠ before.length := by
    intro heq
    obtain ⟨-, rfl⟩ := List.append_inj hother heq.symm
    exact hnever.not_standsOpen hopen
  omega

theorem NeverClosesAt.eq {k : Nat} (h : NeverClosesAt haystack start j)
    (hk : NeverClosesAt haystack start k) : j = k := by
  obtain ⟨first, _, hfirst, rfl, hclosed, hnever⟩ := neverClosesAt_iff.1 h
  obtain ⟨second, _, hsecond, rfl, hclosed', hnever'⟩ := neverClosesAt_iff.1 hk
  rw [hfirst] at hsecond
  have hle := hclosed.length_le_of_neverCloses hnever hclosed' hsecond
  have hge := hclosed'.length_le_of_neverCloses hnever' hclosed hsecond.symm
  omega

theorem findByte_cases (word haystack : List Char) (start : Nat) :
    (∃ i, findByte word haystack start = .ok (some i) ∧
        IsLeast {i | StandsAt word haystack start i} i) ∨
      (findByte word haystack start = .ok none ∧ (∀ i, ¬ StandsAt word haystack start i) ∧
        ∀ j, ¬ NeverClosesAt haystack start j) ∨
      ∃ j, findByte word haystack start = .error (.unclosedQuotation (dropBytes j haystack)) ∧
        NeverClosesAt haystack start j ∧ ∀ i, ¬ StandsAt word haystack start i := by
  have hanswer := seek_answers (bytes word) ((bytes haystack).drop start)
  have hnowhere : StandsNowhere (bytes word) ((bytes haystack).drop start) →
      ∀ i, ¬ StandsAt word haystack start i := by
    intro hnone i hstands
    obtain ⟨before, behind, hsplit, -, hbefore, hopen⟩ := standsAt_iff.1 hstands
    exact hnone before behind hsplit hbefore hopen
  rw [findByte]
  cases hsearch : seek (bytes word) ((bytes haystack).drop start) with
  | found before after =>
    rw [hsearch] at hanswer
    obtain ⟨hsplit, hbefore, hopen, hleast⟩ := hanswer
    refine .inl ⟨_, rfl, standsAt_iff.2 ⟨before, after, hsplit, rfl, hbefore, hopen⟩, ?_⟩
    intro i hi
    obtain ⟨other, behind, hother, rfl, hclosed, hstands⟩ := standsAt_iff.1 hi
    have hle := hleast other behind hother hclosed hstands
    omega
  | absent =>
    rw [hsearch] at hanswer
    obtain ⟨hwhole, hnone⟩ := hanswer
    refine .inr (.inl ⟨rfl, hnowhere hnone, ?_⟩)
    intro j hj
    obtain ⟨before, quotation, hsplit, -, hbefore, hnever⟩ := neverClosesAt_iff.1 hj
    have hend : before ++ quotation = (bytes haystack).drop start ++ [] := by
      rw [List.append_nil, hsplit]
    have hle := hbefore.length_le_of_neverCloses hnever hwhole hend
    obtain ⟨b, body, rfl, -⟩ := hnever
    rw [hsplit, List.length_append, List.length_cons] at hle
    omega
  | unclosed quotation =>
    rw [hsearch] at hanswer
    obtain ⟨hnone, before, hsplit, hbefore, hnever⟩ := hanswer
    have hposition : byteLength haystack - quotation.length = start + before.length := by
      obtain ⟨b, body, rfl, -⟩ := hnever
      have hlength := congrArg List.length hsplit
      rw [List.length_drop, length_bytes, List.length_append, List.length_cons] at hlength
      rw [List.length_cons]
      omega
    refine .inr (.inr ⟨start + before.length, ?_, ?_, hnowhere hnone⟩)
    · simp only [hposition]
    · exact neverClosesAt_iff.2 ⟨before, quotation, hsplit, rfl, hbefore, hnever⟩

theorem findByte_eq_some_iff :
    findByte word haystack start = .ok (some i) ↔ IsLeast {i | StandsAt word haystack start i} i := by
  rcases findByte_cases word haystack start with ⟨k, hfind, hleast⟩ | ⟨hfind, hnone, -⟩ |
    ⟨j, hfind, -, hnone⟩
  · rw [hfind]
    constructor
    · rintro ⟨⟩
      exact hleast
    · intro hi
      rw [hleast.unique hi]
  · rw [hfind]
    constructor
    · rintro ⟨⟩
    · intro hi
      exact absurd hi.1 (hnone i)
  · rw [hfind]
    constructor
    · rintro ⟨⟩
    · intro hi
      exact absurd hi.1 (hnone i)

theorem findByte_eq_error_iff {flaw : MarkupFlaw} :
    findByte word haystack start = .error flaw ↔
      ∃ j, NeverClosesAt haystack start j ∧ (∀ i < j, ¬ StandsAt word haystack start i) ∧
        flaw = .unclosedQuotation (dropBytes j haystack) := by
  rcases findByte_cases word haystack start with ⟨k, hfind, hleast⟩ | ⟨hfind, -, hclosed⟩ |
    ⟨j, hfind, hnever, hnone⟩
  · rw [hfind]
    constructor
    · rintro ⟨⟩
    · rintro ⟨j, hnever, hnone, -⟩
      exact absurd hleast.1 (hnone k (hnever.lt_of_standsAt hleast.1))
  · rw [hfind]
    constructor
    · rintro ⟨⟩
    · rintro ⟨j, hnever, -⟩
      exact absurd hnever (hclosed j)
  · rw [hfind]
    constructor
    · rintro ⟨⟩
      exact ⟨j, hnever, fun i _ => hnone i, rfl⟩
    · rintro ⟨k, hk, -, rfl⟩
      rw [hnever.eq hk]

theorem findByte_eq_none_iff :
    findByte word haystack start = .ok none ↔
      (∀ i, ¬ StandsAt word haystack start i) ∧ ∀ j, ¬ NeverClosesAt haystack start j := by
  rcases findByte_cases word haystack start with ⟨k, hfind, hleast⟩ | ⟨hfind, hnone, hclosed⟩ |
    ⟨j, hfind, hnever, -⟩
  · rw [hfind]
    constructor
    · rintro ⟨⟩
    · rintro ⟨hnone, -⟩
      exact absurd hleast.1 (hnone k)
  · exact ⟨fun _ => ⟨hnone, hclosed⟩, fun _ => hfind⟩
  · rw [hfind]
    constructor
    · rintro ⟨⟩
    · rintro ⟨-, hclosed⟩
      exact absurd hnever (hclosed j)

/-- From byte `start` on a search finds just the first place outside quotations at which the word stands,
if there is one. It fails just if a quotation is never closed and the word stands nowhere before it, and
reports the text from the mark on. Otherwise the word stands nowhere and all quotations are closed. The
search may begin inside a character, and the word may hold quotation marks. -/
theorem findByte_first_outside (word haystack : List Char) (start : Nat) :
    (∀ i, findByte word haystack start = .ok (some i) ↔
        IsLeast {i | StandsAt word haystack start i} i) ∧
      (∀ flaw, findByte word haystack start = .error flaw ↔
        ∃ j, NeverClosesAt haystack start j ∧ (∀ i < j, ¬ StandsAt word haystack start i) ∧
          flaw = .unclosedQuotation (dropBytes j haystack)) ∧
      (findByte word haystack start = .ok none ↔
        (∀ i, ¬ StandsAt word haystack start i) ∧ ∀ j, ¬ NeverClosesAt haystack start j) := by
  refine ⟨?_, ?_, findByte_eq_none_iff⟩
  · intro i
    exact findByte_eq_some_iff
  · intro flaw
    exact findByte_eq_error_iff

end

end PenPlot
