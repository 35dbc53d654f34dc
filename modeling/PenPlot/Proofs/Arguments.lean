import Mathlib.Data.List.TakeWhile
import PenPlot.Number.List
import PenPlot.Proofs.Literals

/-!
# Arguments as they are written

The arguments of a command are written as tokens: number literals, and single digits for flags. Gaps
stand between them. A gap may be empty where the token behind it cannot be taken for a part of the one
before: behind a flag, before a sign, and before a point if the literal before has a point or an exponent
already. `readGroups_eq_ok_iff` says that these texts, and no others, are read as complete groups of
arguments, and that the arguments are the values of the tokens.
-/

namespace PenPlot

open Text

/-! ## Gaps -/

/-- The characters of a gap do not go on with a number. -/
theorem of_isGap {c : Char} (h : isGap c = true) :
    c.isDigit = false ∧ c ≠ '.' ∧ c ≠ 'e' ∧ c ≠ 'E' := by
  simp only [isGap, Bool.or_eq_true, beq_iff_eq] at h
  rcases h with (((rfl | rfl) | rfl) | rfl) | rfl <;> decide

theorem skipGaps_eq_nil_iff {text : List Char} : skipGaps text = [] ↔ ∀ c ∈ text, isGap c = true :=
  List.dropWhile_eq_nil_iff

theorem dropWhile_append_of_head {p : Char → Bool} {front rest : List Char}
    (hfront : ∀ c ∈ front, p c = true) (hrest : ∀ c ∈ rest.head?, p c = false) :
    (front ++ rest).dropWhile p = rest := by
  rw [List.dropWhile_append_of_pos hfront]
  cases rest with
  | nil => rfl
  | cons c rest =>
    have hc : p c = false := hrest c rfl
    simp [hc]

/-- A gap is skipped up to what is no gap. -/
theorem skipGaps_append {gap rest : List Char} (hgap : ∀ c ∈ gap, isGap c = true)
    (hrest : ∀ c ∈ rest.head?, isGap c = false) : skipGaps (gap ++ rest) = rest :=
  dropWhile_append_of_head hgap hrest

/-- Every text is a gap and what is left when it is skipped. -/
theorem exists_gap_append_skipGaps (text : List Char) :
    ∃ gap, (∀ c ∈ gap, isGap c = true) ∧ text = gap ++ skipGaps text :=
  ⟨text.takeWhile isGap, List.all_eq_true.1 List.all_takeWhile,
    List.takeWhile_append_dropWhile.symm⟩

/-! ## Tokens -/

namespace Argument

variable {β γ : Type}

/-- The argument with another value for a number. -/
def map (f : β → γ) : Argument β → Argument γ
  | number value => number (f value)
  | flag value => flag value

/-- The slot that the argument is for. -/
def slot : Argument β → Slot
  | number _ => .number
  | flag _ => .flag

@[simp]
theorem slot_map (f : β → γ) (argument : Argument β) : (argument.map f).slot = argument.slot := by
  cases argument <;> rfl

variable {token : Argument Literal} {rest : List Char}

/-- How the token is written. -/
def text : Argument Literal → List Char
  | number literal => literal.text
  | flag value => [if value then '1' else '0']

/-- The token is a literal of the grammar, or a flag. -/
def Valid : Argument Literal → Prop
  | number literal => literal.Valid
  | flag _ => True

/-- The text does not go on with anything that would belong to the token before it. -/
def Ends (token : Argument Literal) (rest : List Char) : Prop :=
  match token with
  | number literal => literal.Ends rest
  | flag _ => True

/-- The token may stand right behind another: behind a flag, if it begins with a sign, or if it begins
with a point and the literal before has a point or an exponent. -/
def MayTouch : Argument Literal → Argument Literal → Prop
  | flag _, _ => True
  | number literal, token =>
    (∃ sign : Sign, token.text.head? = some sign.char) ∨
      token.text.head? = some '.' ∧ (literal.fraction ≠ none ∨ literal.exponent ≠ none)

/-- A token begins with a digit, a point or a sign. -/
theorem exists_text_eq_cons (h : token.Valid) :
    ∃ c behind, token.text = c :: behind ∧
      (c.isDigit = true ∨ c = '.' ∨ ∃ sign : Sign, c = sign.char) := by
  cases token with
  | flag value =>
    refine ⟨_, [], rfl, .inl ?_⟩
    cases value <;> rfl
  | number literal =>
    obtain ⟨sign, whole, fraction, exponent⟩ := literal
    obtain ⟨hwhole, -, hsome, -⟩ := h
    cases sign with
    | some sign => exact ⟨sign.char, _, rfl, .inr (.inr ⟨sign, rfl⟩)⟩
    | none =>
      cases whole with
      | cons c whole => exact ⟨c, _, rfl, .inl (hwhole c (List.mem_cons_self ..))⟩
      | nil =>
        cases fraction with
        | some digits => exact ⟨'.', _, rfl, .inr (.inl rfl)⟩
        | none => exact absurd rfl (hsome.resolve_left fun h => h rfl)

theorem isGap_head_text (h : token.Valid) : ∀ c ∈ (token.text ++ rest).head?, isGap c = false := by
  obtain ⟨c, behind, htext, hc⟩ := exists_text_eq_cons h
  rw [htext]
  rintro d ⟨⟩
  rcases hc with hc | rfl | ⟨sign, rfl⟩
  · cases hgap : isGap c with
    | false => rfl
    | true =>
      rw [(of_isGap hgap).1] at hc
      cases hc
  · decide
  · cases sign <;> decide

end Argument

/-! ## The ends of tokens -/

namespace Literal

variable {literal : Literal}

theorem ends_nil (literal : Literal) : literal.Ends [] :=
  ⟨noDigit_nil, nofun, fun _ => rfl⟩

/-- Apart from an exponent, only digits and points go on with a literal. -/
theorem ends_cons_iff {c : Char} (he : c ≠ 'e') (hE : c ≠ 'E') (rest : List Char) :
    literal.Ends (c :: rest) ↔
      c.isDigit = false ∧ (c = '.' → literal.fraction ≠ none ∨ literal.exponent ≠ none) := by
  constructor
  · intro hends
    refine ⟨hends.noDigit c rfl, ?_⟩
    rintro rfl
    by_cases hfraction : literal.fraction = none
    · exact .inr fun hexponent => hends.noPoint hfraction hexponent rfl
    · exact .inl hfraction
  · rintro ⟨hdigit, hpoint⟩
    refine ⟨noDigit_cons hdigit rest, ?_, fun _ => ?_⟩
    · intro hfraction hexponent hhead
      cases hhead
      rcases hpoint rfl with h | h
      · exact h hfraction
      · exact h hexponent
    · rw [Exponent.read_of_ne he hE]

end Literal

namespace Argument

variable {previous token : Argument Literal} {gap rest : List Char}

/-- Every token ends before a gap that is not empty, and at the end of the text. -/
theorem ends_gap (previous : Argument Literal) (hgap : ∀ c ∈ gap, isGap c = true)
    (hrest : gap = [] → rest = []) : previous.Ends (gap ++ rest) := by
  cases previous with
  | flag value => trivial
  | number literal =>
    cases gap with
    | nil =>
      rw [hrest rfl]
      exact literal.ends_nil
    | cons c gap =>
      obtain ⟨hdigit, hpoint, he, hE⟩ := of_isGap (hgap c (List.mem_cons_self ..))
      exact (Literal.ends_cons_iff he hE _).2 ⟨hdigit, fun h => absurd h hpoint⟩

/-- A token ends right before another just if the other may touch it. -/
theorem ends_text_append_iff (h : token.Valid) :
    previous.Ends (token.text ++ rest) ↔ previous.MayTouch token := by
  cases previous with
  | flag value => exact Iff.rfl
  | number literal =>
    obtain ⟨c, behind, htext, hc⟩ := exists_text_eq_cons h
    have hmark : c ≠ 'e' ∧ c ≠ 'E' := by
      rcases hc with hc | rfl | ⟨sign, rfl⟩
      · constructor <;> (rintro rfl; cases hc)
      · decide
      · cases sign <;> decide
    simp only [Ends, MayTouch, htext, List.cons_append, Literal.ends_cons_iff hmark.1 hmark.2,
      List.head?_cons, Option.some.injEq]
    rcases hc with hc | rfl | ⟨sign, rfl⟩
    · have hsign : ∀ sign : Sign, c ≠ sign.char := by
        rintro sign rfl
        cases sign <;> cases hc
      have hpoint : c ≠ '.' := by
        rintro rfl
        cases hc
      simp [hc, hsign, hpoint]
    · have hsign : ∀ sign : Sign, '.' ≠ sign.char := by
        intro sign
        cases sign <;> decide
      simp [hsign]
    · have hdigit : sign.char.isDigit = false := by cases sign <;> rfl
      have hpoint : sign.char ≠ '.' := by cases sign <;> decide
      simp only [hdigit, hpoint, false_implies, and_true, true_iff]
      exact .inl ⟨sign, rfl⟩

/-- A token ends before another just if there is a gap between them or the other may touch it. -/
theorem ends_gap_append_iff (hgap : ∀ c ∈ gap, isGap c = true) (h : token.Valid) :
    previous.Ends (gap ++ (token.text ++ rest)) ↔ (gap = [] → previous.MayTouch token) := by
  by_cases hnil : gap = []
  · subst hnil
    simp only [List.nil_append, ends_text_append_iff h, forall_const]
  · simp only [hnil, false_implies, iff_true]
    exact ends_gap previous hgap fun h => absurd h hnil

end Argument

/-! ## Texts of tokens -/

/-- A text begins with tokens: in front of each is a gap, each is ended by what stands behind it, and
behind the last is the rest. -/
inductive BeginsWithTokens : List (Argument Literal) → List Char → List Char → Prop where
  /-- There are no tokens. -/
  | nil (rest : List Char) : BeginsWithTokens [] rest rest
  /-- One more token is in front. -/
  | cons {token : Argument Literal} {tokens : List (Argument Literal)}
      {gap behind rest : List Char} : (∀ c ∈ gap, isGap c = true) → token.Valid →
      token.Ends behind → BeginsWithTokens tokens behind rest →
      BeginsWithTokens (token :: tokens) (gap ++ (token.text ++ behind)) rest

/-- A text is tokens with gaps around and between them, behind another token if there is one. A gap
between two tokens may be empty only where the second may touch the first. -/
inductive IsTokenText : Option (Argument Literal) → List (Argument Literal) → List Char → Prop where
  /-- Behind the last token there is only a gap. -/
  | nil {previous : Option (Argument Literal)} {gap : List Char} : (∀ c ∈ gap, isGap c = true) →
      IsTokenText previous [] gap
  /-- One more token is in front. -/
  | cons {previous : Option (Argument Literal)} {token : Argument Literal}
      {tokens : List (Argument Literal)} {gap rest : List Char} : (∀ c ∈ gap, isGap c = true) →
      (gap = [] → ∀ first ∈ previous, first.MayTouch token) → token.Valid →
      IsTokenText (some token) tokens rest →
      IsTokenText previous (token :: tokens) (gap ++ (token.text ++ rest))

/-- A token that may touch the one before it may stand right behind it. -/
theorem IsTokenText.touch {first token : Argument Literal} {tokens : List (Argument Literal)}
    {rest : List Char} (htouch : first.MayTouch token) (hvalid : token.Valid)
    (hlater : IsTokenText (some token) tokens rest) :
    IsTokenText (some first) (token :: tokens) (token.text ++ rest) := by
  rw [← List.nil_append (token.text ++ rest)]
  refine .cons (List.forall_mem_nil _) ?_ hvalid hlater
  rintro - _ ⟨⟩
  exact htouch

/-- Where the gaps are long enough, every token is ended by what stands behind it. -/
theorem isTokenText_iff {previous : Option (Argument Literal)} {tokens : List (Argument Literal)}
    {text : List Char} :
    IsTokenText previous tokens text ↔
      (∃ gap, (∀ c ∈ gap, isGap c = true) ∧ BeginsWithTokens tokens text gap) ∧
        ∀ first ∈ previous, first.Ends text := by
  constructor
  · intro h
    induction h with
    | nil hgap =>
      refine ⟨⟨_, hgap, .nil _⟩, ?_⟩
      intro first _
      have hends : first.Ends (_ ++ []) := first.ends_gap hgap fun _ => rfl
      rwa [List.append_nil] at hends
    | cons hgap htouch hvalid _ ih =>
      obtain ⟨⟨last, hlast, htokens⟩, hends⟩ := ih
      refine ⟨⟨last, hlast, .cons hgap hvalid (hends _ rfl) htokens⟩, ?_⟩
      intro first hfirst
      exact (Argument.ends_gap_append_iff hgap hvalid).2 fun hnil => htouch hnil first hfirst
  · rintro ⟨⟨last, hlast, htokens⟩, hends⟩
    induction htokens generalizing previous with
    | nil rest => exact .nil hlast
    | @cons token tokens gap behind rest hgap hvalid hown htokens ih =>
      have htouch : gap = [] → ∀ first ∈ previous, first.MayTouch token := by
        intro hnil first hfirst
        exact (Argument.ends_gap_append_iff hgap hvalid).1 (hends first hfirst) hnil
      refine .cons hgap htouch hvalid (ih ?_ hlast)
      rintro _ ⟨⟩
      exact hown

/-- Without a token before, the gap in front is free, and only the gap at the end is left to state. -/
theorem isTokenText_none_iff {tokens : List (Argument Literal)} {text : List Char} :
    IsTokenText none tokens text ↔
      ∃ gap, (∀ c ∈ gap, isGap c = true) ∧ BeginsWithTokens tokens text gap := by
  rw [isTokenText_iff]
  exact and_iff_left nofun

namespace BeginsWithTokens

variable {first second tokens : List (Argument Literal)} {text rest : List Char}

theorem append_iff :
    BeginsWithTokens (first ++ second) text rest ↔
      ∃ between, BeginsWithTokens first text between ∧ BeginsWithTokens second between rest := by
  induction first generalizing text with
  | nil =>
    constructor
    · intro h
      exact ⟨text, .nil text, h⟩
    · rintro ⟨between, hfirst, hsecond⟩
      cases hfirst
      exact hsecond
  | cons token first ih =>
    constructor
    · intro h
      cases h with
      | cons hgap hvalid hends htokens =>
        obtain ⟨between, hfirst, hsecond⟩ := ih.1 htokens
        exact ⟨between, .cons hgap hvalid hends hfirst, hsecond⟩
    · rintro ⟨between, hfirst, hsecond⟩
      cases hfirst with
      | cons hgap hvalid hends htokens =>
        exact .cons hgap hvalid hends (ih.2 ⟨between, htokens, hsecond⟩)

/-- The first token stands behind the gap in front. -/
theorem cons_iff {token : Argument Literal} :
    BeginsWithTokens (token :: tokens) text rest ↔
      token.Valid ∧ ∃ behind, token.Ends behind ∧ skipGaps text = token.text ++ behind ∧
        BeginsWithTokens tokens behind rest := by
  constructor
  · intro h
    cases h with
    | cons hgap hvalid hends htokens =>
      exact ⟨hvalid, _, hends, skipGaps_append hgap (Argument.isGap_head_text hvalid), htokens⟩
  · rintro ⟨hvalid, behind, hends, hskip, htokens⟩
    obtain ⟨gap, hgap, htext⟩ := exists_gap_append_skipGaps text
    rw [htext, hskip]
    exact .cons hgap hvalid hends htokens

end BeginsWithTokens

/-! ## The characters of tokens -/

/-- A character that may stand in the tokens of arguments and the gaps between them. -/
def isTokenChar (c : Char) : Bool :=
  isGap c || c.isDigit || c == '.' || c == '+' || c == '-' || c == 'e' || c == 'E'

theorem isTokenChar_of_isDigit {c : Char} (h : c.isDigit = true) : isTokenChar c = true := by
  simp [isTokenChar, h]

theorem isTokenChar_of_mem_sign {sign : Option Sign} {c : Char} (h : c ∈ Sign.text? sign) :
    isTokenChar c = true := by
  cases sign with
  | none => cases h
  | some sign =>
    cases List.mem_singleton.1 h
    cases sign <;> rfl

theorem Literal.isTokenChar_of_mem {literal : Literal} (hvalid : literal.Valid) {c : Char}
    (h : c ∈ literal.text) : isTokenChar c = true := by
  obtain ⟨sign, whole, fraction, exponent⟩ := literal
  obtain ⟨hwhole, hfraction, -, hexponent⟩ := hvalid
  simp only [Literal.text, List.mem_append] at h
  rcases h with ((h | h) | h) | h
  · exact isTokenChar_of_mem_sign h
  · exact isTokenChar_of_isDigit (hwhole c h)
  · cases fraction with
    | none => cases h
    | some digits =>
      rcases List.mem_cons.1 h with rfl | h
      · rfl
      · exact isTokenChar_of_isDigit (hfraction c h)
  · cases exponent with
    | none => cases h
    | some exponent =>
      obtain ⟨hdigits, -⟩ := hexponent exponent rfl
      obtain ⟨capital, sign, digits⟩ := exponent
      simp only [Exponent.text?, Exponent.text, Option.map_some, Option.getD_some, List.cons_append,
        List.mem_cons, List.mem_append] at h
      rcases h with rfl | h | h
      · cases capital <;> rfl
      · exact isTokenChar_of_mem_sign h
      · exact isTokenChar_of_isDigit (hdigits c h)

theorem Argument.isTokenChar_of_mem {token : Argument Literal} (hvalid : token.Valid) {c : Char}
    (h : c ∈ token.text) : isTokenChar c = true := by
  cases token with
  | number literal => exact Literal.isTokenChar_of_mem hvalid h
  | flag value =>
    cases List.mem_singleton.1 h
    cases value <;> rfl

/-- Tokens and the gaps between them are made of these characters. -/
theorem IsTokenText.isTokenChar_of_mem {previous : Option (Argument Literal)}
    {tokens : List (Argument Literal)} {text : List Char} (h : IsTokenText previous tokens text)
    {c : Char} (hc : c ∈ text) : isTokenChar c = true := by
  have hgapChar : ∀ {c : Char}, isGap c = true → isTokenChar c = true := by
    intro c hc
    simp [isTokenChar, hc]
  induction h with
  | nil hgap => exact hgapChar (hgap c hc)
  | cons hgap _ hvalid _ ih =>
    rcases List.mem_append.1 hc with hc | hc
    · exact hgapChar (hgap c hc)
    · rcases List.mem_append.1 hc with hc | hc
      · exact Argument.isTokenChar_of_mem hvalid hc
      · exact ih hc

/-! ## Reading tokens -/

variable {α : Type} [Scalar α]

theorem readFlag_eq_ok_iff {text rest : List Char} {value : Bool} :
    readFlag text = .ok (value, rest) ↔ text = (if value then '1' else '0') :: rest := by
  constructor
  · intro h
    unfold readFlag at h
    split at h
    · cases h
      rfl
    · cases h
      rfl
    · cases h
  · rintro rfl
    cases value <;> rfl

/-- An argument is read just if the text begins with a token of the slot, whose value it is, and which
ends there. -/
theorem Slot.read_eq_ok_iff {slot : Slot} {text rest : List Char} {argument : Argument α} :
    slot.read text = .ok (argument, rest) ↔
      ∃ token : Argument Literal, token.slot = slot ∧ token.map Literal.value = argument ∧
        token.Valid ∧ token.Ends rest ∧ text = token.text ++ rest := by
  cases slot with
  | number =>
    simp only [Slot.read, readNumber]
    constructor
    · intro h
      cases hread : Literal.read? text with
      | none =>
        rw [hread] at h
        cases h
      | some found =>
        obtain ⟨literal, behind⟩ := found
        rw [hread] at h
        cases h
        obtain ⟨hvalid, hends, htext⟩ := Literal.read?_eq_some_iff.1 hread
        exact ⟨.number literal, rfl, rfl, hvalid, hends, htext⟩
    · rintro ⟨token, hslot, rfl, hvalid, hends, htext⟩
      cases token with
      | flag value => cases hslot
      | number literal =>
        rw [Literal.read?_eq_some_iff.2 ⟨hvalid, hends, htext⟩]
        rfl
  | flag =>
    simp only [Slot.read]
    constructor
    · intro h
      cases hread : readFlag text with
      | error flaw =>
        rw [hread] at h
        cases h
      | ok found =>
        obtain ⟨value, behind⟩ := found
        rw [hread] at h
        cases h
        exact ⟨.flag value, rfl, rfl, trivial, trivial, readFlag_eq_ok_iff.1 hread⟩
    · rintro ⟨token, hslot, rfl, -, -, htext⟩
      cases token with
      | number literal => cases hslot
      | flag value =>
        rw [readFlag_eq_ok_iff.2 htext]
        rfl

/-- The argument of the first slot stands in front of the others. -/
theorem readGroup_cons_eq_ok_iff {slot : Slot} {slots : List Slot} {text rest : List Char}
    {first : Argument α} {later : List (Argument α)} :
    readGroup (slot :: slots) text = .ok (first :: later, rest) ↔
      skipGaps text ≠ [] ∧ ∃ behind, slot.read (skipGaps text) = .ok (first, behind) ∧
        readGroup slots behind = .ok (later, rest) := by
  rw [readGroup]
  cases skipGaps text with
  | nil => simp
  | cons c further =>
    simp only [ne_eq, reduceCtorEq, not_false_eq_true, true_and]
    cases slot.read (α := α) (c :: further) with
    | error flaw => simp
    | ok found =>
      obtain ⟨argument, behind⟩ := found
      simp only
      cases hgroup : readGroup (α := α) slots behind with
      | error flaw => simp [hgroup]
      | ok found => simp [hgroup, Prod.ext_iff, and_assoc]

/-- A complete group is read just if the text begins with tokens of the slots, whose values it holds. -/
theorem readGroup_eq_ok_iff {slots : List Slot} {text rest : List Char}
    {arguments : List (Argument α)} (hlength : arguments.length = slots.length) :
    readGroup slots text = .ok (arguments, rest) ↔
      ∃ tokens, tokens.map Argument.slot = slots ∧
        tokens.map (Argument.map Literal.value) = arguments ∧ BeginsWithTokens tokens text rest := by
  induction slots generalizing text arguments with
  | nil =>
    obtain rfl : arguments = [] := List.eq_nil_of_length_eq_zero hlength
    constructor
    · intro h
      cases h
      exact ⟨[], rfl, rfl, .nil _⟩
    · rintro ⟨tokens, hslots, -, htokens⟩
      obtain rfl : tokens = [] := List.map_eq_nil_iff.1 hslots
      cases htokens
      rfl
  | cons slot slots ih =>
    obtain ⟨argument, arguments, rfl⟩ : ∃ argument later, arguments = argument :: later :=
      List.exists_cons_of_length_eq_add_one hlength
    have hlater : arguments.length = slots.length := Nat.succ.inj hlength
    rw [readGroup_cons_eq_ok_iff]
    constructor
    · rintro ⟨-, behind, hread, hgroup⟩
      obtain ⟨token, rfl, rfl, hvalid, hends, htext⟩ := Slot.read_eq_ok_iff.1 hread
      obtain ⟨tokens, rfl, rfl, htokens⟩ := (ih hlater).1 hgroup
      exact ⟨token :: tokens, rfl, rfl,
        BeginsWithTokens.cons_iff.2 ⟨hvalid, behind, hends, htext, htokens⟩⟩
    · rintro ⟨tokens, hslots, harguments, htokens⟩
      cases tokens with
      | nil => cases hslots
      | cons token tokens =>
        obtain ⟨hslot, hslots⟩ := List.cons.inj hslots
        obtain ⟨hargument, harguments⟩ := List.cons.inj harguments
        obtain ⟨hvalid, behind, hends, hskip, htokens⟩ := BeginsWithTokens.cons_iff.1 htokens
        refine ⟨?_, behind, ?_, (ih hlater).2 ⟨tokens, hslots, harguments, htokens⟩⟩
        · obtain ⟨c, further, htext, -⟩ := Argument.exists_text_eq_cons hvalid
          simp [hskip, htext]
        · exact Slot.read_eq_ok_iff.2 ⟨token, hslot, hargument, hvalid, hends, hskip⟩

/-- At the end of the text no token is left. -/
theorem BeginsWithTokens.eq_nil_of_skipGaps {tokens : List (Argument Literal)}
    {text rest : List Char} (h : BeginsWithTokens tokens text rest) (hskip : skipGaps text = []) :
    tokens = [] := by
  cases tokens with
  | nil => rfl
  | cons token tokens =>
    obtain ⟨hvalid, behind, -, htext, -⟩ := cons_iff.1 h
    obtain ⟨c, later, hcons, -⟩ := Argument.exists_text_eq_cons hvalid
    rw [hskip, hcons] at htext
    cases htext

section

variable {slot : Slot} {slots : List Slot} {text : List Char}

/-- In a text that is not a gap, the first group stands in front of the others. -/
theorem readGroups_eq_ok_iff_of_ne (h : skipGaps text ≠ []) {groups : List (List (Argument α))} :
    readGroups (slot :: slots) text = .ok groups ↔
      ∃ group rest later, readGroup (slot :: slots) text = .ok (group, rest) ∧
        readGroups (slot :: slots) rest = .ok later ∧ groups = group :: later := by
  obtain ⟨c, behind, hskip⟩ := List.exists_cons_of_ne_nil h
  rw [readGroups_of_cons hskip]
  cases readGroup (α := α) (slot :: slots) text with
  | error flaw => simp [Except.bind]
  | ok found =>
    obtain ⟨group, rest⟩ := found
    cases hlater : readGroups (α := α) (slot :: slots) rest with
    | error flaw => simp [Except.bind, Except.map, hlater]
    | ok later => simp [Except.bind, Except.map, hlater, eq_comm, and_assoc]

/-- There are no groups just if the text is a gap. -/
theorem readGroups_eq_ok_nil_iff :
    readGroups (α := α) (slot :: slots) text = .ok [] ↔ ∀ c ∈ text, isGap c = true := by
  rw [← skipGaps_eq_nil_iff]
  by_cases hskip : skipGaps text = []
  · exact iff_of_true (readGroups_of_nil hskip) hskip
  · simp [readGroups_eq_ok_iff_of_ne hskip, hskip]

theorem readGroups_eq_ok_cons_iff {group : List (Argument α)} {groups : List (List (Argument α))} :
    readGroups (slot :: slots) text = .ok (group :: groups) ↔
      skipGaps text ≠ [] ∧ ∃ rest, readGroup (slot :: slots) text = .ok (group, rest) ∧
        readGroups (slot :: slots) rest = .ok groups := by
  by_cases hskip : skipGaps text = []
  · simp [readGroups_of_nil hskip, hskip]
  · rw [readGroups_eq_ok_iff_of_ne hskip, and_iff_right hskip]
    constructor
    · rintro ⟨_, rest, _, hgroup, hlater, ⟨⟩⟩
      exact ⟨rest, hgroup, hlater⟩
    · rintro ⟨rest, hgroup, hlater⟩
      exact ⟨group, rest, groups, hgroup, hlater, rfl⟩

end

/-- Groups are read, all of them complete, just if the text is the tokens of groups of the slots, whose
values they hold. -/
theorem readGroups_eq_ok_iff {slots : List Slot} (hslots : slots ≠ []) {text : List Char}
    {groups : List (List (Argument α))} (hlength : ∀ group ∈ groups, group.length = slots.length) :
    readGroups slots text = .ok groups ↔
      ∃ written : List (List (Argument Literal)),
        (∀ tokens ∈ written, tokens.map Argument.slot = slots) ∧
        written.map (List.map (Argument.map Literal.value)) = groups ∧
        IsTokenText none written.flatten text := by
  simp only [isTokenText_none_iff]
  obtain ⟨slot, slots, rfl⟩ := List.exists_cons_of_ne_nil hslots
  induction groups generalizing text with
  | nil =>
    rw [readGroups_eq_ok_nil_iff]
    constructor
    · intro hgap
      exact ⟨[], nofun, rfl, text, hgap, .nil text⟩
    · rintro ⟨written, -, hgroups, gap, hgap, htokens⟩
      obtain rfl : written = [] := List.map_eq_nil_iff.1 hgroups
      cases htokens
      exact hgap
  | cons group groups ih =>
    have hgroupLength := hlength group (List.mem_cons_self ..)
    have hlaterLength : ∀ group ∈ groups, group.length = (slot :: slots).length :=
      fun group hgroup => hlength group (List.mem_cons_of_mem _ hgroup)
    rw [readGroups_eq_ok_cons_iff]
    constructor
    · rintro ⟨-, rest, hgroup, hlater⟩
      obtain ⟨tokens, htokens, hvalues, hown⟩ := (readGroup_eq_ok_iff hgroupLength).1 hgroup
      obtain ⟨written, hwritten, hgroups, gap, hgap, hrest⟩ := (ih hlaterLength).1 hlater
      refine ⟨tokens :: written, ?_, ?_, gap, hgap, ?_⟩
      · rintro other (_ | ⟨_, hother⟩)
        · exact htokens
        · exact hwritten other hother
      · rw [List.map_cons, hvalues, hgroups]
      · rw [List.flatten_cons]
        exact BeginsWithTokens.append_iff.2 ⟨rest, hown, hrest⟩
    · rintro ⟨written, hwritten, hgroups, gap, hgap, htokens⟩
      cases written with
      | nil => cases hgroups
      | cons tokens written =>
        obtain ⟨hvalues, hgroups⟩ := List.cons.inj hgroups
        have hown := hwritten tokens (List.mem_cons_self ..)
        have hothers : ∀ other ∈ written, other.map Argument.slot = slot :: slots :=
          fun other hother => hwritten other (List.mem_cons_of_mem _ hother)
        rw [List.flatten_cons] at htokens
        obtain ⟨rest, hfirst, hrest⟩ := BeginsWithTokens.append_iff.1 htokens
        refine ⟨?_, rest, (readGroup_eq_ok_iff hgroupLength).2 ⟨tokens, hown, hvalues, hfirst⟩,
          (ih hlaterLength).2 ⟨written, hothers, hgroups, gap, hgap, hrest⟩⟩
        intro hskip
        rw [hfirst.eq_nil_of_skipGaps hskip] at hown
        cases hown

end PenPlot
