import PenPlot.Number.Length
import PenPlot.Proofs.Arguments
import PenPlot.Scalar.Machine

/-!
# Lengths as they are written

A length begins with a number literal, and what follows the literal says the unit. Where the one ends
and the other begins is settled by taking the longest literal there is: the suffix of `2em` is `em`, since
no exponent follows the mark, and that of `1.in` is `in`, since the point belongs to the number. No unit
begins with a character that could prolong a literal, so a literal is always read whole before its unit.
`readLength_eq_iff` says what every text comes to, and with which warning.
-/

namespace PenPlot

open Text

/-! ## The longest literal -/

/-- Where an exponent stands, one is read, whether it ends there or not. -/
theorem Exponent.read_ne_none {exponent : Exponent} (hvalid : exponent.Valid) (rest : List Char) :
    (read (exponent.text ++ rest)).1 ≠ none := by
  cases hread : readDigits rest with
  | mk more behind =>
  obtain ⟨hmore, hbehind, rfl⟩ := readDigits_eq_iff.1 hread
  obtain ⟨capital, sign, digits⟩ := exponent
  obtain ⟨hdigits, hne⟩ := hvalid
  -- The exponent that is read has all the digits that follow.
  have hlonger : read ((⟨capital, sign, digits ++ more⟩ : Exponent).text ++ behind) =
      (some ⟨capital, sign, digits ++ more⟩, behind) := by
    refine read_eq_some_iff.2 ⟨⟨?_, ?_⟩, hbehind, rfl⟩
    · exact fun c hc => (List.mem_append.1 hc).elim (hdigits c) (hmore c)
    · exact fun hnil => hne (List.append_eq_nil_iff.1 hnil).1
  have htext : (⟨capital, sign, digits ++ more⟩ : Exponent).text ++ behind =
      (⟨capital, sign, digits⟩ : Exponent).text ++ (more ++ behind) := by
    simp [Exponent.text]
  rw [← htext, hlonger]
  exact Option.some_ne_none _

namespace Literal

/-- The literal is the longest that stands at the front of a text, and a rest follows it. -/
structure IsLongest (literal : Literal) (text rest : List Char) : Prop where
  /-- The literal keeps to the grammar. -/
  valid : literal.Valid
  /-- It stands at the front of the text. -/
  text_eq : text = literal.text ++ rest
  /-- No other literal at the front of the text takes more of it. -/
  longest : ∀ other : Literal, other.Valid → other.text <+: text →
    other.text.length ≤ literal.text.length

variable {literal other : Literal} {text rest : List Char}

/-- A literal that ends before a text ends before every beginning of the text. -/
theorem Ends.of_append {more later : List Char} (h : literal.Ends (more ++ later)) :
    literal.Ends more := by
  have hhead : ∀ c ∈ more.head?, c ∈ (more ++ later).head? := by
    rintro c hc
    obtain ⟨behind, rfl⟩ := List.head?_eq_some_iff.1 hc
    rfl
  refine ⟨fun c hc => h.noDigit c (hhead c hc), ?_, ?_⟩
  · intro hfraction hexponent hpoint
    exact h.noPoint hfraction hexponent (hhead '.' hpoint)
  · intro hexponent
    cases hread : Exponent.read more with
    | mk found behind =>
    cases found with
    | none => rfl
    | some exponent =>
      obtain ⟨hvalid, -, rfl⟩ := Exponent.read_eq_some_iff.1 hread
      have hnone := h.noExponent hexponent
      rw [List.append_assoc] at hnone
      exact absurd hnone (Exponent.read_ne_none hvalid _)

theorem read?_text (hvalid : literal.Valid) : read? literal.text = some (literal, []) := by
  have hread := read?_text_append hvalid literal.ends_nil
  rwa [List.append_nil] at hread

theorem text_injective (hvalid : literal.Valid) (hother : other.Valid)
    (h : literal.text = other.text) : literal = other := by
  have hread := read?_text hvalid
  rw [h, read?_text hother] at hread
  cases hread
  rfl

/-- What is read is the longest literal at the front of the text. -/
theorem read?_eq_some_iff_isLongest :
    read? text = some (literal, rest) ↔ literal.IsLongest text rest := by
  have hlongest : ∀ {literal : Literal} {rest : List Char},
      read? text = some (literal, rest) → literal.IsLongest text rest := by
    intro literal rest hread
    obtain ⟨hvalid, hends, rfl⟩ := read?_eq_some_iff.1 hread
    refine ⟨hvalid, rfl, ?_⟩
    rintro other hother ⟨later, hlater⟩
    -- A longer one would be read whole, and also as this literal with something behind it.
    rcases List.append_eq_append_iff.1 hlater with ⟨more, htext, -⟩ | ⟨more, htext, rfl⟩
    · rw [htext, List.length_append]
      exact Nat.le_add_right _ _
    · have hwhole := read?_text hother
      rw [htext, read?_text_append hvalid hends.of_append] at hwhole
      cases hwhole
      rw [htext, List.append_nil]
  refine ⟨hlongest, ?_⟩
  rintro ⟨hvalid, rfl, hmost⟩
  cases hread : read? (literal.text ++ rest) with
  | none => exact absurd hread (read?_ne_none hvalid rest)
  | some found =>
    obtain ⟨found, behind⟩ := found
    obtain ⟨hfound, htext, hmore⟩ := hlongest hread
    have hlength : literal.text.length = found.text.length :=
      Nat.le_antisymm (hmore literal hvalid (List.prefix_append _ _))
        (hmost found hfound ⟨behind, htext.symm⟩)
    obtain ⟨hsame, rfl⟩ := List.append_inj htext hlength
    rw [text_injective hvalid hfound hsame]

/-- A text that begins with a literal is not empty. -/
theorem IsLongest.ne_nil (h : literal.IsLongest text rest) : text ≠ [] := by
  rintro rfl
  have hlt := length_rest_lt (read?_eq_some_iff_isLongest.2 h)
  exact Nat.not_lt_zero _ hlt

/-- A literal ends before a character that is no digit, no point and no exponent mark. -/
theorem ends_of_head (literal : Literal)
    (h : ∀ c ∈ rest.head?, c.isDigit = false ∧ c ≠ '.' ∧ c ≠ 'e' ∧ c ≠ 'E') : literal.Ends rest := by
  cases rest with
  | nil => exact literal.ends_nil
  | cons c rest =>
    obtain ⟨hdigit, hpoint, he, hE⟩ := h c rfl
    exact (ends_cons_iff he hE rest).2 ⟨hdigit, fun hc => absurd hc hpoint⟩

end Literal

/-! ## Blanks around a text -/

namespace Text

/-- A blank does not go on with a number. -/
theorem of_isBlank {c : Char} (h : isBlank c = true) :
    c.isDigit = false ∧ c ≠ '.' ∧ c ≠ 'e' ∧ c ≠ 'E' := by
  refine ⟨?_, ?_, ?_, ?_⟩
  · cases hdigit : c.isDigit with
    | false => rfl
    | true => rw [isBlank_of_isDigit hdigit] at h; cases h
  all_goals
    rintro rfl
    revert h
    decide

/-- A literal begins with no blank. -/
theorem isBlank_head_text {literal : Literal} (hvalid : literal.Valid) {rest : List Char} :
    ∀ c ∈ (literal.text ++ rest).head?, isBlank c = false := by
  obtain ⟨c, behind, htext, hc⟩ :
      ∃ c behind, literal.text = c :: behind ∧
        (c.isDigit = true ∨ c = '.' ∨ ∃ sign : Sign, c = sign.char) :=
    Argument.exists_text_eq_cons (show (Argument.number literal).Valid from hvalid)
  rw [htext]
  rintro d ⟨⟩
  rcases hc with hc | rfl | ⟨sign, rfl⟩
  · exact isBlank_of_isDigit hc
  · decide
  · cases sign <;> decide

theorem trimEnd_append {text blanks : List Char} (hblanks : ∀ c ∈ blanks, isBlank c = true)
    (hlast : ∀ c ∈ text.getLast?, isBlank c = false) : trimEnd (text ++ blanks) = text := by
  have hreverse : ∀ c ∈ blanks.reverse, isBlank c = true :=
    fun c hc => hblanks c (List.mem_reverse.1 hc)
  rw [trimEnd, List.reverse_append, dropWhile_append_of_head hreverse, List.reverse_reverse]
  rwa [List.head?_reverse]

/-- The blanks around a text that neither begins nor ends with one are what is trimmed. -/
theorem trim_append {before text after : List Char} (hne : text ≠ [])
    (hbefore : ∀ c ∈ before, isBlank c = true) (hafter : ∀ c ∈ after, isBlank c = true)
    (hhead : ∀ c ∈ text.head?, isBlank c = false)
    (hlast : ∀ c ∈ text.getLast?, isBlank c = false) : trim (before ++ (text ++ after)) = text := by
  have hstart : trimStart (before ++ (text ++ after)) = text ++ after := by
    refine dropWhile_append_of_head hbefore ?_
    obtain ⟨c, later, rfl⟩ := List.exists_cons_of_ne_nil hne
    exact hhead
  rw [trim, hstart, trimEnd_append hafter hlast]

end Text

/-! ## Units -/

namespace LengthUnit

variable {text : List Char} {unit : LengthUnit}

/-- The unit that a text writes is the one whose suffix it is. -/
theorem ofSuffix?_eq_some_iff : ofSuffix? text = some unit ↔ text = unit.suffix.toList := by
  constructor
  · intro h
    have hsuffix := List.find?_some h
    exact (beq_iff_eq.1 hsuffix).symm
  · rintro rfl
    cases unit <;> rfl

theorem ofSuffix?_eq_none_iff :
    ofSuffix? text = none ↔ ∀ unit : LengthUnit, text ≠ unit.suffix.toList := by
  rw [Option.eq_none_iff_forall_ne_some]
  exact forall_congr' fun unit => not_congr ofSuffix?_eq_some_iff

/-- A unit is written without blanks at its ends, and its first letter prolongs no literal. -/
theorem suffix_ends (unit : LengthUnit) :
    unit.suffix.toList ≠ [] ∧
      (∀ c ∈ unit.suffix.toList.head?,
        isBlank c = false ∧ c.isDigit = false ∧ c ≠ '.' ∧ c ≠ 'e' ∧ c ≠ 'E') ∧
      ∀ c ∈ unit.suffix.toList.getLast?, isBlank c = false := by
  cases unit <;> simp [suffix, isBlank, blankRanges]

end LengthUnit

/-! ## Lengths -/

section

variable {α : Type} [Scalar α] {text : List Char} {default value : α}
  {warnings : List (LengthWarning α)}

/-- What a text without blanks around it comes to as a length, and the warnings about it. -/
inductive IsLength (text : List Char) (default : α) : α → List (LengthWarning α) → Prop where
  /-- Nothing is written. -/
  | blank : text = [] → IsLength text default default []
  /-- The text does not begin with a literal. -/
  | notNumber : text ≠ [] → (∀ literal : Literal, literal.Valid → ¬ literal.text <+: text) →
      IsLength text default default [.notNumber text default]
  /-- Nothing but blanks follows the longest literal. -/
  | plain {literal : Literal} {rest : List Char} : literal.IsLongest text rest → trim rest = [] →
      IsLength text default literal.value []
  /-- A unit follows the longest literal. -/
  | inUnit {literal : Literal} {rest : List Char} (unit : LengthUnit) :
      literal.IsLongest text rest → trim rest = unit.suffix.toList →
      IsLength text default (literal.value * unit.factor) []
  /-- Something else follows the longest literal. -/
  | unknownUnit {literal : Literal} {rest : List Char} : literal.IsLongest text rest →
      trim rest ≠ [] → (∀ unit : LengthUnit, trim rest ≠ unit.suffix.toList) →
      IsLength text default literal.value [.unknownUnit (trim rest) text]

/-- What is read of a text is what it comes to without the blanks around it. -/
theorem isLength_readLength (text : List Char) (default : α) :
    IsLength (trim text) default (readLength text default).1 (readLength text default).2 := by
  rw [readLength]
  by_cases hblank : trim text = []
  · rw [if_pos (by rw [hblank]; rfl)]
    exact .blank hblank
  rw [if_neg (by rwa [List.isEmpty_iff])]
  cases hread : Literal.read? (trim text) with
  | none =>
    refine .notNumber hblank ?_
    rintro literal hvalid ⟨rest, hrest⟩
    exact Literal.read?_eq_none_iff.1 hread literal hvalid rest hrest.symm
  | some found =>
    obtain ⟨literal, rest⟩ := found
    have hlongest := Literal.read?_eq_some_iff_isLongest.1 hread
    simp only
    by_cases hplain : trim rest = []
    · rw [if_pos (by rw [hplain]; rfl)]
      exact .plain hlongest hplain
    rw [if_neg (by rwa [List.isEmpty_iff])]
    cases hunit : LengthUnit.ofSuffix? (trim rest) with
    | none => exact .unknownUnit hlongest hplain (LengthUnit.ofSuffix?_eq_none_iff.1 hunit)
    | some unit => exact .inUnit unit hlongest (LengthUnit.ofSuffix?_eq_some_iff.1 hunit)

/-- What a text comes to without the blanks around it is what is read of it. -/
theorem readLength_of_isLength (h : IsLength (trim text) default value warnings) :
    readLength text default = (value, warnings) := by
  cases h with
  | blank hblank => simp only [readLength, hblank, List.isEmpty_nil, if_true]
  | notNumber hne hnone =>
    have hread : Literal.read? (trim text) = none := by
      rw [Literal.read?_eq_none_iff]
      exact fun literal hvalid rest htext => hnone literal hvalid ⟨rest, htext.symm⟩
    simp only [readLength, List.isEmpty_iff, hne, if_false, hread]
  | plain hlongest hplain =>
    have hne := hlongest.ne_nil
    have hread := Literal.read?_eq_some_iff_isLongest.2 hlongest
    simp only [readLength, List.isEmpty_iff, hne, if_false, hread, hplain, if_true]
  | inUnit unit hlongest hunit =>
    have hne := hlongest.ne_nil
    have hread := Literal.read?_eq_some_iff_isLongest.2 hlongest
    have hsuffix := LengthUnit.ofSuffix?_eq_some_iff.2 hunit
    have hwritten : trim _ ≠ [] := hunit ▸ unit.suffix_ends.1
    simp only [readLength, List.isEmpty_iff, hne, if_false, hread, hwritten, hsuffix]
  | unknownUnit hlongest hwritten hunknown =>
    have hne := hlongest.ne_nil
    have hread := Literal.read?_eq_some_iff_isLongest.2 hlongest
    have hsuffix := LengthUnit.ofSuffix?_eq_none_iff.2 hunknown
    simp only [readLength, List.isEmpty_iff, hne, if_false, hread, hwritten, hsuffix]

/-- A literal with a unit behind it comes to the value of the literal in that unit. -/
theorem isLength_unit {literal : Literal} (hvalid : literal.Valid) (unit : LengthUnit)
    {between : List Char} (hbetween : ∀ c ∈ between, isBlank c = true) (default : α) :
    IsLength (literal.text ++ (between ++ unit.suffix.toList)) default
      (literal.value * unit.factor) [] := by
  obtain ⟨hne, hhead, hlast⟩ := unit.suffix_ends
  have hends : literal.Ends (between ++ unit.suffix.toList) := by
    refine literal.ends_of_head ?_
    cases between with
    | nil => exact fun c hc => (hhead c hc).2
    | cons blank between =>
      rintro c ⟨⟩
      exact of_isBlank (hbetween blank (List.mem_cons_self ..))
  have htrim : trim (between ++ unit.suffix.toList) = unit.suffix.toList := by
    have hnil : ∀ c ∈ ([] : List Char), isBlank c = true := nofun
    have h := trim_append hne hbetween hnil (fun c hc => (hhead c hc).1) hlast
    rwa [List.append_nil] at h
  exact .inUnit unit (Literal.read?_eq_some_iff_isLongest.1 (Literal.read?_text_append hvalid hends))
    htrim

/-- Of a text all that matters is what is left without the blanks around it, and of that the longest
literal at its front. Blank text is the default, and other text without a literal is the default with a
warning. Behind the literal stands nothing, a unit, or something else with a warning. So a literal of any
kind with a unit, with any blanks around and between them, is read as its value in that unit. -/
theorem readLength_eq_iff (text : List Char) (default : α) :
    (∀ value warnings, readLength text default = (value, warnings) ↔
      IsLength (trim text) default value warnings) ∧
    ∀ (literal : Literal) (unit : LengthUnit) (before between after : List Char), literal.Valid →
      (∀ c ∈ before ++ between ++ after, isBlank c = true) →
      readLength (before ++ literal.text ++ between ++ unit.suffix.toList ++ after) default =
        (literal.value * unit.factor, []) := by
  constructor
  · intro value warnings
    refine ⟨?_, readLength_of_isLength⟩
    intro h
    have hread := isLength_readLength text default
    rwa [h] at hread
  · intro literal unit before between after hvalid hblank
    have hbefore : ∀ c ∈ before, isBlank c = true := fun c hc => hblank c (by simp [hc])
    have hbetween : ∀ c ∈ between, isBlank c = true := fun c hc => hblank c (by simp [hc])
    have hafter : ∀ c ∈ after, isBlank c = true := fun c hc => hblank c (by simp [hc])
    refine readLength_of_isLength ?_
    have htrim : trim (before ++ ((literal.text ++ (between ++ unit.suffix.toList)) ++ after)) =
        literal.text ++ (between ++ unit.suffix.toList) := by
      obtain ⟨hne, -, hlast⟩ := unit.suffix_ends
      refine trim_append (by simp [hne]) hbefore hafter (isBlank_head_text hvalid) ?_
      rw [← List.append_assoc, List.getLast?_append, List.getLast?_eq_some_getLast hne, Option.some_or]
      rwa [List.getLast?_eq_some_getLast hne] at hlast
    have htext : before ++ literal.text ++ between ++ unit.suffix.toList ++ after =
        before ++ ((literal.text ++ (between ++ unit.suffix.toList)) ++ after) := by
      simp only [List.append_assoc]
    rw [htext, htrim]
    exact isLength_unit hvalid unit hbetween default

/-- Millimetres with blanks around and between, and an exponent mark that is part of the suffix. -/
theorem readLength_eq_iff_millimetres :
    let literal : Literal := ⟨some .plus, ['2'], some [], some ⟨true, none, ['1']⟩⟩
    literal.Valid ∧ (∀ c ∈ ['\t'] ++ [' ', '\n'] ++ [' '], isBlank c = true) ∧
      readLength "\t+2.E1 \nmm ".toList (7 : Float) = (20 * 3.543307, []) ∧
      readLength " 3e+mm".toList (7 : Float) =
        (3, [.unknownUnit "e+mm".toList "3e+mm".toList]) := by
  intro literal
  have hvalid : literal.Valid := by
    refine ⟨List.forall_mem_singleton.2 rfl, nofun, .inl nofun, ?_⟩
    rintro exponent ⟨⟩
    exact ⟨List.forall_mem_singleton.2 rfl, nofun⟩
  have hblank : ∀ c ∈ ['\t'] ++ [' ', '\n'] ++ [' '], isBlank c = true := by
    simp [isBlank, blankRanges]
  have htext : ['\t'] ++ literal.text ++ [' ', '\n'] ++ LengthUnit.mm.suffix.toList ++ [' '] =
      "\t+2.E1 \nmm ".toList := by decide
  have hvalue : literal.value * LengthUnit.mm.factor = (20 * 3.543307 : Float) := by decide +kernel
  have hwritten :=
    (readLength_eq_iff [] (7 : Float)).2 literal .mm ['\t'] [' ', '\n'] [' '] hvalid hblank
  rw [htext, hvalue] at hwritten
  have hlongest : (⟨none, ['3'], none, none⟩ : Literal).IsLongest "3e+mm".toList "e+mm".toList :=
    Literal.read?_eq_some_iff_isLongest.1 (by decide)
  have hthree : (⟨none, ['3'], none, none⟩ : Literal).value = (3 : Float) := by decide +kernel
  have hunknown : IsLength "3e+mm".toList (7 : Float) (⟨none, ['3'], none, none⟩ : Literal).value
      [.unknownUnit "e+mm".toList "3e+mm".toList] :=
    .unknownUnit hlongest (by decide) (by rintro (_ | _ | _ | _ | _ | _) <;> decide)
  rw [hthree] at hunknown
  have htrim : trim " 3e+mm".toList = "3e+mm".toList := by decide
  refine ⟨hvalid, hblank, hwritten, ((readLength_eq_iff " 3e+mm".toList (7 : Float)).1 _ _).2 ?_⟩
  rwa [htrim]

end

end PenPlot
