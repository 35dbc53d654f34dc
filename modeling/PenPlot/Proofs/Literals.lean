import PenPlot.Number.Literal

/-!
# Where a literal ends

The literal at the front of a text is the longest one. So a text is read as a literal and a rest just if
it is the literal as it is written, with the rest behind it, and the rest does not go on with something
that would belong to the literal: a digit, a point or an exponent. `Literal.read?_eq_some_iff` says so,
and each part of a literal has its own such law.
-/

namespace PenPlot

/-- No digit stands at the front of the text. -/
def NoDigit (text : List Char) : Prop := ∀ c ∈ text.head?, c.isDigit = false

theorem noDigit_nil : NoDigit [] := nofun

theorem noDigit_cons {c : Char} (h : c.isDigit = false) (text : List Char) : NoDigit (c :: text) := by
  rintro d ⟨⟩
  exact h

/-- The digits at the front are all that stand there. -/
theorem readDigits_eq_iff {text digits rest : List Char} :
    readDigits text = (digits, rest) ↔
      (∀ c ∈ digits, c.isDigit = true) ∧ NoDigit rest ∧ text = digits ++ rest := by
  constructor
  · intro h
    obtain ⟨rfl, rfl⟩ := Prod.mk.inj h
    refine ⟨List.all_eq_true.1 List.all_takeWhile, ?_, List.takeWhile_append_dropWhile.symm⟩
    intro c hc
    have hstop := List.head?_dropWhile_not Char.isDigit text
    rw [hc] at hstop
    simpa using hstop
  · rintro ⟨hdigits, hrest, rfl⟩
    have hnone : rest.takeWhile Char.isDigit = [] ∧ rest.dropWhile Char.isDigit = rest := by
      cases rest with
      | nil => exact ⟨rfl, rfl⟩
      | cons c rest =>
        have hc : c.isDigit = false := hrest c rfl
        simp [hc]
    rw [readDigits, List.takeWhile_append_of_pos hdigits, List.dropWhile_append_of_pos hdigits,
      hnone.1, hnone.2, List.append_nil]

namespace Sign

theorem ofChar?_char (sign : Sign) : ofChar? sign.char = some sign := by
  cases sign <;> rfl

/-- The sign at the front of a text is the one that stands there. -/
theorem read_eq_iff {text rest : List Char} {sign : Option Sign} :
    read text = (sign, rest) ↔
      text = text? sign ++ rest ∧ (sign = none → ∀ c ∈ rest.head?, ofChar? c = none) := by
  constructor
  · intro h
    have htext := text?_read text
    rw [h] at htext
    refine ⟨htext.symm, ?_⟩
    rintro rfl c hc
    cases text with
    | nil =>
      cases h
      cases hc
    | cons d text =>
      simp only [read] at h
      cases hd : ofChar? d with
      | none =>
        rw [hd] at h
        cases h
        cases hc
        exact hd
      | some sign =>
        rw [hd] at h
        cases h
  · rintro ⟨rfl, hnone⟩
    cases sign with
    | some sign => simp only [text?, List.singleton_append, read, ofChar?_char]
    | none =>
      cases rest with
      | nil => rfl
      | cons c rest =>
        have hc : ofChar? c = none := hnone rfl c rfl
        simp only [text?, List.nil_append, read, hc]

theorem ofChar?_of_isDigit {c : Char} (h : c.isDigit = true) : ofChar? c = none := by
  unfold ofChar?
  split
  · cases h
  · cases h
  · rfl

end Sign

namespace Exponent

variable {exponent : Exponent} {text rest : List Char}

/-- There are digits in the exponent. -/
def Valid (exponent : Exponent) : Prop :=
  (∀ c ∈ exponent.digits, c.isDigit = true) ∧ exponent.digits ≠ []

theorem readBehind?_eq_some_iff {capital : Bool} :
    readBehind? capital text = some (exponent, rest) ↔
      exponent.Valid ∧ NoDigit rest ∧ exponent.capital = capital ∧
        text = Sign.text? exponent.sign ++ exponent.digits ++ rest := by
  obtain ⟨exponentCapital, sign, digits⟩ := exponent
  constructor
  · intro h
    cases hsign : Sign.read text with
    | mk sign' unsigned =>
    cases hread : readDigits unsigned with
    | mk digits' rest' =>
    simp only [readBehind?, hsign, hread, Option.ite_none_left_eq_some, Option.some.injEq,
      Prod.mk.injEq, Exponent.mk.injEq] at h
    obtain ⟨hne, ⟨rfl, rfl, rfl⟩, rfl⟩ := h
    obtain ⟨htext, -⟩ := Sign.read_eq_iff.1 hsign
    obtain ⟨hdigits, hrest, hunsigned⟩ := readDigits_eq_iff.1 hread
    refine ⟨⟨hdigits, by simpa using hne⟩, hrest, rfl, ?_⟩
    rw [htext, hunsigned, List.append_assoc]
  · rintro ⟨⟨hdigits, hne⟩, hrest, rfl, rfl⟩
    have hsign : Sign.read (Sign.text? sign ++ (digits ++ rest)) = (sign, digits ++ rest) := by
      refine Sign.read_eq_iff.2 ⟨rfl, ?_⟩
      intro _ c hc
      obtain ⟨d, digits, rfl⟩ := List.exists_cons_of_ne_nil hne
      cases hc
      exact Sign.ofChar?_of_isDigit (hdigits c (List.mem_cons_self ..))
    have hread : readDigits (digits ++ rest) = (digits, rest) :=
      readDigits_eq_iff.2 ⟨hdigits, hrest, rfl⟩
    simp only [readBehind?, List.append_assoc, hsign, hread]
    rw [if_neg (by simpa using hne)]

/-- Where no exponent is read, nothing is taken of the text. -/
theorem snd_read_of_none (h : (read text).1 = none) : (read text).2 = text := by
  have htext := text?_read text
  rwa [h] at htext

/-- What an exponent mark stands before is read as an exponent if it is one. -/
theorem read_mark (capital : Bool) (behind : List Char) :
    read ((if capital then 'E' else 'e') :: behind) =
      match readBehind? capital behind with
      | some (exponent, rest) => (some exponent, rest)
      | none => (none, (if capital then 'E' else 'e') :: behind) := by
  cases capital <;> rfl

/-- The exponent at the front of a text is the longest one that stands there. -/
theorem read_eq_some_iff :
    read text = (some exponent, rest) ↔
      exponent.Valid ∧ NoDigit rest ∧ text = exponent.text ++ rest := by
  constructor
  · intro h
    obtain ⟨capital, behind, rfl⟩ : ∃ capital behind,
        text = (if capital = true then 'E' else 'e') :: behind := by
      unfold read at h
      split at h
      · exact ⟨false, _, rfl⟩
      · exact ⟨true, _, rfl⟩
      · cases h
    rw [read_mark] at h
    split at h
    · next hread =>
      cases h
      obtain ⟨hvalid, hrest, rfl, rfl⟩ := readBehind?_eq_some_iff.1 hread
      refine ⟨hvalid, hrest, ?_⟩
      simp [Exponent.text]
    · cases h
  · rintro ⟨hvalid, hrest, rfl⟩
    have hread : readBehind? exponent.capital
        (Sign.text? exponent.sign ++ exponent.digits ++ rest) = some (exponent, rest) :=
      readBehind?_eq_some_iff.2 ⟨hvalid, hrest, rfl, rfl⟩
    rw [Exponent.text, List.cons_append, List.cons_append, read_mark, hread]

theorem noDigit_text?_append {exponent : Option Exponent} (h : NoDigit rest) :
    NoDigit (text? exponent ++ rest) := by
  cases exponent with
  | none => exact h
  | some exponent =>
    have hmark : (if exponent.capital then 'E' else 'e').isDigit = false := by
      cases exponent.capital <;> rfl
    exact noDigit_cons hmark _

end Exponent

namespace Literal

variable {literal : Literal} {text rest : List Char}

/-- The text does not go on with anything that would belong to the literal before it: with a digit, with
a point if the literal has neither point nor exponent, or with an exponent if the literal has none. -/
structure Ends (literal : Literal) (rest : List Char) : Prop where
  /-- No digit follows. -/
  noDigit : NoDigit rest
  /-- No point follows digits before the point. -/
  noPoint : literal.fraction = none → literal.exponent = none → rest.head? ≠ some '.'
  /-- No exponent follows a literal without one. -/
  noExponent : literal.exponent = none → (Exponent.read rest).1 = none

theorem readFraction_eq_some_iff {whole digits : List Char} :
    readFraction whole text = (some digits, rest) ↔
      (∀ c ∈ digits, c.isDigit = true) ∧ NoDigit rest ∧ (whole ≠ [] ∨ digits ≠ []) ∧
        text = '.' :: (digits ++ rest) := by
  constructor
  · intro h
    unfold readFraction at h
    split at h
    · next behind =>
      cases hread : readDigits behind with
      | mk digits' rest' =>
      simp only [hread] at h
      split at h
      · cases h
      · next hne =>
        cases h
        obtain ⟨hdigits, hrest, hbehind⟩ := readDigits_eq_iff.1 hread
        refine ⟨hdigits, hrest, ?_, by rw [hbehind]⟩
        simpa only [Bool.and_eq_true, List.isEmpty_iff, Decidable.not_and_iff_or_not] using hne
    · cases h
  · rintro ⟨hdigits, hrest, hne, rfl⟩
    have hread : readDigits (digits ++ rest) = (digits, rest) :=
      readDigits_eq_iff.2 ⟨hdigits, hrest, rfl⟩
    have hsome : ¬ (whole.isEmpty && digits.isEmpty) = true := by
      simpa only [Bool.and_eq_true, List.isEmpty_iff, Decidable.not_and_iff_or_not] using hne
    simp only [readFraction, hread, if_neg hsome]

/-- Behind digits every point belongs to the literal. -/
theorem readFraction_eq_none_iff {whole : List Char} (hwhole : whole ≠ []) :
    readFraction whole text = (none, rest) ↔ text.head? ≠ some '.' ∧ rest = text := by
  have hempty : whole.isEmpty = false := by simpa using hwhole
  rw [readFraction.eq_def]
  split
  · simp [hempty]
  · next hpoint =>
    have hhead : text.head? ≠ some '.' := by
      rintro hhead
      obtain ⟨behind, rfl⟩ := List.head?_eq_some_iff.1 hhead
      exact hpoint behind rfl
    simp [hhead, eq_comm]

/-- Behind its sign a literal begins with a digit or a point. -/
theorem read_sign (sign : Option Sign) {whole : List Char} {fraction : Option (List Char)}
    (hwhole : ∀ c ∈ whole, c.isDigit = true) (hsome : whole ≠ [] ∨ fraction.getD [] ≠ [])
    (rest : List Char) :
    Sign.read (Sign.text? sign ++ (whole ++ (fractionText fraction ++ rest))) =
      (sign, whole ++ (fractionText fraction ++ rest)) := by
  refine Sign.read_eq_iff.2 ⟨rfl, ?_⟩
  intro _ c hc
  cases whole with
  | cons d whole =>
    cases hc
    exact Sign.ofChar?_of_isDigit (hwhole c (List.mem_cons_self ..))
  | nil =>
    cases fraction with
    | some digits =>
      cases hc
      rfl
    | none => exact absurd rfl (hsome.resolve_left fun h => h rfl)

/-- A literal that ends is read as it was written. -/
theorem read?_text_append (hvalid : literal.Valid) (hends : literal.Ends rest) :
    read? (literal.text ++ rest) = some (literal, rest) := by
  obtain ⟨sign, whole, fraction, exponent⟩ := literal
  obtain ⟨hwhole, hdigits, hsome, hexponent⟩ := hvalid
  -- From the last part to the first: each is read back because what follows does not prolong it.
  have hreadExponent : Exponent.read (Exponent.text? exponent ++ rest) = (exponent, rest) := by
    cases exponent with
    | some exponent =>
      exact Exponent.read_eq_some_iff.2 ⟨hexponent exponent rfl, hends.noDigit, rfl⟩
    | none =>
      have hnone := hends.noExponent rfl
      exact Prod.ext hnone (Exponent.snd_read_of_none hnone)
  have hbehind : NoDigit (Exponent.text? exponent ++ rest) :=
    Exponent.noDigit_text?_append hends.noDigit
  have hreadFraction : readFraction whole
      (fractionText fraction ++ (Exponent.text? exponent ++ rest)) =
        (fraction, Exponent.text? exponent ++ rest) := by
    cases fraction with
    | some digits =>
      exact readFraction_eq_some_iff.2 ⟨hdigits, hbehind, hsome, rfl⟩
    | none =>
      have hdigit : whole ≠ [] := hsome.resolve_right fun h => h rfl
      refine (readFraction_eq_none_iff hdigit).2 ⟨?_, rfl⟩
      cases exponent with
      | none => exact hends.noPoint rfl rfl
      | some exponent =>
        obtain ⟨capital, sign, digits⟩ := exponent
        cases capital <;> exact nofun
  have hreadWhole : readDigits
      (whole ++ (fractionText fraction ++ (Exponent.text? exponent ++ rest))) =
        (whole, fractionText fraction ++ (Exponent.text? exponent ++ rest)) := by
    refine readDigits_eq_iff.2 ⟨hwhole, ?_, rfl⟩
    cases fraction with
    | none => exact hbehind
    | some digits => exact noDigit_cons (by decide) _
  have hreadSign := read_sign sign hwhole hsome (Exponent.text? exponent ++ rest)
  have hne : ¬ (whole.isEmpty && fraction.isNone) = true := by
    rcases hsome with h | h
    · simp [h]
    · cases fraction with
      | none => exact absurd rfl h
      | some digits => simp
  simp only [text, List.append_assoc, read?, hreadSign, hreadWhole, hreadFraction, hreadExponent,
    if_neg hne]

/-- A text is read as a literal and a rest just if it is the literal as it is written, with the rest
behind it, and the literal ends there. -/
theorem read?_eq_some_iff :
    read? text = some (literal, rest) ↔
      literal.Valid ∧ literal.Ends rest ∧ text = literal.text ++ rest := by
  constructor
  · intro h
    have htext := (text_of_read? h).symm
    cases hsign : Sign.read text with
    | mk sign unsigned =>
    cases hwhole : readDigits unsigned with
    | mk whole behind =>
    cases hfraction : readFraction whole behind with
    | mk fraction behind' =>
    cases hexponent : Exponent.read behind' with
    | mk exponent rest' =>
    simp only [read?, hsign, hwhole, hfraction, hexponent, Option.ite_none_left_eq_some,
      Option.some.injEq, Prod.mk.injEq, Bool.and_eq_true, List.isEmpty_iff,
      Option.isNone_iff_eq_none, not_and] at h
    obtain ⟨hne, rfl, rfl⟩ := h
    obtain ⟨hdigits, hbehind, -⟩ := readDigits_eq_iff.1 hwhole
    -- What is known behind the fraction, before the exponent is read.
    obtain ⟨hvalid, hsome, hnodigit, hpoint⟩ : (∀ c ∈ fraction.getD [], c.isDigit = true) ∧
        (whole ≠ [] ∨ fraction.getD [] ≠ []) ∧ NoDigit behind' ∧
          (fraction = none → behind'.head? ≠ some '.') := by
      cases fraction with
      | some digits =>
        obtain ⟨hdigits, hrest, hsome, -⟩ := readFraction_eq_some_iff.1 hfraction
        exact ⟨hdigits, hsome, hrest, by simp⟩
      | none =>
        have hdigit : whole ≠ [] := fun hnil => hne hnil rfl
        obtain ⟨hpoint, rfl⟩ := (readFraction_eq_none_iff hdigit).1 hfraction
        exact ⟨by simp, .inl hdigit, hbehind, fun _ => hpoint⟩
    cases exponent with
    | some exponent =>
      obtain ⟨hexponent, hrest, -⟩ := Exponent.read_eq_some_iff.1 hexponent
      refine ⟨⟨hdigits, hvalid, hsome, ?_⟩, ⟨hrest, by simp, by simp⟩, htext⟩
      rintro e ⟨⟩
      exact hexponent
    | none =>
      have hnone : (Exponent.read behind').1 = none := by rw [hexponent]
      obtain rfl : behind' = rest' := by
        rw [← Exponent.snd_read_of_none hnone, hexponent]
      exact ⟨⟨hdigits, hvalid, hsome, by simp⟩,
        ⟨hnodigit, fun hfraction _ => hpoint hfraction, fun _ => hnone⟩, htext⟩
  · rintro ⟨hvalid, hends, rfl⟩
    exact read?_text_append hvalid hends

/-- Where a literal stands, something is read, whether it ends there or not. -/
theorem read?_ne_none (hvalid : literal.Valid) (rest : List Char) :
    read? (literal.text ++ rest) ≠ none := by
  obtain ⟨sign, whole, fraction, exponent⟩ := literal
  obtain ⟨hwhole, hdigits, hsome, -⟩ := hvalid
  have hsign := read_sign sign hwhole hsome (Exponent.text? exponent ++ rest)
  simp only [read?, text, List.append_assoc, hsign]
  refine fun h => absurd h ?_
  rw [ite_eq_left_iff, Classical.not_imp]
  refine ⟨?_, fun hnone => by cases hnone⟩
  rw [Bool.and_eq_true, List.isEmpty_iff, not_and]
  intro hempty
  -- Without a digit before the point there is one behind it.
  cases whole with
  | cons d whole =>
    have hd : d.isDigit = true := hwhole d (List.mem_cons_self ..)
    simp [readDigits, hd] at hempty
  | nil =>
    cases fraction with
    | none => exact absurd rfl (hsome.resolve_left fun h => h rfl)
    | some digits =>
      obtain ⟨d, digits, rfl⟩ : ∃ d later, digits = d :: later :=
        List.exists_cons_of_ne_nil (hsome.resolve_left fun h => h rfl)
      have hd : d.isDigit = true := hdigits d (List.mem_cons_self ..)
      simp [readDigits, fractionText, readFraction, hd]

/-- Nothing is read just if no literal stands at the front of the text. -/
theorem read?_eq_none_iff :
    read? text = none ↔ ∀ literal : Literal, literal.Valid → ∀ rest, text ≠ literal.text ++ rest := by
  constructor
  · rintro hnone literal hvalid rest rfl
    exact read?_ne_none hvalid rest hnone
  · intro h
    cases hread : read? text with
    | none => rfl
    | some found =>
      obtain ⟨hvalid, -, htext⟩ := read?_eq_some_iff.1 hread
      exact absurd htext (h found.1 hvalid found.2)

end Literal

end PenPlot
