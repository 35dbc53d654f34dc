import PenPlot.Scalar

/-!
# Number literals

A number literal is an optional sign, then digits with an optional point and fraction digits, or a
point with at least one fraction digit, then optionally an exponent: `e` or `E`, an optional sign and
at least one digit. Reading takes the longest literal at the front of a text, so that `2em` begins
with the literal `2`, and leaves the rest. `Literal.text` writes a literal back, and `Literal.Valid`
is the grammar; `text_of_read?` says that reading loses nothing.
-/

namespace PenPlot

/-- A sign that is written. -/
inductive Sign where
  /-- A plus sign. -/
  | plus
  /-- A minus sign. -/
  | minus
  deriving DecidableEq, Repr

namespace Sign

/-- The character of a sign. -/
def char : Sign → Char
  | plus => '+'
  | minus => '-'

/-- The sign that a character writes. -/
def ofChar? : Char → Option Sign
  | '+' => some plus
  | '-' => some minus
  | _ => none

/-- The sign at the front of a text, if there is one, and the rest. -/
def read : List Char → Option Sign × List Char
  | [] => (none, [])
  | c :: rest =>
    match ofChar? c with
    | some sign => (some sign, rest)
    | none => (none, c :: rest)

/-- How an optional sign is written. -/
def text? : Option Sign → List Char
  | none => []
  | some sign => [sign.char]

theorem text?_read (text : List Char) : text? (read text).1 ++ (read text).2 = text := by
  cases text with
  | nil => rfl
  | cons c rest =>
    simp only [read]
    cases h : ofChar? c with
    | none => rfl
    | some sign =>
      have hc : sign.char = c := by
        unfold ofChar? at h
        split at h
        · cases h; rfl
        · cases h; rfl
        · cases h
      simp [text?, hc]

end Sign

/-- The number that a list of digits writes. -/
def digitsValue (digits : List Char) : Nat :=
  digits.foldl (fun n c => 10 * n + (c.toNat - '0'.toNat)) 0

/-- The digits at the front of a text, and the rest. -/
def readDigits (text : List Char) : List Char × List Char :=
  (text.takeWhile Char.isDigit, text.dropWhile Char.isDigit)

theorem readDigits_append (text : List Char) : (readDigits text).1 ++ (readDigits text).2 = text :=
  List.takeWhile_append_dropWhile

/-- The exponent of a literal. -/
structure Exponent where
  /-- The exponent mark is a capital. -/
  capital : Bool
  /-- The sign, if it is written. -/
  sign : Option Sign
  /-- The digits. -/
  digits : List Char
  deriving DecidableEq, Repr

namespace Exponent

/-- How the exponent is written. -/
def text (x : Exponent) : List Char :=
  (if x.capital then 'E' else 'e') :: Sign.text? x.sign ++ x.digits

/-- The power of ten. -/
def value (x : Exponent) : Int :=
  if x.sign = some .minus then -digitsValue x.digits else digitsValue x.digits

/-- The exponent behind its mark, if digits follow, and the rest. -/
def readBehind? (capital : Bool) (text : List Char) : Option (Exponent × List Char) :=
  let (sign, unsigned) := Sign.read text
  let (digits, rest) := readDigits unsigned
  if digits.isEmpty then none else some (⟨capital, sign, digits⟩, rest)

/-- The exponent at the front of a text, if there is one, and the rest. -/
def read : List Char → Option Exponent × List Char
  | 'e' :: behind =>
    match readBehind? false behind with
    | some (exponent, rest) => (some exponent, rest)
    | none => (none, 'e' :: behind)
  | 'E' :: behind =>
    match readBehind? true behind with
    | some (exponent, rest) => (some exponent, rest)
    | none => (none, 'E' :: behind)
  | text => (none, text)

theorem read_of_ne {c : Char} (he : c ≠ 'e') (hE : c ≠ 'E') (text : List Char) :
    read (c :: text) = (none, c :: text) := by
  rw [read.eq_def]
  split
  · next heq => exact absurd (List.cons.inj heq).1 he
  · next heq => exact absurd (List.cons.inj heq).1 hE
  · rfl

/-- How an optional exponent is written. -/
def text? (x : Option Exponent) : List Char := (x.map text).getD []

theorem text_readBehind? {capital : Bool} {text rest : List Char} {exponent : Exponent}
    (h : readBehind? capital text = some (exponent, rest)) :
    exponent.text ++ rest = (if capital then 'E' else 'e') :: text := by
  simp only [readBehind?, Option.ite_none_left_eq_some, Option.some.injEq, Prod.mk.injEq] at h
  obtain ⟨-, rfl, rfl⟩ := h
  have hd := readDigits_append (Sign.read text).2
  have hs := Sign.text?_read text
  simp [Exponent.text, hd, hs]

theorem text?_read (text : List Char) : text? (read text).1 ++ (read text).2 = text := by
  unfold read
  split
  · split
    · next h => simpa [text?] using text_readBehind? h
    · rfl
  · split
    · next h => simpa [text?] using text_readBehind? h
    · rfl
  · rfl

end Exponent

/-- A number literal. -/
structure Literal where
  /-- The sign, if it is written. -/
  sign : Option Sign
  /-- The digits before the point. -/
  whole : List Char
  /-- The digits behind the point, if a point is written. -/
  fraction : Option (List Char)
  /-- The exponent, if one is written. -/
  exponent : Option Exponent
  deriving DecidableEq, Repr

namespace Literal

/-- How the point and the digits behind it are written. -/
def fractionText (fraction : Option (List Char)) : List Char :=
  (fraction.map ('.' :: ·)).getD []

/-- How the literal is written. -/
def text (x : Literal) : List Char :=
  Sign.text? x.sign ++ x.whole ++ fractionText x.fraction ++ Exponent.text? x.exponent

/-- The grammar: digits are digits, and there is at least one before the exponent and one in it. -/
def Valid (x : Literal) : Prop :=
  (∀ c ∈ x.whole, c.isDigit) ∧ (∀ c ∈ x.fraction.getD [], c.isDigit) ∧
    (x.whole ≠ [] ∨ x.fraction.getD [] ≠ []) ∧
    (∀ e ∈ x.exponent, (∀ c ∈ e.digits, c.isDigit) ∧ e.digits ≠ [])

/-- The point and the digits at the front of a text, and the rest. A point alone is part of the
number only behind digits. -/
def readFraction (whole : List Char) : List Char → Option (List Char) × List Char
  | '.' :: behind =>
    let (digits, rest) := readDigits behind
    if whole.isEmpty && digits.isEmpty then (none, '.' :: behind) else (some digits, rest)
  | text => (none, text)

/-- The longest literal at the front of a text, if there is one, and the rest. -/
def read? (text : List Char) : Option (Literal × List Char) :=
  let (sign, unsigned) := Sign.read text
  let (whole, behind) := readDigits unsigned
  let (fraction, behind) := readFraction whole behind
  if whole.isEmpty && fraction.isNone then none
  else
    let (exponent, rest) := Exponent.read behind
    some (⟨sign, whole, fraction, exponent⟩, rest)

/-- The number that the literal writes. -/
def value {α : Type} [Scalar α] (x : Literal) : α :=
  let fraction := x.fraction.getD []
  let shift := ((x.exponent.map Exponent.value).getD 0) - fraction.length
  let magnitude := Scalar.ofDecimal (digitsValue (x.whole ++ fraction)) shift
  if x.sign = some .minus then -magnitude else magnitude

theorem fractionText_readFraction (whole text : List Char) :
    fractionText (readFraction whole text).1 ++ (readFraction whole text).2 = text := by
  unfold readFraction
  split
  · next behind =>
    have h := readDigits_append behind
    simp only
    split
    · rfl
    · simpa [fractionText] using h
  · rfl

/-- Reading takes the text apart: the literal, as it is written, and the rest. -/
theorem text_of_read? {text rest : List Char} {literal : Literal}
    (h : read? text = some (literal, rest)) : literal.text ++ rest = text := by
  simp only [read?, Option.ite_none_left_eq_some, Option.some.injEq, Prod.mk.injEq] at h
  obtain ⟨-, rfl, rfl⟩ := h
  have he := Exponent.text?_read (readFraction (readDigits (Sign.read text).2).1
    (readDigits (Sign.read text).2).2).2
  have hf := fractionText_readFraction (readDigits (Sign.read text).2).1
    (readDigits (Sign.read text).2).2
  have hd := readDigits_append (Sign.read text).2
  have hs := Sign.text?_read text
  simp only [Literal.text, List.append_assoc, he, hf, hd, hs]

/-- A literal takes at least one character. -/
theorem length_rest_lt {text rest : List Char} {literal : Literal}
    (h : read? text = some (literal, rest)) : rest.length < text.length := by
  have ht := text_of_read? h
  have hne : literal.text ≠ [] := by
    simp only [read?, Option.ite_none_left_eq_some, Option.some.injEq, Prod.mk.injEq] at h
    obtain ⟨hw, rfl, -⟩ := h
    simp only [Bool.and_eq_true, List.isEmpty_iff, Option.isNone_iff_eq_none, not_and] at hw
    intro hnil
    simp only [Literal.text, List.append_eq_nil_iff] at hnil
    obtain ⟨⟨⟨-, hwhole⟩, hfraction⟩, -⟩ := hnil
    have hnone := hw hwhole
    cases hf : (readFraction (readDigits (Sign.read text).2).1
      (readDigits (Sign.read text).2).2).1 with
    | none => exact hnone hf
    | some digits => simp [hf, fractionText] at hfraction
  have := List.length_pos_iff.mpr hne
  rw [← ht, List.length_append]
  omega

end Literal

end PenPlot
