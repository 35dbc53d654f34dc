import PenPlot.Number.Length
import PenPlot.Proofs.Arguments
import PenPlot.Proofs.Slices
import PenPlot.Proofs.Spacing

/-!
# Literals by position

How long the literal at the front of a text is, is found by an index that goes from byte to byte. Each byte
is looked at only before the end, and every byte that is passed over is a character: a sign, a digit, a
point or an exponent mark. So the text may be cut where the literal ends, and what is cut off in front is
the literal that a reader over characters takes.
-/

namespace PenPlot

open Text

namespace ByPosition

/-- Whether a byte with a property stands at an index, which is looked at only before the end. -/
def test (p : UInt8 → Bool) (bytes : List UInt8) (i : Nat) : Option Bool :=
  if i < bytes.length then bytes[i]?.map p else some false

theorem lt_of_test {p : UInt8 → Bool} {bytes : List UInt8} {i : Nat}
    (h : test p bytes i = some true) : i < bytes.length := by
  rw [test] at h
  split at h
  · assumption
  · cases h

/-- The byte of a sign. -/
def isSignByte (b : UInt8) : Bool := b == 0x2B || b == 0x2D

/-- The byte of a digit. -/
def isDigitByte (b : UInt8) : Bool := 0x30 ≤ b && b ≤ 0x39

/-- The byte of a point. -/
def isPointByte (b : UInt8) : Bool := b == 0x2E

/-- The byte of an exponent mark. -/
def isExponentByte (b : UInt8) : Bool := b == 0x65 || b == 0x45

/-- The index behind the sign at an index, if there is one. -/
def signEnd (bytes : List UInt8) (i : Nat) : Option Nat := do
  if ← test isSignByte bytes i then return i + 1 else return i

/-- The index behind the digits at an index. -/
def digitsEnd (bytes : List UInt8) (i : Nat) : Option Nat :=
  match _h : test isDigitByte bytes i with
  | none => none
  | some false => some i
  | some true => digitsEnd bytes (i + 1)
termination_by bytes.length - i
decreasing_by
  have hlt := lt_of_test _h
  omega

/-- Whether a literal has digits before its exponent, and the index behind the point and the digits at an
index. A point that no digits precede or follow is left. -/
def fractionEnd (bytes : List UInt8) (hasDigits : Bool) (i : Nat) : Option (Bool × Nat) := do
  if ← test isPointByte bytes i then
    let last ← digitsEnd bytes (i + 1)
    if hasDigits || i + 1 < last then return (true, last) else return (false, i)
  else return (hasDigits, i)

/-- The index behind the exponent at an index, which is the same index if no digits follow the mark. -/
def exponentEnd (bytes : List UInt8) (i : Nat) : Option Nat := do
  if ← test isExponentByte bytes i then
    let first ← signEnd bytes (i + 1)
    let last ← digitsEnd bytes first
    return if first < last then last else i
  else return i

/-- How many bytes the literal at the front takes, and 0 if there is none. -/
def literalLength (bytes : List UInt8) : Option Nat := do
  let start ← signEnd bytes 0
  let whole ← digitsEnd bytes start
  let (hasDigits, i) ← fractionEnd bytes (start < whole) whole
  if hasDigits then exponentEnd bytes i else return 0

/-- The value of a text that is a literal as a whole. -/
def value? {α : Type} [Scalar α] (token : List Char) : Option α :=
  match Literal.read? token with
  | some (literal, []) => some literal.value
  | _ => none

/-- The length that a text gives, and the warnings about it. -/
def readLength {α : Type} [Scalar α] (text : List Char) (default : α) :
    Option (α × List (LengthWarning α)) := do
  let trimmed := trim text
  if trimmed.isEmpty then return (default, [])
  else
    let length ← literalLength (bytes trimmed)
    match value? (← upTo? length trimmed) with
    | none => return (default, [.notNumber trimmed default])
    | some value =>
      let suffix := trim (← from? length trimmed)
      if suffix.isEmpty then return (value, [])
      else
        match LengthUnit.ofSuffix? suffix with
        | some unit => return (value * unit.factor, [])
        | none => return (value, [.unknownUnit suffix trimmed])

end ByPosition

/-! ## Classes of bytes -/

theorem toNat_lt_of_isDigit {c : Char} (h : c.isDigit = true) : c.toNat < 128 := by
  simp only [Char.isDigit, Bool.and_eq_true, decide_eq_true_eq] at h
  have hle : c.val.toNat ≤ '9'.val.toNat := h.2
  exact Nat.lt_of_le_of_lt hle (by decide)

theorem isDigitByte_firstByte (c : Char) : ByPosition.isDigitByte (firstByte c) = c.isDigit :=
  firstByte_eq (by decide +kernel) (fun _ => toNat_lt_of_isDigit) c

theorem toNat_lt_of_ofChar? {c : Char} (h : (Sign.ofChar? c).isSome = true) : c.toNat < 128 := by
  obtain ⟨sign, hsign⟩ := Option.isSome_iff_exists.1 h
  unfold Sign.ofChar? at hsign
  split at hsign
  · decide
  · decide
  · cases hsign

theorem isSignByte_firstByte (c : Char) :
    ByPosition.isSignByte (firstByte c) = (Sign.ofChar? c).isSome :=
  firstByte_eq (by decide +kernel) (fun _ => toNat_lt_of_ofChar?) c

theorem beq_firstByte {d : Char} (hd : d.toNat < 128) (c : Char) :
    (firstByte c == firstByte d) = (c == d) := by
  rw [Bool.eq_iff_iff, beq_iff_eq, beq_iff_eq]
  constructor
  · intro h
    refine firstByte_injective ?_ hd h
    refine Nat.lt_of_not_le fun hle => ?_
    have hupper := firstByte_of_le hle
    rw [h, firstByte_of_lt hd, UInt8.toNat_ofNat'] at hupper
    omega
  · rintro rfl
    rfl

theorem isPointByte_firstByte (c : Char) : ByPosition.isPointByte (firstByte c) = (c == '.') := by
  rw [← beq_firstByte (by decide)]
  rfl

theorem isExponentByte_firstByte (c : Char) :
    ByPosition.isExponentByte (firstByte c) = (c == 'e' || c == 'E') := by
  rw [← beq_firstByte (by decide), ← beq_firstByte (by decide)]
  rfl

theorem byteLength_pos_iff {text : List Char} : 0 < byteLength text ↔ text ≠ [] := by
  cases text with
  | nil => simp
  | cons c text =>
    have hc := c.utf8Size_pos
    simp only [byteLength_cons, ne_eq, reduceCtorEq, not_false_eq_true, iff_true]
    omega

namespace ByPosition

variable {front rest : List Char}

/-- Between characters the test is of the character that follows. -/
theorem test_append {p : Char → Bool} {q : UInt8 → Bool} (h : ∀ c, q (firstByte c) = p c)
    (front rest : List Char) :
    test q (bytes (front ++ rest)) (byteLength front) = some (rest.head?.any p) := by
  rw [test, length_bytes, byteLength_append]
  cases rest with
  | nil => rw [if_neg (by simp)]; rfl
  | cons c rest =>
    have hc := c.utf8Size_pos
    have hlt : byteLength front < byteLength front + byteLength (c :: rest) := by
      rw [byteLength_cons]
      omega
    have hbyte := byte?_append front c rest
    rw [byte?] at hbyte
    rw [if_pos hlt, hbyte, Option.map_some, h]
    rfl

theorem digitsEnd_append (front rest : List Char) :
    digitsEnd (bytes (front ++ rest)) (byteLength front) =
      some (byteLength (front ++ (readDigits rest).1)) := by
  induction rest generalizing front with
  | nil =>
    rw [digitsEnd, test_append isDigitByte_firstByte]
    simp [readDigits]
  | cons c rest ih =>
    rw [digitsEnd, test_append isDigitByte_firstByte, List.head?_cons, Option.any_some]
    cases hc : c.isDigit with
    | false => simp [readDigits, hc]
    | true =>
      have hstep := ih (front ++ [c])
      rw [byteLength_concat (toNat_lt_of_isDigit hc), List.append_assoc, List.singleton_append]
        at hstep
      simp only
      rw [hstep]
      simp [readDigits, hc]

/-- Behind an index nothing is found just if the index stays. -/
theorem byteLength_lt_append_iff (front text : List Char) :
    byteLength front < byteLength (front ++ text) ↔ text ≠ [] := by
  rw [byteLength_append, ← byteLength_pos_iff]
  omega

theorem signEnd_append (front rest : List Char) :
    signEnd (bytes (front ++ rest)) (byteLength front) =
      some (byteLength (front ++ Sign.text? (Sign.read rest).1)) := by
  rw [signEnd, test_append isSignByte_firstByte, some_bind]
  cases rest with
  | nil => simp [Sign.read, Sign.text?]
  | cons c rest =>
    cases hsign : Sign.ofChar? c with
    | none => simp [Sign.read, Sign.text?, hsign]
    | some sign =>
      have hsize : sign.char.utf8Size = 1 := by cases sign <;> rfl
      simp [Sign.read, Sign.text?, hsign, hsize]

theorem digitsEnd_sign_append (front rest : List Char) :
    digitsEnd (bytes (front ++ rest)) (byteLength (front ++ Sign.text? (Sign.read rest).1)) =
      some (byteLength
        (front ++ Sign.text? (Sign.read rest).1 ++ (readDigits (Sign.read rest).2).1)) := by
  have h := digitsEnd_append (front ++ Sign.text? (Sign.read rest).1) (Sign.read rest).2
  rwa [List.append_assoc, Sign.text?_read] at h

theorem exponentEnd_append (front rest : List Char) :
    exponentEnd (bytes (front ++ rest)) (byteLength front) =
      some (byteLength (front ++ Exponent.text? (Exponent.read rest).1)) := by
  rw [exponentEnd, test_append isExponentByte_firstByte, some_bind]
  cases rest with
  | nil => simp [Exponent.read, Exponent.text?]
  | cons c behind =>
    by_cases hmark : ∃ capital, c = if capital = true then 'E' else 'e'
    · obtain ⟨capital, rfl⟩ := hmark
      have hexponent : ((if capital = true then 'E' else 'e') == 'e' ||
          (if capital = true then 'E' else 'e') == 'E') = true := by
        cases capital <;> rfl
      have hbyte : (if capital = true then 'E' else 'e').toNat < 128 := by
        cases capital <;> decide
      rw [List.head?_cons, Option.any_some, hexponent, if_pos rfl, ← byteLength_concat hbyte,
        List.append_cons, signEnd_append, some_bind, digitsEnd_sign_append, some_bind,
        Exponent.read_mark]
      simp only [byteLength_lt_append_iff]
      by_cases hdigits : (readDigits (Sign.read behind).2).1 = []
      · have hnone : Exponent.readBehind? capital behind = none :=
          if_pos (List.isEmpty_iff.2 hdigits)
        rw [if_neg (not_not_intro hdigits), hnone, Exponent.text?, Option.map_none, Option.getD_none,
          List.append_nil]
        rfl
      · have hsome : Exponent.readBehind? capital behind =
            some (⟨capital, (Sign.read behind).1, (readDigits (Sign.read behind).2).1⟩,
              (readDigits (Sign.read behind).2).2) :=
          if_neg (mt List.isEmpty_iff.1 hdigits)
        rw [if_pos hdigits, hsome, Exponent.text?, Option.map_some, Option.getD_some, Exponent.text]
        simp only [List.append_assoc, List.cons_append]
        rfl
    · rw [not_exists] at hmark
      have he : c ≠ 'e' := hmark false
      have hE : c ≠ 'E' := hmark true
      rw [Exponent.read_of_ne he hE]
      simp [he, hE, Exponent.text?]

theorem fractionEnd_append (whole front rest : List Char) :
    fractionEnd (bytes (front ++ rest)) (!whole.isEmpty) (byteLength front) =
      some (!(whole.isEmpty && (Literal.readFraction whole rest).1.isNone),
        byteLength (front ++ Literal.fractionText (Literal.readFraction whole rest).1)) := by
  rw [fractionEnd, test_append isPointByte_firstByte, some_bind]
  by_cases hhead : rest.head? = some '.'
  · obtain ⟨behind, rfl⟩ := List.head?_eq_some_iff.1 hhead
    have hpoint : ('.' : Char).toNat < 128 := by decide
    rw [List.head?_cons, Option.any_some, beq_self_eq_true, if_pos rfl, ← byteLength_concat hpoint,
      List.append_cons, digitsEnd_append, some_bind, Literal.readFraction]
    simp only [byteLength_lt_append_iff]
    cases whole with
    | nil =>
      cases hdigits : (readDigits behind).1 with
      | nil => simp [Literal.fractionText]
      | cons d digits => simp [Literal.fractionText]
    | cons d whole => simp [Literal.fractionText]
  · have hnone : rest.head?.any (· == '.') = false := by
      cases rest with
      | nil => rfl
      | cons c rest => simpa using hhead
    have hread : Literal.readFraction whole rest = (none, rest) := by
      cases rest with
      | nil => rfl
      | cons c rest => exact Literal.readFraction_of_ne (by simpa using hhead) whole rest
    rw [hnone, hread]
    simp [Literal.fractionText]

/-- The literal ends where a reader over characters says. -/
theorem literalLength_bytes (text : List Char) :
    literalLength (bytes text) =
      some (((Literal.read? text).map fun found => byteLength found.1.text).getD 0) := by
  cases hsign : Sign.read text with
  | mk sign unsigned =>
  cases hwhole : readDigits unsigned with
  | mk whole behind =>
  have hstart := signEnd_append [] text
  have hdigits := digitsEnd_sign_append [] text
  have htext : text = Sign.text? sign ++ whole ++ behind := by
    have hsplit := Sign.text?_read text
    have hunsigned := readDigits_append unsigned
    rw [hsign] at hsplit
    rw [hwhole] at hunsigned
    rw [List.append_assoc, hunsigned, hsplit]
  have hfraction := fractionEnd_append whole (Sign.text? sign ++ whole) behind
  have hexponent := exponentEnd_append
    (Sign.text? sign ++ whole ++ Literal.fractionText (Literal.readFraction whole behind).1)
    (Literal.readFraction whole behind).2
  rw [List.append_assoc _ (Literal.fractionText _), Literal.fractionText_readFraction, ← htext]
    at hexponent
  rw [← htext] at hfraction
  simp only [hsign, hwhole, List.nil_append, byteLength_nil] at hstart hdigits
  have hempty : decide (byteLength (Sign.text? sign) < byteLength (Sign.text? sign ++ whole)) =
      !whole.isEmpty := by
    rw [Bool.eq_iff_iff, decide_eq_true_iff, byteLength_lt_append_iff]
    simp
  rw [literalLength, hstart, some_bind, hdigits, some_bind, hempty, hfraction, some_bind]
  simp only [Literal.read?, hsign, hwhole]
  cases whole.isEmpty && (Literal.readFraction whole behind).1.isNone with
  | true => rfl
  | false =>
    rw [Bool.not_false, if_pos rfl, hexponent]
    rfl

section

variable {α : Type} [Scalar α] {text : List Char} {found : Literal × List Char}

theorem literalLength_of_none (h : Literal.read? text = none) :
    literalLength (bytes text) = some 0 := by
  rw [literalLength_bytes, h]
  rfl

theorem literalLength_of_some (h : Literal.read? text = some found) :
    literalLength (bytes text) = some (byteLength found.1.text) := by
  rw [literalLength_bytes, h]
  rfl

/-- The literal that is read from a text has its value by itself. -/
theorem value?_of_some (h : Literal.read? text = some found) :
    value? found.1.text = some (found.1.value : α) := by
  have hvalid := (Literal.read?_eq_some_iff.1 h).1
  have hread := Literal.read?_text_append hvalid (Literal.ends_nil found.1)
  rw [List.append_nil] at hread
  rw [value?, hread]

theorem readLength_eq (text : List Char) (default : α) :
    readLength text default = some (PenPlot.readLength text default) := by
  rw [readLength, PenPlot.readLength]
  simp only
  by_cases hempty : (trim text).isEmpty = true
  · rw [if_pos hempty, if_pos hempty]
    rfl
  · rw [if_neg hempty, if_neg hempty]
    cases hread : Literal.read? (trim text) with
    | none =>
      have hnothing : upTo? 0 (trim text) = some [] := upTo?_append [] (trim text)
      rw [literalLength_of_none hread, some_bind, hnothing]
      rfl
    | some found =>
      have hsplit := Literal.text_of_read? hread
      have hvalue := value?_of_some (α := α) hread
      have hliteral := upTo?_append found.1.text found.2
      have hrest := from?_append found.1.text found.2
      rw [hsplit] at hliteral hrest
      rw [literalLength_of_some hread, some_bind, hliteral, some_bind, hvalue]
      show (from? (byteLength found.1.text) (trim text) >>= _) = _
      rw [hrest, some_bind]
      simp only
      split
      · rfl
      · cases LengthUnit.ofSuffix? (trim found.2) <;> rfl

end

end ByPosition

end PenPlot
