import Mathlib.Order.Bounds.Defs
import PenPlot.Proofs.Lengths
import PenPlot.Proofs.Prefixes

/-!
# The longest literal in front of bytes

The length of the literal in front is found among bytes, and these need not be those of a text. But a
byte that is only a part of a character is none that a literal has, so it may as well be taken for a
question mark: the index goes the same way, and the bytes are those of a text then
(`literalLength_map`). There the literal that is read is the longest that stands in front.
-/

namespace PenPlot

open Text

/-- The character that a byte stands for, with a question mark for a byte that stands for none. -/
def shown (b : UInt8) : Char := if b.toNat < 128 then Char.ofNat b.toNat else '?'

/-- The bytes write a number literal. -/
def IsLiteral (word : List UInt8) : Prop :=
  ∃ literal : Literal, literal.Valid ∧ bytes literal.text = word

theorem toNat_shown_lt (b : UInt8) : (shown b).toNat < 128 := by
  have hall : ∀ n : Fin 256, (shown (UInt8.ofNat n)).toNat < 128 := by decide +kernel
  have h := hall ⟨b.toNat, b.toNat_lt⟩
  rwa [UInt8.ofNat_toNat] at h

/-- What a byte is shown as is a single byte again. -/
theorem bytes_map_shown (word : List UInt8) :
    bytes (word.map shown) = word.map fun b => firstByte (shown b) := by
  induction word with
  | nil => rfl
  | cons b word ih =>
    rw [List.map_cons, bytes_cons, utf8EncodeChar_of_lt (toNat_shown_lt b), ih]
    rfl

theorem shown_firstByte {c : Char} (h : c.toNat < 128) : shown (firstByte c) = c := by
  have hbyte : (firstByte c).toNat = c.toNat := by
    rw [firstByte_of_lt h, UInt8.toNat_ofNat', Nat.mod_eq_of_lt (by omega)]
  rw [shown, hbyte, if_pos h, Char.ofNat_toNat]

theorem firstByte_shown {b : UInt8} (h : shown b ≠ '?') : firstByte (shown b) = b := by
  have hall : ∀ n : Fin 256, shown (UInt8.ofNat n) ≠ '?' →
      firstByte (shown (UInt8.ofNat n)) = UInt8.ofNat n := by decide +kernel
  have hb := hall ⟨b.toNat, b.toNat_lt⟩
  simp only [UInt8.ofNat_toNat] at hb
  exact hb h

section

variable {text : List Char} (h : ∀ c ∈ text, c.toNat < 128)

include h

/-- A text of single bytes has as many characters as bytes. -/
theorem byteLength_eq_length : byteLength text = text.length := by
  induction text with
  | nil => rfl
  | cons c text ih =>
    obtain ⟨hc, hlater⟩ := List.forall_mem_cons.1 h
    rw [byteLength_cons, utf8Size_eq_one hc, ih hlater, List.length_cons, Nat.add_comm]

/-- A text of single bytes is shown as it is. -/
theorem map_shown_bytes : (bytes text).map shown = text := by
  induction text with
  | nil => rfl
  | cons c text ih =>
    obtain ⟨hc, hlater⟩ := List.forall_mem_cons.1 h
    rw [bytes_cons, utf8EncodeChar_of_lt hc, List.singleton_append, List.map_cons,
      shown_firstByte hc, ih hlater]

end

namespace Literal

variable {literal : Literal} (hvalid : literal.Valid)

include hvalid

/-- The characters of a literal are single bytes, and none of them is a question mark. -/
theorem of_mem_text {c : Char} (hc : c ∈ literal.text) : c.toNat < 128 ∧ c ≠ '?' := by
  have htoken := isTokenChar_of_mem hvalid hc
  by_cases hdigit : c.isDigit = true
  · refine ⟨toNat_lt_of_isDigit hdigit, ?_⟩
    rintro rfl
    cases hdigit
  · have hmem : c ∈ [' ', ',', '\t', '\n', '\r', '.', '+', '-', 'e', 'E'] := by
      simpa [isTokenChar, isGap, hdigit, or_assoc] using htoken
    have hall : ([' ', ',', '\t', '\n', '\r', '.', '+', '-', 'e', 'E'].all fun c =>
        decide (c.toNat < 128 ∧ c ≠ '?')) = true := by decide
    exact of_decide_eq_true (List.all_eq_true.1 hall c hmem)

/-- A literal takes a byte for each of its characters. -/
theorem byteLength_text : byteLength literal.text = literal.text.length :=
  byteLength_eq_length fun _ hc => (of_mem_text hvalid hc).1

/-- A literal stands in front of bytes just if it stands in front of what they are shown as. -/
theorem isPrefix_bytes_iff (word : List UInt8) :
    bytes literal.text <+: word ↔ literal.text <+: word.map shown := by
  constructor
  · rintro ⟨rest, rfl⟩
    rw [List.map_append, map_shown_bytes fun c hc => (of_mem_text hvalid hc).1]
    exact List.prefix_append _ _
  · rintro ⟨rest, hrest⟩
    obtain ⟨front, behind, rfl, hfront, -⟩ := List.map_eq_append_iff.1 hrest.symm
    have hsame : bytes literal.text = front := by
      rw [← hfront, bytes_map_shown]
      refine (List.map_congr_left fun b hb => ?_).trans (List.map_id _)
      have hmem : shown b ∈ literal.text := hfront ▸ List.mem_map_of_mem hb
      exact firstByte_shown (of_mem_text hvalid hmem).2
    rw [hsame]
    exact List.prefix_append _ _

end Literal

namespace ByPosition

section

variable {f : UInt8 → UInt8}

theorem test_map {p : UInt8 → Bool} (h : ∀ b, p (f b) = p b) (word : List UInt8) (i : Nat) :
    test p (word.map f) i = test p word i := by
  rw [test, test, List.length_map, List.getElem?_map, Option.map_map]
  simp only [Function.comp_def, h]

theorem digitsEnd_map (h : ∀ b, isDigitByte (f b) = isDigitByte b) (word : List UInt8) (i : Nat) :
    digitsEnd (word.map f) i = digitsEnd word i := by
  fun_induction digitsEnd word i with
  | case1 i htest => rw [digitsEnd, test_map h, htest]
  | case2 i htest => rw [digitsEnd, test_map h, htest]
  | case3 i htest ih =>
    rw [digitsEnd, test_map h, htest]
    exact ih

theorem signEnd_map (h : ∀ b, isSignByte (f b) = isSignByte b) (word : List UInt8) (i : Nat) :
    signEnd (word.map f) i = signEnd word i := by
  rw [signEnd, signEnd, test_map h]

/-- Bytes that are of the same kind for a literal have the same literal in front. -/
theorem literalLength_map (hsign : ∀ b, isSignByte (f b) = isSignByte b)
    (hdigit : ∀ b, isDigitByte (f b) = isDigitByte b)
    (hpoint : ∀ b, isPointByte (f b) = isPointByte b)
    (hexponent : ∀ b, isExponentByte (f b) = isExponentByte b) (word : List UInt8) :
    literalLength (word.map f) = literalLength word := by
  have hfraction : ∀ hasDigits i,
      fractionEnd (word.map f) hasDigits i = fractionEnd word hasDigits i := by
    intro hasDigits i
    rw [fractionEnd, fractionEnd, test_map hpoint, digitsEnd_map hdigit]
  have hexponentEnd : ∀ i, exponentEnd (word.map f) i = exponentEnd word i := by
    intro i
    simp only [exponentEnd, test_map hexponent, signEnd_map hsign, digitsEnd_map hdigit]
  simp only [literalLength, signEnd_map hsign, digitsEnd_map hdigit, hfraction, hexponentEnd]

end

/-- The literal in front of bytes is the one in front of what they are shown as. -/
theorem literalLength_shown (word : List UInt8) :
    literalLength word = literalLength (bytes (word.map shown)) := by
  have hkept : ∀ p : UInt8 → Bool,
      (∀ n : Fin 256, p (firstByte (shown (UInt8.ofNat n))) = p (UInt8.ofNat n)) →
        ∀ b, p (firstByte (shown b)) = p b := by
    intro p hall b
    have hb := hall ⟨b.toNat, b.toNat_lt⟩
    rwa [UInt8.ofNat_toNat] at hb
  rw [bytes_map_shown, literalLength_map (hkept _ (by decide +kernel)) (hkept _ (by decide +kernel))
    (hkept _ (by decide +kernel)) (hkept _ (by decide +kernel))]

/-- Where nothing is read of what bytes are shown as, no beginning of the bytes is a literal. -/
theorem not_isLiteral_of_read? {word beginning : List UInt8}
    (h : Literal.read? (word.map shown) = none) (hbeginning : beginning <+: word) :
    ¬ IsLiteral beginning := by
  rintro ⟨literal, hvalid, rfl⟩
  obtain ⟨rest, hrest⟩ := (Literal.isPrefix_bytes_iff hvalid word).1 hbeginning
  exact Literal.read?_eq_none_iff.1 h literal hvalid rest hrest.symm

/-- What is read of what bytes are shown as is the longest literal in front of the bytes. -/
theorem isGreatest_of_read? {word : List UInt8} {literal : Literal} {rest : List Char}
    (h : Literal.read? (word.map shown) = some (literal, rest)) :
    IsGreatest {m | m ≤ word.length ∧ IsLiteral (word.take m)} (byteLength literal.text) := by
  obtain ⟨hvalid, htext, hlongest⟩ := Literal.read?_eq_some_iff_isLongest.1 h
  have hfront : bytes literal.text <+: word := by
    rw [Literal.isPrefix_bytes_iff hvalid, htext]
    exact List.prefix_append _ _
  refine ⟨⟨?_, literal, hvalid, ?_⟩, ?_⟩
  · rw [← length_bytes]
    exact hfront.length_le
  · rw [← length_bytes]
    exact List.prefix_iff_eq_take.1 hfront
  · rintro m ⟨hm, other, hother, htake⟩
    have hotherFront : bytes other.text <+: word := by
      rw [htake]
      exact List.take_prefix m word
    calc m = (word.take m).length := (List.length_take_of_le hm).symm
      _ = other.text.length := by rw [← htake, length_bytes, Literal.byteLength_text hother]
      _ ≤ literal.text.length :=
        hlongest other hother ((Literal.isPrefix_bytes_iff hother word).1 hotherFront)
      _ = byteLength literal.text := (Literal.byteLength_text hvalid).symm

/-- The number that is found for bytes is the length of the longest of their beginnings that is a number
literal, or 0 if none is one, and it is not beyond the end. For the bytes of a text it is the length of
the literal that is read. -/
theorem literalLength_isGreatest (word : List UInt8) :
    ∃ n, literalLength word = some n ∧ n ≤ word.length ∧
      (n = 0 ↔ ∀ beginning, beginning <+: word → ¬ IsLiteral beginning) ∧
      (n ≠ 0 → IsGreatest {m | m ≤ word.length ∧ IsLiteral (word.take m)} n) ∧
      ∀ text, word = bytes text →
        n = ((Literal.read? text).map fun found => byteLength found.1.text).getD 0 := by
  have hlength : literalLength word =
      some (((Literal.read? (word.map shown)).map fun found => byteLength found.1.text).getD 0) := by
    rw [literalLength_shown, literalLength_bytes]
  have htext : ∀ n, literalLength word = some n → ∀ text, word = bytes text →
      n = ((Literal.read? text).map fun found => byteLength found.1.text).getD 0 := by
    rintro n hn text rfl
    rw [literalLength_bytes] at hn
    exact (Option.some.inj hn).symm
  cases hread : Literal.read? (word.map shown) with
  | none =>
    rw [hread] at hlength
    refine ⟨0, hlength, Nat.zero_le _, ?_, fun hne => absurd rfl hne, htext 0 hlength⟩
    exact iff_of_true rfl fun beginning => not_isLiteral_of_read? hread
  | some found =>
    obtain ⟨literal, rest⟩ := found
    rw [hread] at hlength
    have hgreatest := isGreatest_of_read? hread
    have hne : byteLength literal.text ≠ 0 := by
      have hshorter := Literal.length_rest_lt hread
      rw [← Literal.text_of_read? hread, List.length_append] at hshorter
      rw [Literal.byteLength_text (Literal.read?_eq_some_iff_isLongest.1 hread).valid]
      omega
    refine ⟨_, hlength, hgreatest.1.1, ?_, fun _ => hgreatest, htext _ hlength⟩
    exact iff_of_false hne fun hnone => hnone _ (List.take_prefix _ word) hgreatest.1.2

/-- A mark without digits is no exponent, and a byte that begins no character ends the search. -/
example : literalLength [0x2D, 0x2E, 0x35, 0x65, 0x2B, 0xFF] = some 3 := by cbv

end ByPosition

end PenPlot
