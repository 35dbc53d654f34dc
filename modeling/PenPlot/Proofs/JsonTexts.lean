import Mathlib.Algebra.Ring.Parity
import Mathlib.Data.List.Forall2
import Mathlib.Data.List.Induction
import Mathlib.Data.List.TakeWhile
import PenPlot.Decimal.Text
import PenPlot.Plot.Trace
import PenPlot.Proofs.Arguments
import PenPlot.Text.JsonReading

/-!
# What is written as JSON

A text that stands between quotation marks with its escapes is read back as it was. Whatever it held,
there is no control character between the marks, every quotation mark between them is escaped, and the
backslashes at the end are pairs, so that the mark behind them closes the text. Whole numbers and
decimals with a fixed number of places are JSON numbers, and members between braces are read one by one.
-/

namespace PenPlot

namespace Text

/-! ## Escapes -/

/-- A character is escaped by one character, or by four digits, or stands for itself. -/
theorem jsonChar_cases (c : Char) :
    (∃ letter, letter ≠ 'u' ∧ 0x20 ≤ letter.toNat ∧ (letter = '\\' ↔ c = '\\') ∧
        (letter = '"' ↔ c = '"') ∧ shortEscapes.lookup letter = some c ∧
        jsonChar c = ['\\', letter]) ∨
      (c.toNat < 0x20 ∧ jsonChar c = '\\' :: 'u' :: fourHexDigits c.toNat) ∨
      (0x20 ≤ c.toNat ∧ c ≠ '\\' ∧ c ≠ '"' ∧ jsonChar c = [c]) := by
  unfold jsonChar
  split
  · exact .inl ⟨'\\', by decide, by decide, by decide, by decide, rfl, rfl⟩
  · exact .inl ⟨'"', by decide, by decide, by decide, by decide, rfl, rfl⟩
  · exact .inl ⟨'n', by decide, by decide, by decide, by decide, rfl, rfl⟩
  · exact .inl ⟨'r', by decide, by decide, by decide, by decide, rfl, rfl⟩
  · exact .inl ⟨'t', by decide, by decide, by decide, by decide, rfl, rfl⟩
  next hbackslash hquote _ _ _ =>
    right
    split
    · next hcontrol => exact .inl ⟨hcontrol, rfl⟩
    · next hcontrol => exact .inr ⟨Nat.le_of_not_lt hcontrol, hbackslash, hquote, rfl⟩

theorem hexDigit?_digitChar : ∀ n < 16, hexDigit? (Nat.digitChar n) = some n := by decide

theorem fourHex?_fourHexDigits {n : Nat} (h : n < 65536) (rest : List Char) :
    fourHex? (fourHexDigits n ++ rest) = some (n, rest) := by
  have hdigit (k : Nat) : hexDigit? (Nat.digitChar (k % 16)) = some (k % 16) :=
    hexDigit?_digitChar _ (Nat.mod_lt _ (by decide))
  have hvalue : ((n / 4096 % 16 * 16 + n / 256 % 16) * 16 + n / 16 % 16) * 16 + n % 16 = n := by
    omega
  simp only [fourHexDigits, List.map_cons, List.map_nil, List.cons_append, List.nil_append, fourHex?,
    hdigit, Option.bind_eq_bind, Option.bind_some, hvalue]
  rfl

/-- A character is read back before any text. -/
theorem jsonText?_jsonChar (c : Char) (text : List Char) :
    jsonText? (jsonChar c ++ text) =
      (jsonText? text).map fun (held, rest) => (c :: held, rest) := by
  rcases jsonChar_cases c with ⟨letter, hletter, -, -, -, hlookup, heq⟩ | ⟨hcontrol, heq⟩ |
    ⟨hvisible, hbackslash, hquote, heq⟩
  · have hescaped : escaped? (letter :: text) = some (c, text) := by
      rw [escaped?, if_neg hletter, hlookup]
      rfl
    rw [heq]
    exact jsonText?_of_escaped hescaped
  · have hunits : units? (fourHexDigits c.toNat ++ text) = some (c, text) := by
      rw [units?, fourHex?_fourHexDigits (by omega)]
      simp only
      rw [if_neg (by omega), if_neg (by omega), Char.ofNat_toNat]
    have hescaped : escaped? ('u' :: fourHexDigits c.toNat ++ text) = some (c, text) := hunits
    rw [heq]
    exact jsonText?_of_escaped hescaped
  · rw [heq]
    exact jsonText?_of_visible hvisible hbackslash hquote text

/-- A text is read back up to the quotation mark behind it. -/
theorem jsonText?_jsonEscape (text rest : List Char) :
    jsonText? (jsonEscape text ++ '"' :: rest) = some (text, rest) := by
  induction text with
  | nil => exact jsonText?_quote rest
  | cons c text ih =>
    rw [jsonEscape, List.flatMap_cons, List.append_assoc, jsonText?_jsonChar, ← jsonEscape, ih]
    rfl

example : jsonText? (jsonEscape "\"a\x01b".toList ++ '"' :: ",".toList) =
    some ("\"a\x01b".toList, ",".toList) := by cbv

/-! ## Marks and backslashes -/

/-- How many backslashes stand at the end of a text. A character behind the text is escaped if their
number is odd. -/
def endingBackslashes (text : List Char) : Nat := (text.reverse.takeWhile (· == '\\')).length

theorem endingBackslashes_concat (text : List Char) (c : Char) :
    endingBackslashes (text ++ [c]) = if c = '\\' then endingBackslashes text + 1 else 0 := by
  by_cases hc : c = '\\'
  · simp [endingBackslashes, hc]
  · simp [endingBackslashes, hc]

theorem jsonEscape_concat (text : List Char) (c : Char) :
    jsonEscape (text ++ [c]) = jsonEscape text ++ jsonChar c := by
  simp [jsonEscape]

theorem fourHexDigits_ne_nil (n : Nat) : fourHexDigits n ≠ [] := List.cons_ne_nil _ _

theorem of_mem_fourHexDigits {n : Nat} {c : Char} (h : c ∈ fourHexDigits n) :
    c ≠ '\\' ∧ c ≠ '"' ∧ 0x20 ≤ c.toNat := by
  have hdigit : ∀ k < 16, Nat.digitChar k ≠ '\\' ∧ Nat.digitChar k ≠ '"' ∧
      0x20 ≤ (Nat.digitChar k).toNat := by decide
  simp only [fourHexDigits, List.map_cons, List.map_nil, List.mem_cons, List.not_mem_nil, or_false] at h
  rcases h with rfl | rfl | rfl | rfl <;> exact hdigit _ (Nat.mod_lt _ (by decide))

/-- No control character stands in an escaped text. -/
theorem le_toNat_of_mem_jsonEscape {text : List Char} {c : Char} (h : c ∈ jsonEscape text) :
    0x20 ≤ c.toNat := by
  obtain ⟨d, -, hc⟩ := List.mem_flatMap.1 h
  rcases jsonChar_cases d with ⟨letter, -, hletter, -, -, -, heq⟩ | ⟨-, heq⟩ | ⟨hvisible, -, -, heq⟩
  · rw [heq, List.mem_cons, List.mem_singleton] at hc
    rcases hc with rfl | rfl
    · decide
    · exact hletter
  · rw [heq, List.mem_cons, List.mem_cons] at hc
    rcases hc with rfl | rfl | hdigit
    · decide
    · decide
    · exact (of_mem_fourHexDigits hdigit).2.2
  · rw [heq, List.mem_singleton] at hc
    exact hc ▸ hvisible

theorem even_endingBackslashes_append_jsonChar {front : List Char} (h : Even (endingBackslashes front))
    (c : Char) : Even (endingBackslashes (front ++ jsonChar c)) := by
  rcases jsonChar_cases c with ⟨letter, -, -, -, -, -, heq⟩ | ⟨-, heq⟩ | ⟨-, hbackslash, -, heq⟩
  · rw [heq, List.append_cons, endingBackslashes_concat, endingBackslashes_concat, if_pos rfl]
    split
    · exact h.add_one.add_one
    · exact Even.zero
  · -- The last digit is no backslash.
    have hlast := (of_mem_fourHexDigits (List.getLast_mem (fourHexDigits_ne_nil c.toNat))).1
    rw [heq, ← List.dropLast_concat_getLast (fourHexDigits_ne_nil c.toNat), ← List.cons_append,
      ← List.cons_append, ← List.append_assoc, endingBackslashes_concat, if_neg hlast]
    exact Even.zero
  · rw [heq, endingBackslashes_concat, if_neg hbackslash]
    exact Even.zero

/-- The backslashes at the end of an escaped text are pairs. -/
theorem even_endingBackslashes_jsonEscape (text : List Char) :
    Even (endingBackslashes (jsonEscape text)) := by
  induction text using List.reverseRecOn with
  | nil => exact Even.zero
  | append_singleton text c ih =>
    rw [jsonEscape_concat]
    exact even_endingBackslashes_append_jsonChar ih c

/-- A quotation mark is written for no character but the quotation mark. -/
theorem eq_backslash_of_jsonChar_eq {c : Char} {front back : List Char}
    (h : jsonChar c = front ++ '"' :: back) : front = ['\\'] := by
  rcases jsonChar_cases c with ⟨letter, -, -, -, -, -, heq⟩ | ⟨-, heq⟩ | ⟨-, -, hquote, heq⟩
  · rw [heq] at h
    match front with
    | [] => cases h
    | [d] => rw [(List.cons.inj h).1]
    | _ :: _ :: _ => simp at h
  · have hmem : '"' ∈ jsonChar c := h ▸ List.mem_append_right _ List.mem_cons_self
    rw [heq] at hmem
    simp only [List.mem_cons] at hmem
    rcases hmem with hmark | hmark | hmark
    · cases hmark
    · cases hmark
    · exact absurd rfl (of_mem_fourHexDigits hmark).2.1
  · have hmem : '"' ∈ jsonChar c := h ▸ List.mem_append_right _ List.mem_cons_self
    rw [heq, List.mem_singleton] at hmem
    exact absurd hmem.symm hquote

/-- Every quotation mark in an escaped text is escaped. -/
theorem odd_endingBackslashes_of_jsonEscape_eq {text front back : List Char}
    (h : jsonEscape text = front ++ '"' :: back) : Odd (endingBackslashes front) := by
  induction text using List.reverseRecOn generalizing front back with
  | nil => simp [jsonEscape] at h
  | append_singleton text c ih =>
    rw [jsonEscape_concat] at h
    rcases List.append_eq_append_iff.1 h with ⟨inside, hfront, hinside⟩ | ⟨behind, htext, hbehind⟩
    · -- The mark belongs to the last character.
      rw [hfront, eq_backslash_of_jsonChar_eq hinside, endingBackslashes_concat, if_pos rfl]
      exact (even_endingBackslashes_jsonEscape text).add_one
    · match behind with
      | [] =>
        have hinside : jsonChar c = [] ++ '"' :: back := hbehind.symm
        cases eq_backslash_of_jsonChar_eq hinside
      | d :: others =>
        have hmark : '"' = d := (List.cons.inj hbehind).1
        rw [← hmark] at htext
        exact ih htext

/-- A text that can stand between quotation marks: the first mark that is not escaped is the one behind
it, and there is no control character. -/
structure IsQuotable (escaped : List Char) : Prop where
  marks : ∀ front back, escaped = front ++ '"' :: back → Odd (endingBackslashes front)
  ending : Even (endingBackslashes escaped)
  visible : ∀ c ∈ escaped, 0x20 ≤ c.toNat

theorem isQuotable_jsonEscape (text : List Char) : IsQuotable (jsonEscape text) where
  marks _ _ h := odd_endingBackslashes_of_jsonEscape_eq h
  ending := even_endingBackslashes_jsonEscape text
  visible _ h := le_toNat_of_mem_jsonEscape h

/-! ## Numbers -/

theorem isDigits_iff {text : List Char} :
    isDigits text = true ↔ text ≠ [] ∧ ∀ c ∈ text, c.isDigit = true := by
  simp [isDigits]

theorem isDigits_toDigits (n : Nat) : isDigits (Nat.toDigits 10 n) = true :=
  isDigits_iff.2 ⟨Nat.toDigits_ne_nil,
    fun _ hc => Nat.isDigit_of_mem_toDigits (by decide) (by decide) hc⟩

theorem head?_toDigits_ne {n : Nat} (h : 0 < n) : (Nat.toDigits 10 n).head? ≠ some '0' := by
  induction n using Nat.strong_induction_on with
  | _ n ih =>
    by_cases hn : n < 10
    · have hdigit : ∀ k < 10, 0 < k → Nat.digitChar k ≠ '0' := by decide
      rw [Nat.toDigits_of_lt_base hn]
      simpa using hdigit n hn h
    · have hleading := ih (n / 10) (by omega) (by omega)
      obtain ⟨c, others, hdigits⟩ :=
        List.exists_cons_of_ne_nil (Nat.toDigits_ne_nil (n := n / 10) (b := 10))
      rw [Nat.toDigits_of_base_le (by decide) (by omega), hdigits]
      rw [hdigits] at hleading
      exact hleading

theorem isWhole_toDigits (n : Nat) : isWhole (Nat.toDigits 10 n) = true := by
  rw [isWhole, isDigits_toDigits, Bool.true_and, Bool.or_eq_true, bne_iff_ne]
  rcases Nat.eq_zero_or_pos n with rfl | hn
  · exact .inl rfl
  · exact .inr (head?_toDigits_ne hn)

/-- What a whole number begins with is one as well. -/
theorem isWhole_take {text : List Char} (h : isWhole text = true) {k : Nat} (hk : 0 < k) :
    isWhole (text.take k) = true := by
  rw [isWhole, Bool.and_eq_true, Bool.or_eq_true] at h ⊢
  obtain ⟨hdigits, hzero⟩ := h
  obtain ⟨hne, hall⟩ := isDigits_iff.1 hdigits
  obtain ⟨c, others, rfl⟩ := List.exists_cons_of_ne_nil hne
  obtain ⟨k, rfl⟩ := Nat.exists_eq_succ_of_ne_zero (Nat.ne_of_gt hk)
  refine ⟨isDigits_iff.2 ⟨List.cons_ne_nil _ _, fun d hd => hall d (List.mem_of_mem_take hd)⟩, ?_⟩
  rcases hzero with hone | hzero
  · have hnil : others = [] := by simpa using hone
    exact .inl (by simp [hnil])
  · exact .inr hzero

theorem of_isDigit {c : Char} (h : c.isDigit = true) :
    isExponentMark c = false ∧ c ≠ '.' ∧ c ≠ '-' := by
  refine ⟨?_, ?_, ?_⟩
  · rw [Bool.eq_false_iff]
    intro hmark
    rw [isExponentMark, Bool.or_eq_true, beq_iff_eq, beq_iff_eq] at hmark
    rcases hmark with rfl | rfl <;> cases h
  · rintro rfl
    cases h
  · rintro rfl
    cases h

theorem mem_joinPoint {whole fraction : List Char} {c : Char}
    (h : c ∈ Decimal.joinPoint whole fraction) : c ∈ whole ∨ c = '.' ∨ c ∈ fraction := by
  rw [Decimal.joinPoint] at h
  split at h
  · exact .inl h
  · exact (List.mem_append.1 h).imp_right List.mem_cons.1

/-- Digits, with more of them behind a point or none, are a number without a sign. -/
theorem isUnsignedNumber_joinPoint {whole fraction : List Char} (hwhole : isWhole whole = true)
    (hfraction : ∀ c ∈ fraction, c.isDigit = true) :
    isUnsignedNumber (Decimal.joinPoint whole fraction) = true := by
  have hdigits := (isDigits_iff.1 (Bool.and_eq_true_iff.1 hwhole).1).2
  have hmark : ∀ c ∈ Decimal.joinPoint whole fraction, (!isExponentMark c) = true := by
    intro c hc
    rcases mem_joinPoint hc with hc | rfl | hc
    · rw [(of_isDigit (hdigits c hc)).1]
      rfl
    · rfl
    · rw [(of_isDigit (hfraction c hc)).1]
      rfl
  have hpoint : ∀ c ∈ whole, (c != '.') = true := fun c hc =>
    bne_iff_ne.2 (of_isDigit (hdigits c hc)).2.1
  rw [isUnsignedNumber, List.takeWhile_eq_self_iff.2 hmark, List.dropWhile_eq_nil_iff.2 hmark]
  rw [Decimal.joinPoint]
  split
  · rw [List.takeWhile_eq_self_iff.2 hpoint, List.dropWhile_eq_nil_iff.2 hpoint, hwhole]
    rfl
  · next hne =>
    have hsome : isDigits fraction = true := isDigits_iff.2 ⟨by simpa using hne, hfraction⟩
    rw [List.takeWhile_append_of_pos hpoint, List.dropWhile_append_of_pos hpoint]
    simpa [isMarkedDigits, isMarkedExponent, hsome] using hwhole

theorem isJsonNumber_signed {text : List Char} (h : isUnsignedNumber text = true)
    (hsign : text.head? ≠ some '-')
    (sign : Float.Model.UnpackedFloat.Sign) : isJsonNumber (Decimal.signed sign text) = true := by
  cases sign with
  | negative => exact h
  | positive =>
    show isJsonNumber text = true
    unfold isJsonNumber
    split
    · exact absurd rfl hsign
    · exact h

theorem head?_joinPoint {whole fraction : List Char} (hwhole : isWhole whole = true) :
    (Decimal.joinPoint whole fraction).head? ≠ some '-' := by
  obtain ⟨hne, hdigits⟩ := isDigits_iff.1 (Bool.and_eq_true_iff.1 hwhole).1
  obtain ⟨c, others, rfl⟩ := List.exists_cons_of_ne_nil hne
  have hc := (of_isDigit (hdigits c List.mem_cons_self)).2.2
  rw [Decimal.joinPoint]
  split <;> simpa using hc

/-- Both parts are digits, and the first is a whole number. -/
theorem pointed_parts (n places : Nat) : isWhole (Decimal.pointed n places).1 = true ∧
    ∀ c ∈ (Decimal.pointed n places).2, c.isDigit = true := by
  have hdigits := (isDigits_iff.1 (isDigits_toDigits n)).2
  simp only [Decimal.pointed, List.splitAt_eq]
  by_cases hlong : places < (Nat.toDigits 10 n).length
  · rw [show places + 1 - (Nat.toDigits 10 n).length = 0 by omega, List.replicate_zero,
      List.nil_append]
    exact ⟨isWhole_take (isWhole_toDigits n) (by omega),
      fun c hc => hdigits c (List.mem_of_mem_drop hc)⟩
  · -- Zeros are put in front, so that just one of them stands before the point.
    obtain ⟨zeros, hzeros⟩ : ∃ zeros, places + 1 - (Nat.toDigits 10 n).length = zeros + 1 :=
      ⟨places - (Nat.toDigits 10 n).length, by omega⟩
    have hlength : (List.replicate (zeros + 1) '0' ++ Nat.toDigits 10 n).length - places = 1 := by
      rw [List.length_append, List.length_replicate]
      omega
    rw [hzeros, hlength]
    refine ⟨rfl, ?_⟩
    intro c hc
    rcases List.mem_append.1 (List.mem_of_mem_drop hc) with hzero | hdigit
    · rw [List.eq_of_mem_replicate hzero]
      rfl
    · exact hdigits c hdigit

theorem isPlain_of_isDigit {c : Char} (h : c.isDigit = true) : isPlain c = true := by
  simp [isPlain, Char.isAlphanum, h]

theorem le_toNat_of_isPlain {c : Char} (h : isPlain c = true) : 0x20 ≤ c.toNat := by
  have hcontrol : ∀ n < 0x20, isPlain (Char.ofNat n) = false := by decide
  by_contra hlt
  rw [← Char.ofNat_toNat c, hcontrol _ (Nat.lt_of_not_le hlt)] at h
  cases h

theorem isPlain_of_mem_joinPoint {whole fraction : List Char}
    (hwhole : ∀ c ∈ whole, c.isDigit = true) (hfraction : ∀ c ∈ fraction, c.isDigit = true) :
    ∀ c ∈ Decimal.joinPoint whole fraction, isPlain c = true := by
  intro c hc
  rcases mem_joinPoint hc with hc | rfl | hc
  · exact isPlain_of_isDigit (hwhole c hc)
  · rfl
  · exact isPlain_of_isDigit (hfraction c hc)

/-- A JSON number of none but the characters of words and numbers, so that it ends where those end. -/
def IsNumeral (text : List Char) : Prop :=
  isJsonNumber text = true ∧ ∀ c ∈ text, isPlain c = true

theorem isNumeral_signed {whole fraction : List Char} (hwhole : isWhole whole = true)
    (hfraction : ∀ c ∈ fraction, c.isDigit = true) (sign : Float.Model.UnpackedFloat.Sign) :
    IsNumeral (Decimal.signed sign (Decimal.joinPoint whole fraction)) := by
  have hdigits := (isDigits_iff.1 (Bool.and_eq_true_iff.1 hwhole).1).2
  have hplain := isPlain_of_mem_joinPoint hdigits hfraction
  refine ⟨isJsonNumber_signed (isUnsignedNumber_joinPoint hwhole hfraction) (head?_joinPoint hwhole)
    sign, ?_⟩
  cases sign with
  | positive => exact hplain
  | negative => exact List.forall_mem_cons.2 ⟨rfl, hplain⟩

/-- Every finite value is written as a number. -/
theorem isNumeral_fixed (places : Nat) {x : Float} (h : x.toModel.unpack.isFinite = true) :
    IsNumeral (Decimal.fixed places x).toList := by
  have hsigned (sign : Float.Model.UnpackedFloat.Sign) (n : Nat) : IsNumeral
      (String.ofList (Decimal.signed sign (Decimal.joinPoint (Decimal.pointed n places).1
        (Decimal.pointed n places).2))).toList := by
    obtain ⟨hwhole, hfraction⟩ := pointed_parts n places
    rw [String.toList_ofList]
    exact isNumeral_signed hwhole hfraction sign
  rw [Decimal.fixed]
  cases hx : x.toModel.unpack with
  | infinity sign =>
    rw [hx] at h
    cases h
  | notANumber =>
    rw [hx] at h
    cases h
  | zero sign => exact hsigned sign _
  | finite sign m e => exact hsigned sign _

theorem isNumeral_toDigits (n : Nat) : IsNumeral (Nat.toDigits 10 n) :=
  isNumeral_signed (isWhole_toDigits n) (List.forall_mem_nil _) .positive

end Text

/-! ## Values -/

namespace FrontReader

variable {β : Type}

/-- The reader takes the text for a value, whatever stands behind it that does not go on with a word. -/
def Takes (item : FrontReader β) (text : List Char) (value : β) : Prop :=
  ∀ rest, (∀ c ∈ rest.head?, Text.isPlain c = false) →
    item.read (text ++ rest) = some (value, rest)

variable {item : FrontReader β} {close : Char}

/-- Items that the reader takes are read one by one with commas between. -/
theorem separated_of_takes (hplain : Text.isPlain close = false)
    (hblank : Text.isJsonBlank close = false) (hcomma : close ≠ ',') {texts : List (List Char)}
    {values : List β} (h : List.Forall₂ item.Takes texts values) (hne : texts ≠ [])
    (rest : List Char) :
    item.separated close (List.intercalate [','] texts ++ close :: rest) = some (values, rest) := by
  induction h with
  | nil => exact absurd rfl hne
  | @cons text value texts values htake hothers ih =>
    cases hothers with
    | nil =>
      have hitem := htake (close :: rest) (by simpa using hplain)
      rw [List.intercalate_singleton]
      rw [separated_of_read hitem (Text.skipJsonBlanks_cons hblank rest), if_pos rfl]
    | @cons next _ texts _ hnext hothers =>
      have hitem := htake (',' :: (List.intercalate [','] (next :: texts) ++ close :: rest))
        (by simp [Text.isPlain])
      rw [List.intercalate_cons_cons, List.append_assoc, List.append_assoc, List.cons_append,
        List.nil_append]
      rw [separated_of_read hitem (Text.skipJsonBlanks_cons rfl _), if_neg hcomma.symm, if_pos rfl,
        ih (List.cons_ne_nil _ _)]
      rfl

/-- Items that do not begin with a blank or with the mark that closes them are read up to that mark. -/
theorem items_of_takes (hplain : Text.isPlain close = false) (hblank : Text.isJsonBlank close = false)
    (hcomma : close ≠ ',') {texts : List (List Char)} {values : List β}
    (h : List.Forall₂ item.Takes texts values)
    (hfirst : ∀ text ∈ texts, ∃ c others, text = c :: others ∧ Text.isJsonBlank c = false ∧ c ≠ close)
    (rest : List Char) :
    item.items close (List.intercalate [','] texts ++ close :: rest) = some (values, rest) := by
  cases texts with
  | nil =>
    cases h
    rw [items, List.intercalate_nil, List.nil_append, Text.skipJsonBlanks_cons hblank]
    exact if_pos rfl
  | cons text texts =>
    obtain ⟨c, others, rfl, hc, hclose⟩ := hfirst text List.mem_cons_self
    have hall := separated_of_takes hplain hblank hcomma h (List.cons_ne_nil _ _) rest
    rw [List.intercalate_cons_cons_left, List.cons_append] at hall ⊢
    rw [items, Text.skipJsonBlanks_cons hc]
    exact (if_neg hclose).trans hall

end FrontReader

namespace JsonValue

theorem takes_quoted (inner : FrontReader JsonValue) (text : List Char) :
    (reader inner).Takes (TraceValue.quoted text) (.string text) := by
  intro rest _
  rw [TraceValue.quoted, List.append_assoc]
  show (reader inner).read ('"' :: (Text.jsonEscape text ++ '"' :: rest)) = _
  rw [read_quote, Text.jsonText?_jsonEscape]
  rfl

/-- What the reader takes at the front is read when nothing stands behind it. -/
theorem read?_of_takes {text : List Char} {value : JsonValue}
    (h : (readerBelow text.length).Takes text value) : read? text = some value := by
  have hread := h [] (fun _ hc => by cases hc)
  rw [List.append_nil] at hread
  rw [read?, hread]
  rfl

/-- A text between quotation marks is read as it was. -/
theorem read?_quoted (text : List Char) : read? (TraceValue.quoted text) = some (.string text) :=
  read?_of_takes (takes_quoted (readerBelow (Text.jsonEscape text ++ ['"']).length) text)

theorem takes_numeral (inner : FrontReader JsonValue) {text : List Char} (h : Text.IsNumeral text) :
    (reader inner).Takes text (.number text) := by
  intro rest hrest
  obtain ⟨hnumber, hplain⟩ := h
  have hdrop : (text ++ rest).dropWhile Text.isPlain = rest :=
    dropWhile_append_of_head hplain hrest
  have htake : (text ++ rest).takeWhile Text.isPlain = text := by
    have hsplit := List.takeWhile_append_dropWhile (p := Text.isPlain) (l := text ++ rest)
    rw [hdrop] at hsplit
    exact List.append_cancel_right hsplit
  cases text with
  | nil => cases hnumber
  | cons c others =>
    rw [List.cons_append, read_plain inner (hplain c List.mem_cons_self), ← List.cons_append, htake,
      hdrop, ofPlain?, if_pos hnumber]
    rfl

/-- A name and the text of its value are read as a member. -/
theorem takes_member {inner : FrontReader JsonValue} {text : List Char} {value : JsonValue}
    (h : inner.Takes text value) (name : String) :
    inner.member.Takes (TraceValue.quoted name.toList ++ ':' :: text) (name.toList, value) := by
  intro rest hrest
  have hname : Text.jsonText? (Text.jsonEscape name.toList ++ '"' :: ':' :: (text ++ rest)) =
      some (name.toList, ':' :: (text ++ rest)) := Text.jsonText?_jsonEscape _ _
  rw [TraceValue.quoted, List.append_assoc, List.append_assoc]
  show inner.member.read ('"' :: (Text.jsonEscape name.toList ++ '"' :: ':' :: (text ++ rest))) = _
  rw [FrontReader.member_read_quote hname, h rest hrest]
  rfl

/-- Members whose values are taken make an object that is taken. -/
theorem takes_object {inner : FrontReader JsonValue} {members : List (String × List Char)}
    {values : List (List Char × JsonValue)}
    (h : List.Forall₂ (fun member value => value.1 = member.1.toList ∧ inner.Takes member.2 value.2)
      members values) : (reader inner).Takes (TraceValue.object members) (.object values) := by
  intro rest _
  have htakes : List.Forall₂ inner.member.Takes
      (members.map fun member => TraceValue.quoted member.1.toList ++ ':' :: member.2) values := by
    rw [List.forall₂_map_left_iff]
    refine h.imp ?_
    rintro ⟨name, text⟩ ⟨_, value⟩ ⟨rfl, hvalue⟩
    exact takes_member hvalue name
  have hitems : inner.member.items '\x7d' (List.intercalate [',']
      (members.map fun member => TraceValue.quoted member.1.toList ++ ':' :: member.2) ++
        '\x7d' :: rest) = some (values, rest) := by
    refine FrontReader.items_of_takes rfl rfl (by decide) htakes ?_ rest
    intro text htext
    obtain ⟨⟨name, value⟩, -, rfl⟩ := List.mem_map.1 htext
    exact ⟨'"', _, rfl, rfl, by decide⟩
  show (reader inner).read ('\x7b' :: (_ ++ ['\x7d']) ++ rest) = _
  rw [List.cons_append, List.append_assoc, read_brace, List.cons_append, List.nil_append, hitems]
  rfl

end JsonValue

end PenPlot
