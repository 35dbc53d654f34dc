import PenPlot.Text.JsonString

/-!
# Reading JSON

A JSON text is one value with blanks around it: a word, a number, a string, an array of values or an
object of named values. Blanks may stand before and behind every mark and every value. Numbers are
kept as they are written, since a reader may take them for numbers of any precision.

A string is decoded on the way. An escape gives one character by a letter or by its units in UTF-16,
each in four hexadecimal digits; a quotation mark, a backslash or a control character does not stand
for itself.
-/

namespace PenPlot

namespace Text

/-! ## Strings -/

/-- The value of a hexadecimal digit, in either case. -/
def hexDigit? (c : Char) : Option Nat :=
  if '0' ≤ c ∧ c ≤ '9' then some (c.toNat - '0'.toNat)
  else if 'a' ≤ c ∧ c ≤ 'f' then some (c.toNat - 'a'.toNat + 10)
  else if 'A' ≤ c ∧ c ≤ 'F' then some (c.toNat - 'A'.toNat + 10)
  else none

/-- The number that is given by four hexadecimal digits, and the text behind them. -/
def fourHex? : List Char → Option (Nat × List Char)
  | a :: b :: c :: d :: rest => do
    let first ← hexDigit? a
    let second ← hexDigit? b
    let third ← hexDigit? c
    let fourth ← hexDigit? d
    pure (((first * 16 + second) * 16 + third) * 16 + fourth, rest)
  | _ => none

/-- The character that is given by its units in UTF-16, of which the second, if there is one, is an
escape of its own. Half of a pair is no character. -/
def units? (text : List Char) : Option (Char × List Char) :=
  match fourHex? text with
  | none => none
  | some (unit, rest) =>
    if 0xD800 ≤ unit ∧ unit < 0xDC00 then
      match rest with
      | '\\' :: 'u' :: rest =>
        match fourHex? rest with
        | some (low, rest) =>
          if 0xDC00 ≤ low ∧ low < 0xE000 then
            some (Char.ofNat (0x10000 + (unit - 0xD800) * 0x400 + (low - 0xDC00)), rest)
          else none
        | none => none
      | _ => none
    else if 0xDC00 ≤ unit ∧ unit < 0xE000 then none
    else some (Char.ofNat unit, rest)

/-- The characters that are escaped by one character, each behind the one that stands for it. -/
def shortEscapes : List (Char × Char) :=
  [('"', '"'), ('\\', '\\'), ('/', '/'), ('b', '\x08'), ('f', '\x0c'), ('n', '\n'), ('r', '\r'),
    ('t', '\t')]

/-- The character that is given by an escape, without the backslash before it. -/
def escaped? : List Char → Option (Char × List Char)
  | [] => none
  | c :: rest => if c = 'u' then units? rest else (shortEscapes.lookup c).map fun d => (d, rest)

theorem length_fourHex?_lt {text rest : List Char} {n : Nat} (h : fourHex? text = some (n, rest)) :
    rest.length < text.length := by
  match text with
  | a :: b :: c :: d :: behind =>
    simp only [fourHex?, Option.bind_eq_bind, Option.bind_eq_some_iff] at h
    obtain ⟨_, -, _, -, _, -, _, -, h⟩ := h
    cases h
    simp only [List.length_cons]
    omega
  | [] | [_] | [_, _] | [_, _, _] => cases h

theorem length_units?_lt {text rest : List Char} {c : Char} (h : units? text = some (c, rest)) :
    rest.length < text.length := by
  unfold units? at h
  split at h
  · cases h
  · next unit behind hunit =>
    have hfirst := length_fourHex?_lt hunit
    split at h
    · split at h
      · next second =>
        split at h
        · next low last hlow =>
          have hsecond := length_fourHex?_lt hlow
          split at h
          · obtain ⟨-, rfl⟩ := Prod.mk.inj (Option.some.inj h)
            simp only [List.length_cons] at hfirst
            omega
          · cases h
        · cases h
      · cases h
    · split at h
      · cases h
      · obtain ⟨-, rfl⟩ := Prod.mk.inj (Option.some.inj h)
        exact hfirst

theorem length_escaped?_lt {text rest : List Char} {c : Char} (h : escaped? text = some (c, rest)) :
    rest.length < text.length := by
  cases text with
  | nil => cases h
  | cons d behind =>
    rw [escaped?] at h
    split at h
    · exact Nat.lt_succ_of_lt (length_units?_lt h)
    · obtain ⟨e, -, he⟩ := Option.map_eq_some_iff.1 h
      cases he
      exact Nat.lt_succ_self _

/-- The text that a JSON string holds, read from behind its first quotation mark, and what stands behind
its last one. -/
def jsonText? : List Char → Option (List Char × List Char)
  | [] => none
  | c :: rest =>
    if c = '"' then some ([], rest)
    else if c = '\\' then
      match h : escaped? rest with
      | none => none
      | some (d, behind) =>
        have := length_escaped?_lt h
        (jsonText? behind).map fun (text, rest) => (d :: text, rest)
    else if c.toNat < 0x20 then none
    else (jsonText? rest).map fun (text, rest) => (c :: text, rest)
termination_by text => text.length

theorem jsonText?_quote (rest : List Char) : jsonText? ('"' :: rest) = some ([], rest) := by
  rw [jsonText?, if_pos rfl]

theorem jsonText?_of_escaped {text behind : List Char} {c : Char}
    (h : escaped? text = some (c, behind)) :
    jsonText? ('\\' :: text) =
      (jsonText? behind).map fun (held, rest) => (c :: held, rest) := by
  rw [jsonText?, if_neg (by decide), if_pos rfl]
  split
  · simp_all
  · next hother =>
    rw [h] at hother
    cases hother
    rfl

theorem jsonText?_of_visible {c : Char} (hvisible : 0x20 ≤ c.toNat) (hbackslash : c ≠ '\\')
    (hquote : c ≠ '"') (text : List Char) :
    jsonText? (c :: text) = (jsonText? text).map fun (held, rest) => (c :: held, rest) := by
  rw [jsonText?, if_neg hquote, if_neg hbackslash, if_neg (Nat.not_lt.2 hvisible)]

theorem length_jsonText?_lt {text held rest : List Char} (h : jsonText? text = some (held, rest)) :
    rest.length < text.length := by
  fun_induction jsonText? text generalizing held with
  | case1 => cases h
  | case2 behind =>
    cases h
    exact Nat.lt_succ_self _
  | case3 => cases h
  | case4 behind d last hescaped hlast _ ih =>
    obtain ⟨⟨others, _⟩, hothers, heq⟩ := Option.map_eq_some_iff.1 h
    cases heq
    have hrest := ih hothers
    simp only [List.length_cons]
    omega
  | case5 => cases h
  | case6 c behind _ _ _ ih =>
    obtain ⟨⟨others, _⟩, hothers, heq⟩ := Option.map_eq_some_iff.1 h
    cases heq
    exact Nat.lt_succ_of_lt (ih hothers)

/-! ## Blanks, words and numbers -/

/-- A character that may stand between the marks and values of a JSON text. -/
def isJsonBlank (c : Char) : Bool := c == ' ' || c == '\t' || c == '\n' || c == '\r'

/-- The text without the blanks at its beginning. -/
def skipJsonBlanks (text : List Char) : List Char := text.dropWhile isJsonBlank

/-- A character of a word or a number. -/
def isPlain (c : Char) : Bool := c.isAlphanum || c == '-' || c == '+' || c == '.'

/-- Digits, at least one. -/
def isDigits (text : List Char) : Bool := !text.isEmpty && text.all Char.isDigit

/-- A whole number, which has no zero in front of other digits. -/
def isWhole (text : List Char) : Bool :=
  isDigits text && (text.length == 1 || text.head? != some '0')

/-- Nothing, or digits behind a mark. -/
def isMarkedDigits : List Char → Bool
  | [] => true
  | _ :: digits => isDigits digits

/-- Nothing, or digits behind a mark and perhaps a sign. -/
def isMarkedExponent : List Char → Bool
  | _ :: '+' :: digits => isDigits digits
  | _ :: '-' :: digits => isDigits digits
  | text => isMarkedDigits text

/-- The mark before the exponent of a number. -/
def isExponentMark (c : Char) : Bool := c == 'e' || c == 'E'

/-- A JSON number without its sign: a whole number, then digits behind a point or none, then an exponent
or none. -/
def isUnsignedNumber (text : List Char) : Bool :=
  let decimal := text.takeWhile (!isExponentMark ·)
  isWhole (decimal.takeWhile (· != '.')) && isMarkedDigits (decimal.dropWhile (· != '.')) &&
    isMarkedExponent (text.dropWhile (!isExponentMark ·))

/-- A JSON number. -/
def isJsonNumber : List Char → Bool
  | '-' :: text => isUnsignedNumber text
  | text => isUnsignedNumber text

theorem skipJsonBlanks_cons {c : Char} (h : isJsonBlank c = false) (text : List Char) :
    skipJsonBlanks (c :: text) = c :: text := by
  rw [skipJsonBlanks, List.dropWhile_cons_of_neg (Bool.not_eq_true _ ▸ h)]

/-- The text without the blanks in front of it is not longer. -/
theorem length_skipJsonBlanks_le (text : List Char) :
    (skipJsonBlanks text).length ≤ text.length :=
  (List.dropWhile_sublist _).length_le

end Text

/-! ## Values -/

/-- A JSON value. -/
inductive JsonValue where
  /-- No value. -/
  | null
  /-- One of the truth values. -/
  | bool (value : Bool)
  /-- A number, as it is written. -/
  | number (literal : List Char)
  /-- A text. -/
  | string (text : List Char)
  /-- Values in order. -/
  | array (items : List JsonValue)
  /-- Values by name, in order. -/
  | object (members : List (List Char × JsonValue))
  deriving Repr

/-- A reader of what a text begins with. -/
structure FrontReader (β : Type) where
  /-- What is read, and the text behind it, which is shorter. -/
  read : List Char → Option (β × List Char)
  length_lt : ∀ {text rest : List Char} {value : β},
    read text = some (value, rest) → rest.length < text.length

namespace FrontReader

variable {β : Type}

/-- The reader that reads nothing. -/
def never : FrontReader β where
  read _ := none
  length_lt h := by cases h

/-- At least one item with commas between, up to a mark that closes them. -/
def separated (item : FrontReader β) (close : Char) (text : List Char) :
    Option (List β × List Char) :=
  match h : item.read text with
  | none => none
  | some (first, behind) =>
    match hskip : Text.skipJsonBlanks behind with
    | [] => none
    | c :: rest =>
      if c = close then some ([first], rest)
      else if c = ',' then
        have : rest.length < text.length := by
          have hitem := item.length_lt h
          have hblanks := Text.length_skipJsonBlanks_le behind
          rw [hskip, List.length_cons] at hblanks
          omega
        (item.separated close rest).map fun (others, rest) => (first :: others, rest)
      else none
termination_by text.length

/-- Items with commas between, up to a mark that closes them. -/
def items (item : FrontReader β) (close : Char) (text : List Char) : Option (List β × List Char) :=
  match Text.skipJsonBlanks text with
  | [] => none
  | c :: rest => if c = close then some ([], rest) else item.separated close (c :: rest)

/-- Behind an item, only the next mark decides how the reading goes on. -/
theorem separated_of_read {item : FrontReader β} {close c : Char} {text behind rest : List Char}
    {first : β} (hitem : item.read text = some (first, behind))
    (hskip : Text.skipJsonBlanks behind = c :: rest) :
    item.separated close text =
      if c = close then some ([first], rest)
      else if c = ',' then
        (item.separated close rest).map fun (others, rest) => (first :: others, rest)
      else none := by
  rw [separated]
  split
  · next hnone =>
    rw [hitem] at hnone
    cases hnone
  · next hsome =>
    rw [hitem] at hsome
    cases hsome
    split
    · next hnil =>
      rw [hskip] at hnil
      cases hnil
    · next hcons =>
      rw [hskip] at hcons
      cases hcons
      rfl

theorem length_separated_lt {item : FrontReader β} {close : Char} {text rest : List Char}
    {values : List β} (h : item.separated close text = some (values, rest)) :
    rest.length < text.length := by
  fun_induction item.separated close text generalizing values with
  | case1 => cases h
  | case2 => cases h
  | case3 text first behind hitem last hskip =>
    cases h
    have hlast := item.length_lt hitem
    have hblanks := Text.length_skipJsonBlanks_le behind
    rw [hskip, List.length_cons] at hblanks
    omega
  | case4 text first behind hitem last _ _ hlast ih =>
    obtain ⟨⟨others, _⟩, hothers, heq⟩ := Option.map_eq_some_iff.1 h
    cases heq
    exact Nat.lt_trans (ih hothers) hlast
  | case5 => cases h

theorem length_items_lt {item : FrontReader β} {close : Char} {text rest : List Char}
    {values : List β} (h : item.items close text = some (values, rest)) :
    rest.length < text.length := by
  have hblanks := Text.length_skipJsonBlanks_le text
  unfold items at h
  split at h
  · cases h
  · next c behind hskip =>
    rw [hskip] at hblanks
    split at h
    · cases h
      exact hblanks
    · exact Nat.lt_of_lt_of_le (length_separated_lt h) hblanks

/-- A name and a value with a colon between. -/
def member (value : FrontReader β) : FrontReader (List Char × β) where
  read text :=
    match Text.skipJsonBlanks text with
    | '"' :: rest =>
      match Text.jsonText? rest with
      | some (name, rest) =>
        match Text.skipJsonBlanks rest with
        | ':' :: rest => (value.read rest).map fun (value, rest) => ((name, value), rest)
        | _ => none
      | none => none
    | _ => none
  length_lt := by
    intro text rest value h
    split at h
    · next begin hbegin =>
      have hblanks := Text.length_skipJsonBlanks_le text
      rw [hbegin, List.length_cons] at hblanks
      split at h
      · next name behind hname =>
        have hbehind := Text.length_jsonText?_lt hname
        have hmore := Text.length_skipJsonBlanks_le behind
        split at h
        · next last hcolon =>
          obtain ⟨⟨found, _⟩, hfound, heq⟩ := Option.map_eq_some_iff.1 h
          cases heq
          have hlast := value.length_lt hfound
          rw [hcolon, List.length_cons] at hmore
          omega
        · cases h
      · cases h
    · cases h

theorem member_read_quote {value : FrontReader β} {text rest name : List Char}
    (h : Text.jsonText? text = some (name, ':' :: rest)) :
    value.member.read ('"' :: text) =
      (value.read rest).map fun (value, rest) => ((name, value), rest) := by
  have hquote : Text.skipJsonBlanks ('"' :: text) = '"' :: text := Text.skipJsonBlanks_cons rfl _
  have hcolon : Text.skipJsonBlanks (':' :: rest) = ':' :: rest := Text.skipJsonBlanks_cons rfl _
  simp only [member, hquote, h, hcolon]

end FrontReader

namespace JsonValue

/-- The values that are written as words. -/
def words : List (List Char × JsonValue) :=
  [("null".toList, .null), ("true".toList, .bool true), ("false".toList, .bool false)]

/-- The value that a word or a number is. -/
def ofPlain? (literal : List Char) : Option JsonValue :=
  if Text.isJsonNumber literal then some (.number literal) else words.lookup literal

theorem ofPlain?_nil : ofPlain? [] = none := by decide

theorem length_dropWhile_lt {text : List Char} {value : JsonValue}
    (h : ofPlain? (text.takeWhile Text.isPlain) = some value) :
    (text.dropWhile Text.isPlain).length < text.length := by
  have hsplit := congrArg List.length (List.takeWhile_append_dropWhile (p := Text.isPlain) (l := text))
  rw [List.length_append] at hsplit
  have hfirst : text.takeWhile Text.isPlain ≠ [] := by
    intro hnil
    rw [hnil, ofPlain?_nil] at h
    cases h
  have hpos := List.length_pos_iff.2 hfirst
  omega

/-- The reader of a value whose items, if it has any, are read by another. -/
def reader (inner : FrontReader JsonValue) : FrontReader JsonValue where
  read text :=
    match Text.skipJsonBlanks text with
    | [] => none
    | c :: rest =>
      if c = '"' then (Text.jsonText? rest).map fun (text, rest) => (.string text, rest)
      else if c = '[' then (inner.items ']' rest).map fun (items, rest) => (.array items, rest)
      else if c = '\x7b' then
        (inner.member.items '\x7d' rest).map fun (members, rest) => (.object members, rest)
      else
        (ofPlain? ((c :: rest).takeWhile Text.isPlain)).map fun value =>
          (value, (c :: rest).dropWhile Text.isPlain)
  length_lt := by
    intro text rest value h
    have hblanks := Text.length_skipJsonBlanks_le text
    split at h
    · cases h
    · next c behind hskip =>
      rw [hskip, List.length_cons] at hblanks
      split at h
      · obtain ⟨⟨held, _⟩, hheld, heq⟩ := Option.map_eq_some_iff.1 h
        cases heq
        exact Nat.lt_trans (Text.length_jsonText?_lt hheld) hblanks
      · split at h
        · obtain ⟨⟨items, _⟩, hitems, heq⟩ := Option.map_eq_some_iff.1 h
          cases heq
          exact Nat.lt_trans (FrontReader.length_items_lt hitems) hblanks
        · split at h
          · obtain ⟨⟨members, _⟩, hmembers, heq⟩ := Option.map_eq_some_iff.1 h
            cases heq
            exact Nat.lt_trans (FrontReader.length_items_lt hmembers) hblanks
          · -- A word or a number has a first character.
            obtain ⟨plain, hplain, heq⟩ := Option.map_eq_some_iff.1 h
            cases heq
            exact Nat.lt_of_lt_of_le (length_dropWhile_lt hplain) hblanks

theorem read_quote (inner : FrontReader JsonValue) (text : List Char) :
    (reader inner).read ('"' :: text) =
      (Text.jsonText? text).map fun (text, rest) => (.string text, rest) := rfl

theorem read_brace (inner : FrontReader JsonValue) (text : List Char) :
    (reader inner).read ('\x7b' :: text) =
      (inner.member.items '\x7d' text).map fun (members, rest) => (.object members, rest) := rfl

theorem read_plain (inner : FrontReader JsonValue) {c : Char} (h : Text.isPlain c = true)
    (text : List Char) :
    (reader inner).read (c :: text) =
      (ofPlain? ((c :: text).takeWhile Text.isPlain)).map fun value =>
        (value, (c :: text).dropWhile Text.isPlain) := by
  have hne : ∀ d, Text.isPlain d = false → c ≠ d := by
    rintro d hd rfl
    rw [h] at hd
    cases hd
  have hblank : Text.isJsonBlank c = false := by
    simp only [Text.isJsonBlank, Bool.or_eq_false_iff, beq_eq_false_iff_ne]
    exact ⟨⟨⟨hne _ rfl, hne _ rfl⟩, hne _ rfl⟩, hne _ rfl⟩
  simp only [reader, Text.skipJsonBlanks_cons hblank]
  rw [if_neg (hne _ rfl), if_neg (hne _ rfl), if_neg (hne _ rfl)]

/-- The reader of values that are nested less than `depth` deep. -/
def readerBelow : Nat → FrontReader JsonValue
  | 0 => .never
  | depth + 1 => reader (readerBelow depth)

/-- The value that a JSON text is. It is not nested deeper than the text is long. -/
def read? (text : List Char) : Option JsonValue :=
  match (readerBelow text.length).read text with
  | some (value, rest) => if (Text.skipJsonBlanks rest).isEmpty then some value else none
  | none => none

end JsonValue

end PenPlot
