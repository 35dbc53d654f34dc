import Mathlib.Data.List.TakeWhile
import PenPlot.Text.Blank
import PenPlot.Text.Utf8

/-!
# Pieces by position

A text is cut between its characters. Here the pieces of a text are asked for by positions in bytes, and
a position inside a character or behind the end has no piece: the answer is `none` then. A position of
which something is known, because a byte of the text was looked at or something was found there, is
between characters. What is known of positions follows from one fact about the encoding: the bytes of a
character that takes several have their upper bit set, and only the first of them can begin a character.
-/

namespace PenPlot.Text

/-- The text from byte `n` on. -/
def from? : Nat → List Char → Option (List Char)
  | 0, text => some text
  | _ + 1, [] => none
  | n + 1, c :: text => if c.utf8Size ≤ n + 1 then from? (n + 1 - c.utf8Size) text else none

/-- The text before byte `n`. -/
def upTo? : Nat → List Char → Option (List Char)
  | 0, _ => some []
  | _ + 1, [] => none
  | n + 1, c :: text =>
    if c.utf8Size ≤ n + 1 then (upTo? (n + 1 - c.utf8Size) text).map (c :: ·) else none

/-- The text from one byte up to another, which must not stand before it. -/
def between? (first last : Nat) (text : List Char) : Option (List Char) :=
  if first ≤ last then (from? first text).bind (upTo? (last - first)) else none

/-- The bytes from byte `n` on, where characters do not matter. -/
def bytesFrom? (n : Nat) (text : List Char) : Option (List UInt8) :=
  if n ≤ byteLength text then some ((bytes text).drop n) else none

/-- The byte at a position. -/
def byte? (n : Nat) (text : List Char) : Option UInt8 := (bytes text)[n]?

/-- The position of the first character with a property. -/
def position? (p : Char → Bool) : List Char → Option Nat
  | [] => none
  | c :: text => if p c then some 0 else (position? p text).map (c.utf8Size + ·)

/-- The first position at which a word stands. -/
def positionOf? (word : List Char) : List Char → Option Nat
  | [] => if word.isEmpty then some 0 else none
  | c :: text =>
    if word.isPrefixOf (c :: text) then some 0 else (positionOf? word text).map (c.utf8Size + ·)

theorem some_bind {β γ : Type} (b : β) (next : β → Option γ) : (some b >>= next) = next b := rfl

/-! ## Bytes of characters -/

@[simp]
theorem bytes_nil : bytes [] = [] := rfl

@[simp]
theorem bytes_cons (c : Char) (text : List Char) :
    bytes (c :: text) = String.utf8EncodeChar c ++ bytes text := rfl

@[simp]
theorem bytes_append (first second : List Char) :
    bytes (first ++ second) = bytes first ++ bytes second := List.flatMap_append

/-- A character is its own byte, or all its bytes have their upper bit set. -/
theorem utf8EncodeChar_cases (c : Char) :
    (c.toNat < 128 ∧ String.utf8EncodeChar c = [UInt8.ofNat c.toNat]) ∨
      (128 ≤ c.toNat ∧ ∀ b ∈ String.utf8EncodeChar c, 128 ≤ b.toNat) := by
  have hnat : c.toNat = c.val.toNat := rfl
  have hupper : ∀ n m base : Nat, 0 < m → 128 ≤ base → base + m ≤ 256 →
      128 ≤ (UInt8.ofNat (n % m + base)).toNat := by
    intro n m base hpos hbase hle
    have hlt := Nat.mod_lt n hpos
    rw [UInt8.toNat_ofNat']
    omega
  rw [hnat]
  unfold String.utf8EncodeChar
  simp only
  split
  · exact .inl ⟨by omega, rfl⟩
  · refine .inr ⟨by omega, ?_⟩
    split
    · simp only [List.forall_mem_cons]
      exact ⟨hupper _ 32 192 (by omega) (by omega) (by omega),
        hupper _ 64 128 (by omega) (by omega) (by omega), nofun⟩
    · split
      · simp only [List.forall_mem_cons]
        exact ⟨hupper _ 16 224 (by omega) (by omega) (by omega),
          hupper _ 64 128 (by omega) (by omega) (by omega),
          hupper _ 64 128 (by omega) (by omega) (by omega), nofun⟩
      · simp only [List.forall_mem_cons]
        exact ⟨hupper _ 8 240 (by omega) (by omega) (by omega),
          hupper _ 64 128 (by omega) (by omega) (by omega),
          hupper _ 64 128 (by omega) (by omega) (by omega),
          hupper _ 64 128 (by omega) (by omega) (by omega), nofun⟩

/-- Only the first byte of a character begins one. -/
theorem not_isUTF8FirstByte {c : Char} {k : Nat} (hk : 0 < k) {b : UInt8}
    (h : (String.utf8EncodeChar c)[k]? = some b) : ¬ b.IsUTF8FirstByte := by
  obtain ⟨hlt, rfl⟩ := List.getElem?_eq_some_iff.1 h
  rw [UInt8.isUTF8FirstByte_getElem_utf8EncodeChar]
  omega

theorem utf8Size_eq_one {c : Char} (h : c.toNat < 128) : c.utf8Size = 1 := by
  rw [← String.length_utf8EncodeChar]
  obtain ⟨-, hc⟩ | ⟨hle, -⟩ := utf8EncodeChar_cases c
  · rw [hc]
    rfl
  · omega

/-- What begins with the same character as a text ends as the text does. -/
theorem eq_of_utf8EncodeChar_append {c d : Char} {first second : List UInt8}
    (h : String.utf8EncodeChar c ++ first = String.utf8EncodeChar d ++ second) :
    c = d ∧ first = second := by
  have harray := congrArg (fun l : List UInt8 => l.toByteArray.utf8DecodeChar? 0) h
  simp only [List.toByteArray_append, ByteArray.utf8DecodeChar?_utf8EncodeChar_append,
    Option.some.injEq] at harray
  subst harray
  exact ⟨rfl, List.append_cancel_left h⟩

/-- The bytes of a word stand at the front of those of a text just if the word does. -/
theorem isPrefixOf_bytes (word text : List Char) :
    (bytes word).isPrefixOf (bytes text) = word.isPrefixOf text := by
  rw [Bool.eq_iff_iff, List.isPrefixOf_iff_prefix, List.isPrefixOf_iff_prefix]
  constructor
  · intro h
    induction word generalizing text with
    | nil => exact List.nil_prefix
    | cons c word ih =>
      obtain ⟨more, hmore⟩ := h
      rw [bytes_cons, List.append_assoc] at hmore
      cases text with
      | nil =>
        have hnil := List.append_eq_nil_iff.1 hmore
        exact absurd hnil.1 String.utf8EncodeChar_ne_nil
      | cons d text =>
        rw [bytes_cons] at hmore
        obtain ⟨rfl, hrest⟩ := eq_of_utf8EncodeChar_append hmore
        exact List.cons_prefix_cons.2 ⟨rfl, ih text ⟨more, hrest⟩⟩
  · rintro ⟨rest, rfl⟩
    rw [bytes_append]
    exact List.prefix_append _ _

/-! ## Positions between characters -/

theorem exists_byteLength_cons (c : Char) (text : List Char) :
    ∃ n, byteLength (c :: text) = n + 1 ∧ c.utf8Size ≤ n + 1 ∧
      n + 1 - c.utf8Size = byteLength text := by
  have hc := c.utf8Size_pos
  have hlength := byteLength_cons c text
  exact ⟨byteLength (c :: text) - 1, by omega, by omega, by omega⟩

/-- Behind a part of the text in front the rest begins. -/
theorem from?_append (front rest : List Char) :
    from? (byteLength front) (front ++ rest) = some rest := by
  induction front with
  | nil => rw [byteLength_nil, List.nil_append, from?]
  | cons c front ih =>
    obtain ⟨n, hn, hle, hrest⟩ := exists_byteLength_cons c front
    rw [hn, List.cons_append, from?, if_pos hle, hrest, ih]

/-- The text can be taken from a position on just if the position is between characters. -/
theorem from?_eq_some_iff {n : Nat} {text rest : List Char} :
    from? n text = some rest ↔ ∃ front, text = front ++ rest ∧ byteLength front = n := by
  constructor
  · intro h
    induction text generalizing n with
    | nil =>
      cases n with
      | zero =>
        cases h
        exact ⟨[], rfl, rfl⟩
      | succ n => cases h
    | cons c text ih =>
      cases n with
      | zero =>
        cases h
        exact ⟨[], rfl, rfl⟩
      | succ n =>
        obtain ⟨hle, hrest⟩ := Option.ite_none_right_eq_some.1 h
        obtain ⟨front, rfl, hfront⟩ := ih hrest
        refine ⟨c :: front, rfl, ?_⟩
        rw [byteLength_cons]
        omega
  · rintro ⟨front, rfl, rfl⟩
    exact from?_append front rest

theorem byteLength_of_from? {n : Nat} {text rest : List Char} (h : from? n text = some rest) :
    byteLength text = n + byteLength rest := by
  obtain ⟨front, rfl, rfl⟩ := from?_eq_some_iff.1 h
  exact byteLength_append front rest

theorem byteLength_concat {c : Char} (h : c.toNat < 128) (front : List Char) :
    byteLength (front ++ [c]) = byteLength front + 1 := by
  rw [byteLength_append, byteLength_cons, byteLength_nil, utf8Size_eq_one h]

theorem from?_succ {c : Char} (h : c.toNat < 128) (front rest : List Char) :
    from? (byteLength front + 1) (front ++ c :: rest) = some rest := by
  rw [List.append_cons, ← byteLength_concat h, from?_append]

theorem upTo?_append (front rest : List Char) :
    upTo? (byteLength front) (front ++ rest) = some front := by
  induction front with
  | nil => rw [byteLength_nil, upTo?]
  | cons c front ih =>
    obtain ⟨n, hn, hle, hrest⟩ := exists_byteLength_cons c front
    rw [hn, List.cons_append, upTo?, if_pos hle, hrest, ih]
    rfl

/-- The text can be taken up to a position just if the position is between characters. -/
theorem upTo?_eq_some_iff {n : Nat} {text front : List Char} :
    upTo? n text = some front ↔ ∃ rest, text = front ++ rest ∧ byteLength front = n := by
  constructor
  · intro h
    induction text generalizing n front with
    | nil =>
      cases n with
      | zero =>
        cases h
        exact ⟨[], rfl, rfl⟩
      | succ n => cases h
    | cons c text ih =>
      cases n with
      | zero =>
        cases h
        exact ⟨c :: text, rfl, rfl⟩
      | succ n =>
        obtain ⟨hle, hfront⟩ := Option.ite_none_right_eq_some.1 h
        obtain ⟨front, hbefore, rfl⟩ := Option.map_eq_some_iff.1 hfront
        obtain ⟨rest, rfl, hlength⟩ := ih hbefore
        refine ⟨rest, rfl, ?_⟩
        rw [byteLength_cons]
        omega
  · rintro ⟨rest, rfl, rfl⟩
    exact upTo?_append front rest

/-- A piece of the text begins and ends between characters, and it ends at or behind its beginning. -/
theorem between?_eq_some_iff {first last : Nat} {text middle : List Char} :
    between? first last text = some middle ↔
      ∃ front rest, text = front ++ (middle ++ rest) ∧ byteLength front = first ∧
        first + byteLength middle = last := by
  constructor
  · intro h
    obtain ⟨hle, hpiece⟩ := Option.ite_none_right_eq_some.1 h
    obtain ⟨behind, hfrom, hupTo⟩ := Option.bind_eq_some_iff.1 hpiece
    obtain ⟨front, rfl, hfront⟩ := from?_eq_some_iff.1 hfrom
    obtain ⟨rest, rfl, hmiddle⟩ := upTo?_eq_some_iff.1 hupTo
    exact ⟨front, rest, rfl, hfront, by omega⟩
  · rintro ⟨front, rest, rfl, rfl, rfl⟩
    rw [between?, if_pos (Nat.le_add_right _ _), from?_append, Option.bind_some,
      Nat.add_sub_cancel_left, upTo?_append]

theorem between?_append (front middle rest : List Char) :
    between? (byteLength front) (byteLength front + byteLength middle) (front ++ (middle ++ rest)) =
      some middle :=
  between?_eq_some_iff.2 ⟨front, rest, rfl, rfl, rfl⟩

theorem drop_bytes (front rest : List Char) :
    (bytes (front ++ rest)).drop (byteLength front) = bytes rest := by
  rw [bytes_append, ← length_bytes, List.drop_left]

theorem bytesFrom?_append (front rest : List Char) :
    bytesFrom? (byteLength front) (front ++ rest) = some (bytes rest) := by
  rw [bytesFrom?, drop_bytes, if_pos]
  rw [byteLength_append]
  exact Nat.le_add_right _ _

/-! ## Bytes at positions -/

/-- The byte that a character begins with. -/
def firstByte (c : Char) : UInt8 := (String.utf8EncodeChar c).headD 0

/-- Behind its first byte a character has bytes with their upper bit set that begin no character. -/
theorem exists_utf8EncodeChar_eq (c : Char) :
    ∃ tail, String.utf8EncodeChar c = firstByte c :: tail ∧
      ∀ b ∈ tail, 128 ≤ b.toNat ∧ ¬ b.IsUTF8FirstByte := by
  obtain ⟨b, tail, hencode⟩ := List.exists_cons_of_ne_nil (String.utf8EncodeChar_ne_nil (c := c))
  refine ⟨tail, ?_, ?_⟩
  · rw [firstByte, hencode]
    rfl
  · intro d hd
    constructor
    · obtain ⟨-, hc⟩ | ⟨-, hall⟩ := utf8EncodeChar_cases c
      · rw [hencode, List.cons.injEq] at hc
        rw [hc.2] at hd
        exact absurd hd List.not_mem_nil
      · refine hall d ?_
        rw [hencode]
        exact List.mem_cons_of_mem _ hd
    · obtain ⟨k, hk, rfl⟩ := List.getElem_of_mem hd
      have hat : (String.utf8EncodeChar c)[k + 1]? = some tail[k] := by
        rw [hencode, List.getElem?_cons_succ, List.getElem?_eq_getElem hk]
      exact not_isUTF8FirstByte (Nat.succ_pos k) hat

theorem firstByte_of_lt {c : Char} (h : c.toNat < 128) : firstByte c = UInt8.ofNat c.toNat := by
  obtain ⟨-, hc⟩ | ⟨hle, -⟩ := utf8EncodeChar_cases c
  · rw [firstByte, hc]
    rfl
  · omega

theorem firstByte_of_le {c : Char} (h : 128 ≤ c.toNat) : 128 ≤ (firstByte c).toNat := by
  obtain ⟨hlt, -⟩ | ⟨-, hall⟩ := utf8EncodeChar_cases c
  · omega
  · obtain ⟨tail, hencode, -⟩ := exists_utf8EncodeChar_eq c
    refine hall _ ?_
    rw [hencode]
    exact List.mem_cons_self ..

/-- A property of bytes says the same of the first byte as a property of characters of the character, if
it does so where a character is a byte and neither holds anywhere else. -/
theorem firstByte_eq {p : Char → Bool} {q : UInt8 → Bool}
    (hbyte : ∀ n : Fin 256, q (UInt8.ofNat n) = (decide (n.val < 128) && p (Char.ofNat n)))
    (hchar : ∀ c : Char, p c = true → c.toNat < 128) (c : Char) : q (firstByte c) = p c := by
  obtain hlt | hle := Nat.lt_or_ge c.toNat 128
  · have h := hbyte ⟨c.toNat, by omega⟩
    rw [decide_eq_true hlt, Bool.true_and, Char.ofNat_toNat] at h
    rw [firstByte_of_lt hlt, h]
  · have hupper := firstByte_of_le hle
    have h := hbyte ⟨(firstByte c).toNat, UInt8.toNat_lt _⟩
    rw [decide_eq_false (Nat.not_lt.2 hupper), Bool.false_and, UInt8.ofNat_toNat] at h
    rw [h]
    refine Eq.symm (Bool.eq_false_iff.2 fun hc => ?_)
    have hlt := hchar c hc
    omega

theorem utf8EncodeChar_of_lt {c : Char} (h : c.toNat < 128) :
    String.utf8EncodeChar c = [firstByte c] := by
  obtain ⟨-, hc⟩ | ⟨hle, -⟩ := utf8EncodeChar_cases c
  · rw [firstByte_of_lt h, hc]
  · omega

theorem ofNat_firstByte {c : Char} (h : c.toNat < 128) : Char.ofNat (firstByte c).toNat = c := by
  rw [firstByte_of_lt h, UInt8.toNat_ofNat', Nat.mod_eq_of_lt (by omega), Char.ofNat_toNat]

theorem firstByte_injective {c d : Char} (hc : c.toNat < 128) (hd : d.toNat < 128)
    (h : firstByte c = firstByte d) : c = d := by
  rw [firstByte_of_lt hc, firstByte_of_lt hd] at h
  have hnat := congrArg UInt8.toNat h
  rw [UInt8.toNat_ofNat', UInt8.toNat_ofNat', Nat.mod_eq_of_lt (by omega),
    Nat.mod_eq_of_lt (by omega)] at hnat
  rw [← Char.ofNat_toNat c, hnat, Char.ofNat_toNat]

/-- The byte of a character that is a byte does not stand where the character does not. -/
theorem firstByte_notMem {c : Char} (hc : c.toNat < 128) {text : List Char} (h : c ∉ text) :
    firstByte c ∉ bytes text := by
  induction text with
  | nil => exact List.not_mem_nil
  | cons d text ih =>
    rw [List.mem_cons, not_or] at h
    rw [bytes_cons, List.mem_append, not_or]
    refine ⟨?_, ih h.2⟩
    obtain ⟨hlt, -⟩ | ⟨-, hall⟩ := utf8EncodeChar_cases d
    · rw [utf8EncodeChar_of_lt hlt, List.mem_singleton]
      exact fun heq => h.1 (firstByte_injective hc hlt heq)
    · intro hmem
      have hle := hall _ hmem
      rw [firstByte_of_lt hc, UInt8.toNat_ofNat'] at hle
      omega

theorem byte?_append (front : List Char) (c : Char) (rest : List Char) :
    byte? (byteLength front) (front ++ c :: rest) = some (firstByte c) := by
  obtain ⟨tail, hencode, -⟩ := exists_utf8EncodeChar_eq c
  rw [byte?, bytes_append, bytes_cons, ← length_bytes, List.getElem?_append_right (Nat.le_refl _),
    Nat.sub_self, hencode]
  rfl

/-- Every position before the end is in a character. -/
theorem exists_at {text : List Char} {i : Nat} (h : i < byteLength text) :
    ∃ front c rest k, text = front ++ c :: rest ∧ i = byteLength front + k ∧ k < c.utf8Size := by
  induction text generalizing i with
  | nil => exact absurd h (Nat.not_lt_zero i)
  | cons c text ih =>
    rw [byteLength_cons] at h
    obtain hlt | hle := Nat.lt_or_ge i c.utf8Size
    · exact ⟨[], c, text, i, rfl, (Nat.zero_add i).symm, hlt⟩
    · obtain ⟨front, d, rest, k, rfl, hi, hk⟩ := ih (i := i - c.utf8Size) (by omega)
      refine ⟨c :: front, d, rest, k, rfl, ?_, hk⟩
      rw [byteLength_cons]
      omega

/-- Inside a character the bytes have their upper bit set and begin no character. -/
theorem byte?_inside {c : Char} {k : Nat} (hpos : 0 < k) (hk : k < c.utf8Size)
    (front rest : List Char) :
    ∃ b, byte? (byteLength front + k) (front ++ c :: rest) = some b ∧ 128 ≤ b.toNat ∧
      ¬ b.IsUTF8FirstByte := by
  obtain ⟨tail, hencode, htail⟩ := exists_utf8EncodeChar_eq c
  obtain ⟨j, rfl⟩ : ∃ j, k = j + 1 := ⟨k - 1, by omega⟩
  rw [← String.length_utf8EncodeChar, hencode, List.length_cons] at hk
  have hj : j < tail.length := by omega
  refine ⟨tail[j], ?_, htail _ (List.getElem_mem hj)⟩
  rw [byte?, bytes_append, bytes_cons, ← length_bytes,
    List.getElem?_append_right (Nat.le_add_right _ _), Nat.add_sub_cancel_left, hencode,
    List.cons_append, List.getElem?_cons_succ, List.getElem?_append_left hj,
    List.getElem?_eq_getElem hj]

theorem byte?_of_le {c : Char} (hc : 128 ≤ c.toNat) {k : Nat} (hk : k < c.utf8Size)
    (front rest : List Char) :
    ∃ b, byte? (byteLength front + k) (front ++ c :: rest) = some b ∧ 128 ≤ b.toNat := by
  obtain rfl | hpos := Nat.eq_zero_or_pos k
  · exact ⟨_, byte?_append front c rest, firstByte_of_le hc⟩
  · obtain ⟨b, hb, hupper, -⟩ := byte?_inside hpos hk front rest
    exact ⟨b, hb, hupper⟩

/-- A byte without its upper bit is a character. -/
theorem exists_of_byte? {text : List Char} {i : Nat} {b : UInt8} (h : byte? i text = some b)
    (hb : b.toNat < 128) :
    ∃ front c rest, text = front ++ c :: rest ∧ byteLength front = i ∧ c.toNat < 128 ∧
      firstByte c = b := by
  have hlt : i < byteLength text := by
    rw [← length_bytes]
    exact (List.getElem?_eq_some_iff.1 h).1
  obtain ⟨front, c, rest, k, rfl, rfl, hk⟩ := exists_at hlt
  obtain rfl | hpos := Nat.eq_zero_or_pos k
  · rw [Nat.add_zero, byte?_append, Option.some.injEq] at h
    obtain hc | hc := Nat.lt_or_ge c.toNat 128
    · exact ⟨front, c, rest, rfl, rfl, hc, h⟩
    · have hle := firstByte_of_le hc
      rw [h] at hle
      omega
  · obtain ⟨d, hd, hupper, -⟩ := byte?_inside hpos hk front rest
    rw [h, Option.some.injEq] at hd
    rw [← hd] at hupper
    omega

/-- The byte of a character that separates the items of a number list. -/
def isGapByte (b : UInt8) : Bool := b == 0x20 || b == 0x2C || b == 0x09 || b == 0x0A || b == 0x0D

theorem toNat_lt_of_isGap {c : Char} (h : isGap c = true) : c.toNat < 128 := by
  simp only [isGap, Bool.or_eq_true, beq_iff_eq] at h
  obtain (((rfl | rfl) | rfl) | rfl) | rfl := h <;> decide

theorem isGapByte_firstByte (c : Char) : isGapByte (firstByte c) = isGap c :=
  firstByte_eq (by decide +kernel) (fun _ => toNat_lt_of_isGap) c

theorem isGapByte_of_le {b : UInt8} (h : 128 ≤ b.toNat) : isGapByte b = false := by
  refine Bool.eq_false_iff.2 fun hgap => ?_
  simp only [isGapByte, Bool.or_eq_true, beq_iff_eq] at hgap
  obtain (((rfl | rfl) | rfl) | rfl) | rfl := hgap <;> exact absurd h (by decide)

/-! ## Positions of characters -/

theorem position?_eq_none {p : Char → Bool} {text : List Char} (h : ∀ c ∈ text, p c = false) :
    position? p text = none := by
  induction text with
  | nil => rfl
  | cons c text ih =>
    have hc : ¬ p c = true := by
      rw [h c (List.mem_cons_self ..)]
      exact Bool.false_ne_true
    rw [position?, if_neg hc, ih fun d hd => h d (List.mem_cons_of_mem _ hd)]
    rfl

theorem position?_append {p : Char → Bool} {front : List Char} (h : ∀ c ∈ front, p c = false)
    {c : Char} (hc : p c = true) (rest : List Char) :
    position? p (front ++ c :: rest) = some (byteLength front) := by
  induction front with
  | nil => rw [List.nil_append, position?, if_pos hc, byteLength_nil]
  | cons d front ih =>
    have hd : ¬ p d = true := by
      rw [h d (List.mem_cons_self ..)]
      exact Bool.false_ne_true
    rw [List.cons_append, position?, if_neg hd, ih fun e he => h e (List.mem_cons_of_mem _ he),
      Option.map_some, byteLength_cons]

/-- A text is all of one kind, or it is cut before the first character of another. -/
theorem exists_first (p : Char → Bool) (text : List Char) :
    (∀ c ∈ text, p c = false) ∨
      ∃ front c rest, text = front ++ c :: rest ∧ (∀ d ∈ front, p d = false) ∧ p c = true := by
  induction text with
  | nil => exact .inl nofun
  | cons c text ih =>
    by_cases hc : p c = true
    · exact .inr ⟨[], c, text, rfl, nofun, hc⟩
    · rw [Bool.not_eq_true] at hc
      obtain hall | ⟨front, d, rest, rfl, hfront, hd⟩ := ih
      · exact .inl (List.forall_mem_cons.2 ⟨hc, hall⟩)
      · exact .inr ⟨c :: front, d, rest, rfl, List.forall_mem_cons.2 ⟨hc, hfront⟩, hd⟩

/-- The first character with a property stands behind the part without it. -/
theorem position?_eq (p : Char → Bool) (text : List Char) :
    position? p text =
      if text.any p then some (byteLength (text.takeWhile fun c => !p c)) else none := by
  induction text with
  | nil => rfl
  | cons c text ih =>
    rw [position?, List.any_cons, List.takeWhile_cons, ih]
    cases hc : p c with
    | true => rfl
    | false =>
      simp only [Bool.false_or, Bool.not_false, if_true, byteLength_cons, Bool.false_eq_true, if_false]
      split <;> rfl

theorem position?_getD (p : Char → Bool) (text : List Char) :
    (position? p text).getD (byteLength text) = byteLength (text.takeWhile fun c => !p c) := by
  obtain hall | ⟨front, c, rest, rfl, hfront, hc⟩ := exists_first p text
  · have hwhole : (text.takeWhile fun c => !p c) = text := by
      rw [List.takeWhile_eq_self_iff]
      intro c hmem
      rw [hall c hmem]
      rfl
    rw [position?_eq_none hall, hwhole]
    rfl
  · have hpart : ((front ++ c :: rest).takeWhile fun c => !p c) = front := by
      rw [List.takeWhile_append_of_pos fun d hd => by rw [hfront d hd]; rfl,
        List.takeWhile_cons_of_neg (by simp [hc]), List.append_nil]
    rw [position?_append hfront hc, hpart]
    rfl

theorem upTo?_takeWhile (p : Char → Bool) (text : List Char) :
    upTo? (byteLength (text.takeWhile p)) text = some (text.takeWhile p) := by
  have h := upTo?_append (text.takeWhile p) (text.dropWhile p)
  rwa [List.takeWhile_append_dropWhile] at h

theorem from?_takeWhile (p : Char → Bool) (text : List Char) :
    from? (byteLength (text.takeWhile p)) text = some (text.dropWhile p) := by
  have h := from?_append (text.takeWhile p) (text.dropWhile p)
  rwa [List.takeWhile_append_dropWhile] at h

end PenPlot.Text
