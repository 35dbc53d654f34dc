/-!
# Blanks and separators

Two classes of characters separate the parts of a text. Blanks are the `White_Space` characters of
the character standard; they are trimmed around lengths, attribute texts and calls. Gaps are the five
characters that separate the items of a number list. A gap is a blank or a comma.
-/

namespace PenPlot.Text

/-- The code points of `White_Space`, as ranges with both ends included. -/
def blankRanges : List (Nat × Nat) :=
  [(0x09, 0x0D), (0x20, 0x20), (0x85, 0x85), (0xA0, 0xA0), (0x1680, 0x1680), (0x2000, 0x200A),
    (0x2028, 0x2029), (0x202F, 0x202F), (0x205F, 0x205F), (0x3000, 0x3000)]

/-- A character of `White_Space`. -/
def isBlank (c : Char) : Bool :=
  blankRanges.any fun (low, high) => low ≤ c.toNat && c.toNat ≤ high

/-- A character that separates the items of a number list. -/
def isGap (c : Char) : Bool :=
  c == ' ' || c == ',' || c == '\t' || c == '\n' || c == '\r'

/-- A character that separates the commands of a path or the calls of a transform list. -/
def isSeparator (c : Char) : Bool := isBlank c || c == ','

/-- The text without its leading blanks. -/
def trimStart (text : List Char) : List Char := text.dropWhile isBlank

/-- The text without its trailing blanks. -/
def trimEnd (text : List Char) : List Char := (text.reverse.dropWhile isBlank).reverse

/-- The text without the blanks around it. -/
def trim (text : List Char) : List Char := trimEnd (trimStart text)

/-- The text without its leading gaps. -/
def skipGaps (text : List Char) : List Char := text.dropWhile isGap

/-- The text without its leading separators. -/
def skipSeparators (text : List Char) : List Char := text.dropWhile isSeparator

/-- There are 25 blanks. -/
example : (blankRanges.map fun (low, high) => high + 1 - low).sum = 25 := by decide

theorem isBlank_of_isDigit {c : Char} (h : c.isDigit = true) : isBlank c = false := by
  simp only [Char.isDigit, Bool.and_eq_true, decide_eq_true_eq] at h
  have hlow : '0'.toNat ≤ c.toNat := h.1
  have hhigh : c.toNat ≤ '9'.toNat := h.2
  have hranges : ∀ range ∈ blankRanges, range.2 < '0'.toNat ∨ '9'.toNat < range.1 := by decide
  rw [isBlank, List.any_eq_false]
  intro range hrange
  simp only [Bool.and_eq_true, decide_eq_true_eq, not_and]
  have := hranges range hrange
  omega

/-- A gap is a separator. -/
theorem isSeparator_of_isGap {c : Char} (h : isGap c) : isSeparator c := by
  simp only [isGap, Bool.or_eq_true, beq_iff_eq] at h
  rcases h with (((h | h) | h) | h) | h <;> (subst h; decide)

/-- Skipping gaps makes no text longer. -/
theorem length_skipGaps_le (text : List Char) : (skipGaps text).length ≤ text.length :=
  (List.dropWhile_sublist _).length_le

/-! ## Trimming -/

theorem trim_cons_of_isBlank {c : Char} (h : isBlank c = true) (text : List Char) :
    trim (c :: text) = trim text := by
  rw [trim, trim, trimStart, trimStart, List.dropWhile_cons_of_pos h]

theorem trimEnd_append_singleton {c : Char} (h : isBlank c = false) (text : List Char) :
    trimEnd (text ++ [c]) = text ++ [c] := by
  simp [trimEnd, h]

theorem trimStart_append_singleton {c : Char} (h : isBlank c = false) (text : List Char) :
    trimStart (text ++ [c]) = trimStart text ++ [c] := by
  induction text with
  | nil => simp [trimStart, h]
  | cons d text ih =>
    by_cases hd : isBlank d = true
    · simpa [trimStart, List.dropWhile_cons_of_pos hd] using ih
    · simp [trimStart, hd]

/-- The text without leading blanks begins with the first character that is not blank. -/
theorem head?_trimStart (text : List Char) :
    (trimStart text).head? = text.find? fun c => !isBlank c := by
  induction text with
  | nil => rfl
  | cons c text ih =>
    by_cases hc : isBlank c = true
    · simpa [trimStart, hc] using ih
    · simp [trimStart, hc]

/-- The text without trailing blanks ends with the last character that is not blank. -/
theorem getLast?_trimEnd (text : List Char) :
    (trimEnd text).getLast? = text.reverse.find? fun c => !isBlank c := by
  rw [trimEnd, List.getLast?_reverse]
  exact head?_trimStart text.reverse

/-- The text without the blanks around it ends with the last character that is not blank. -/
theorem getLast?_trim (text : List Char) :
    (trim text).getLast? = text.reverse.find? fun c => !isBlank c := by
  have hblank : (text.takeWhile isBlank).reverse.find? (fun c => !isBlank c) = none := by
    rw [List.find?_eq_none]
    intro c hc
    have hall := List.all_takeWhile (p := isBlank) (l := text)
    rw [List.all_eq_true] at hall
    simp [hall c (List.mem_reverse.1 hc)]
  have hsplit := List.takeWhile_append_dropWhile (p := isBlank) (l := text)
  rw [trim, getLast?_trimEnd, trimStart]
  conv => rhs; rw [← hsplit, List.reverse_append, List.find?_append, hblank, Option.or_none]

end PenPlot.Text
