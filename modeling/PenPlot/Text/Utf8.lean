/-!
# Positions in bytes

Positions in a text are counted in the bytes of its UTF-8 form.
-/

namespace PenPlot.Text

/-- The bytes of the text. -/
def bytes (text : List Char) : List UInt8 := text.flatMap String.utf8EncodeChar

/-- How many bytes the text takes. -/
def byteLength : List Char → Nat
  | [] => 0
  | c :: text => c.utf8Size + byteLength text

/-- The text from byte `n` on, without the rest of a character that begins before it. -/
def dropBytes : Nat → List Char → List Char
  | 0, text => text
  | _ + 1, [] => []
  | n + 1, c :: rest => dropBytes (n + 1 - c.utf8Size) rest

@[simp]
theorem byteLength_nil : byteLength [] = 0 := rfl

@[simp]
theorem byteLength_cons (c : Char) (text : List Char) :
    byteLength (c :: text) = c.utf8Size + byteLength text := rfl

@[simp]
theorem byteLength_append (first second : List Char) :
    byteLength (first ++ second) = byteLength first + byteLength second := by
  induction first with
  | nil => simp
  | cons c rest ih => simp [ih, Nat.add_assoc]

/-- The byte length is the number of bytes. -/
theorem length_bytes (text : List Char) : (bytes text).length = byteLength text := by
  induction text with
  | nil => rfl
  | cons c rest ih =>
    have h : (bytes (c :: rest)).length = (String.utf8EncodeChar c).length + (bytes rest).length := by
      simp [bytes]
    rw [h, ih, byteLength_cons, String.length_utf8EncodeChar]

/-- Dropping the bytes of a text that stands in front leaves the text behind it. -/
theorem dropBytes_append (first second : List Char) :
    dropBytes (byteLength first) (first ++ second) = second := by
  induction first with
  | nil => cases second <;> rfl
  | cons c rest ih =>
    have hc := c.utf8Size_pos
    obtain ⟨n, hn⟩ : ∃ n, byteLength (c :: rest) = n + 1 :=
      ⟨c.utf8Size + byteLength rest - 1, by rw [byteLength_cons]; omega⟩
    have hr : n + 1 - c.utf8Size = byteLength rest := by
      rw [byteLength_cons] at hn; omega
    rw [hn, List.cons_append, dropBytes, hr, ih]

end PenPlot.Text
