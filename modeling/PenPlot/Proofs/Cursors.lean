import PenPlot.Geometry.TransformList
import PenPlot.Proofs.Prefixes

/-!
# Cursors in lists of arguments

A cursor walks through a list of arguments: it passes over gaps, and it takes the number or the flag that
stands behind them. It is asked for what comes next, or whether anything does, in any order. The invariant
is that it stands between two characters, before the part of the text that is still to be read
(`ByPosition.Cursor.At`), and each question keeps it, also where it fails. So what a cursor answers is what
a reader takes from the rest of the text, and the text is never cut inside a character.

The lists of numbers and the calls of a transform list are read with it.
-/

namespace PenPlot

open Text

/-- What a reader takes from a text behind its gaps, if anything is there, and what is left. -/
def takeNext {β : Type} (read : List Char → Except ListFlaw (β × List Char)) (text : List Char) :
    Except ListFlaw (Option β) × List Char :=
  match skipGaps text with
  | [] => (.ok none, [])
  | c :: behind =>
    match read (c :: behind) with
    | .error flaw => (.error flaw, c :: behind)
    | .ok (value, rest) => (.ok (some value), rest)

section

variable {β : Type} {read : List Char → Except ListFlaw (β × List Char)} {text behind : List Char}
  {c : Char}

theorem takeNext_of_nil (h : skipGaps text = []) : takeNext read text = (.ok none, []) := by
  rw [takeNext, h]

theorem takeNext_of_error {flaw : ListFlaw} (hgap : skipGaps text = c :: behind)
    (h : read (c :: behind) = .error flaw) : takeNext read text = (.error flaw, c :: behind) := by
  rw [takeNext, hgap]
  simp only [h]

theorem takeNext_of_ok {value : β} {rest : List Char} (hgap : skipGaps text = c :: behind)
    (h : read (c :: behind) = .ok (value, rest)) : takeNext read text = (.ok (some value), rest) := by
  rw [takeNext, hgap]
  simp only [h]

theorem takeNext_map {γ : Type} (f : β → γ) (read : List Char → Except ListFlaw (β × List Char))
    (text : List Char) :
    takeNext (fun text => (read text).map fun (value, rest) => (f value, rest)) text =
      ((takeNext read text).1.map (·.map f), (takeNext read text).2) := by
  cases hgap : skipGaps text with
  | nil =>
    rw [takeNext_of_nil hgap, takeNext_of_nil hgap]
    rfl
  | cons c behind =>
    rw [takeNext, takeNext, hgap]
    simp only
    cases read (c :: behind) <;> rfl

variable {α : Type} [Scalar α]

theorem takeNext_number (text : List Char) :
    takeNext (β := Argument α) Slot.number.read text =
      ((takeNext readNumber text).1.map (·.map .number), (takeNext (readNumber (α := α)) text).2) :=
  takeNext_map Argument.number readNumber text

theorem takeNext_flag (text : List Char) :
    takeNext (β := Argument α) Slot.flag.read text =
      ((takeNext readFlag text).1.map (·.map .flag), (takeNext readFlag text).2) :=
  takeNext_map Argument.flag readFlag text

/-- The numbers of a list are taken one behind the other. -/
theorem readNumbers_eq (text : List Char) :
    readNumbers (α := α) text =
      match (takeNext readNumber text).1 with
      | .error flaw => .error flaw
      | .ok none => .ok []
      | .ok (some value) =>
        (readNumbers (takeNext (readNumber (α := α)) text).2).map (value :: ·) := by
  cases hgap : skipGaps text with
  | nil => rw [readNumbers_of_nil hgap, takeNext_of_nil hgap]
  | cons c behind =>
    rw [readNumbers_of_cons hgap]
    cases hread : readNumber (α := α) (c :: behind) with
    | error flaw =>
      rw [takeNext_of_error hgap hread]
      rfl
    | ok found =>
      rw [takeNext_of_ok hgap hread]
      rfl

end

/-- What can be asked of the rest of a text. -/
inductive Question where
  /-- Whether nothing but gaps is left. -/
  | isExhausted
  /-- The argument for a slot. -/
  | next (slot : Slot)
  deriving DecidableEq, Repr

/-- What is answered to a question. -/
inductive Answer (α : Type) where
  /-- Whether nothing but gaps is left. -/
  | isExhausted (value : Bool)
  /-- The argument, if there is one. -/
  | next (found : Except ListFlaw (Option (Argument α)))

/-- The answers to questions to a text, one behind the other. -/
def Question.answers {α : Type} [Scalar α] : List Question → List Char → List (Answer α)
  | [], _ => []
  | isExhausted :: questions, text =>
    .isExhausted (skipGaps text).isEmpty :: answers questions (skipGaps text)
  | next slot :: questions, text =>
    .next (takeNext slot.read text).1 :: answers questions (takeNext (slot.read (α := α)) text).2

namespace ByPosition

/-- A position in a text. -/
structure Cursor where
  /-- The text. -/
  text : List Char
  /-- How many bytes stand before the position. -/
  position : Nat
  deriving DecidableEq, Repr

namespace Cursor

/-- The position at the front of a text. -/
def start (text : List Char) : Cursor := ⟨text, 0⟩

/-- The cursor moved over a number of bytes. -/
def moved (cursor : Cursor) (n : Nat) : Cursor := { cursor with position := cursor.position + n }

/-- How many bytes are left. -/
def left (cursor : Cursor) : Nat := byteLength cursor.text - cursor.position

theorem left_moved_lt {cursor : Cursor} {n : Nat} (hn : n ≠ 0)
    (h : cursor.position < byteLength cursor.text) : (cursor.moved n).left < cursor.left := by
  rw [left, left, moved]
  simp only
  omega

/-- Moves over gaps. -/
def skipGaps (cursor : Cursor) : Option Cursor :=
  match _h : test isGapByte (bytes cursor.text) cursor.position with
  | none => none
  | some false => some cursor
  | some true => (cursor.moved 1).skipGaps
termination_by cursor.left
decreasing_by
  have hlt := lt_of_test _h
  rw [length_bytes] at hlt
  exact left_moved_lt Nat.one_ne_zero hlt

theorem left_skipGaps_le {cursor after : Cursor} (h : cursor.skipGaps = some after) :
    after.left ≤ cursor.left := by
  fun_induction skipGaps cursor with
  | case1 cursor htest => cases h
  | case2 cursor htest =>
    cases h
    exact Nat.le_refl _
  | case3 cursor htest ih =>
    have hlt := lt_of_test htest
    rw [length_bytes] at hlt
    exact Nat.le_trans (ih h) (Nat.le_of_lt (left_moved_lt Nat.one_ne_zero hlt))

/-- Whether nothing but gaps is left. -/
def isExhausted (cursor : Cursor) : Option (Bool × Cursor) := do
  let cursor ← cursor.skipGaps
  return (byteLength cursor.text ≤ cursor.position, cursor)

theorem left_isExhausted_le {cursor after : Cursor} {exhausted : Bool}
    (h : cursor.isExhausted = some (exhausted, after)) : after.left ≤ cursor.left := by
  obtain ⟨next, hskip, h⟩ := Option.bind_eq_some_iff.1 h
  cases h
  exact left_skipGaps_le hskip

variable {α : Type} [Scalar α]

/-- The next number, if there is one. -/
def nextNumber (cursor : Cursor) : Option (Except ListFlaw (Option α) × Cursor) := do
  let cursor ← cursor.skipGaps
  if byteLength cursor.text ≤ cursor.position then return (.ok none, cursor)
  else
    let length ← literalLength (← bytesFrom? cursor.position cursor.text)
    if length = 0 then
      return (.error (.notNumber (← from? cursor.position cursor.text)), cursor)
    else
      match value? (← between? cursor.position (cursor.position + length) cursor.text) with
      | none => return (.error (.notNumber (← from? cursor.position cursor.text)), cursor)
      | some value => return (.ok (some value), cursor.moved length)

theorem left_nextNumber_lt {cursor after : Cursor} {value : α}
    (h : cursor.nextNumber = some (.ok (some value), after)) : after.left < cursor.left := by
  obtain ⟨start, hskip, h⟩ := Option.bind_eq_some_iff.1 h
  have hstart := left_skipGaps_le hskip
  split at h
  · cases h
  · next hend =>
    obtain ⟨rest, -, h⟩ := Option.bind_eq_some_iff.1 h
    obtain ⟨length, -, h⟩ := Option.bind_eq_some_iff.1 h
    split at h
    · obtain ⟨_, -, h⟩ := Option.bind_eq_some_iff.1 h
      cases h
    · next hlength =>
      obtain ⟨token, -, h⟩ := Option.bind_eq_some_iff.1 h
      split at h
      · obtain ⟨_, -, h⟩ := Option.bind_eq_some_iff.1 h
        cases h
      · cases h
        exact Nat.lt_of_lt_of_le (left_moved_lt hlength (Nat.not_le.1 hend)) hstart

/-- The next flag, if there is one. -/
def nextFlag (cursor : Cursor) : Option (Except ListFlaw (Option Bool) × Cursor) := do
  let cursor ← cursor.skipGaps
  match byte? cursor.position cursor.text with
  | none => return (.ok none, cursor)
  | some b =>
    if b == 0x30 then return (.ok (some false), cursor.moved 1)
    else if b == 0x31 then return (.ok (some true), cursor.moved 1)
    else return (.error (.notFlag (← from? cursor.position cursor.text)), cursor)

theorem left_nextFlag_lt {cursor after : Cursor} {value : Bool}
    (h : cursor.nextFlag = some (.ok (some value), after)) : after.left < cursor.left := by
  obtain ⟨start, hskip, h⟩ := Option.bind_eq_some_iff.1 h
  have hstart := left_skipGaps_le hskip
  split at h
  · cases h
  · next b hbyte =>
    have hlt : start.position < byteLength start.text := by
      rw [← length_bytes]
      exact (List.getElem?_eq_some_iff.1 hbyte).1
    have hmoved := left_moved_lt Nat.one_ne_zero hlt
    split at h
    · cases h
      exact Nat.lt_of_lt_of_le hmoved hstart
    · split at h
      · cases h
        exact Nat.lt_of_lt_of_le hmoved hstart
      · obtain ⟨_, -, h⟩ := Option.bind_eq_some_iff.1 h
        cases h

/-- The argument for a slot, if there is one. -/
def next (slot : Slot) (cursor : Cursor) :
    Option (Except ListFlaw (Option (Argument α)) × Cursor) :=
  match slot with
  | .number => cursor.nextNumber.map fun (found, cursor) => (found.map (·.map .number), cursor)
  | .flag => cursor.nextFlag.map fun (found, cursor) => (found.map (·.map .flag), cursor)

/-- An argument takes at least one byte. -/
theorem left_next_lt {cursor after : Cursor} {slot : Slot} {argument : Argument α}
    (h : cursor.next slot = some (.ok (some argument), after)) : after.left < cursor.left := by
  cases slot with
  | number =>
    obtain ⟨⟨found, last⟩, hnext, h⟩ := Option.map_eq_some_iff.1 h
    obtain ⟨hfound, rfl⟩ := Prod.mk.inj h
    rcases found with flaw | (_ | value)
    · cases hfound
    · cases hfound
    · exact left_nextNumber_lt hnext
  | flag =>
    obtain ⟨⟨found, last⟩, hnext, h⟩ := Option.map_eq_some_iff.1 h
    obtain ⟨hfound, rfl⟩ := Prod.mk.inj h
    rcases found with flaw | (_ | value)
    · cases hfound
    · cases hfound
    · exact left_nextFlag_lt hnext

/-- The answers to questions, one behind the other. -/
def answers : List Question → Cursor → Option (List (Answer α))
  | [], _ => some []
  | .isExhausted :: questions, cursor => do
    let (value, cursor) ← cursor.isExhausted
    return .isExhausted value :: (← cursor.answers questions)
  | .next slot :: questions, cursor => do
    let (found, cursor) ← cursor.next slot
    return .next found :: (← cursor.answers questions)

/-- The numbers that are left. -/
def numbers (cursor : Cursor) : Option (Except ListFlaw (List α)) :=
  match _h : cursor.nextNumber (α := α) with
  | none => none
  | some (.error flaw, _) => some (.error flaw)
  | some (.ok none, _) => some (.ok [])
  | some (.ok (some value), after) => after.numbers.map fun later => later.map (value :: ·)
termination_by cursor.left
decreasing_by exact left_nextNumber_lt _h

end Cursor

section

variable {α : Type} [Scalar α]

/-- The call at the front of a text, and the rest behind its closing parenthesis. -/
def call (text : List Char) : Option (Except TransformFlaw (Affine α × List Char)) := do
  match TransformFunction.ofPrefix? text with
  | none => return .error (.unknownFunction text)
  | some function =>
    match trimStart (← from? (byteLength function.name.toList) text) with
    | '(' :: behind =>
      match position? (· == ')') behind with
      | none => return .error (.unclosed function)
      | some close =>
        match ← (Cursor.start (← upTo? close behind)).numbers (α := α) with
        | .error flaw => return .error (.arguments flaw)
        | .ok arguments =>
          match function.call? arguments with
          | none => return .error (.argumentCount function arguments.length)
          | some transform => return .ok (transform, ← from? (close + 1) behind)
    | _ => return .error (.missingParenthesis function)

end

namespace Cursor

/-- The cursor stands between characters, with the rest of its text behind it. -/
def At (cursor : Cursor) (rest : List Char) : Prop :=
  ∃ front, cursor.text = front ++ rest ∧ cursor.position = byteLength front

variable {cursor : Cursor} {rest : List Char}

theorem at_start (text : List Char) : (start text).At text := ⟨[], rfl, rfl⟩

theorem At.moved {part : List Char} (h : cursor.At (part ++ rest)) :
    (cursor.moved (byteLength part)).At rest := by
  obtain ⟨front, htext, hposition⟩ := h
  refine ⟨front ++ part, ?_, ?_⟩
  · rw [Cursor.moved, htext, List.append_assoc]
  · rw [Cursor.moved, hposition, byteLength_append]

theorem At.from? (h : cursor.At rest) : Text.from? cursor.position cursor.text = some rest := by
  obtain ⟨front, htext, hposition⟩ := h
  rw [htext, hposition, from?_append]

theorem At.bytesFrom? (h : cursor.At rest) :
    Text.bytesFrom? cursor.position cursor.text = some (bytes rest) := by
  obtain ⟨front, htext, hposition⟩ := h
  rw [htext, hposition, bytesFrom?_append]

theorem At.between? {part : List Char} (h : cursor.At (part ++ rest)) :
    Text.between? cursor.position (cursor.position + byteLength part) cursor.text = some part := by
  obtain ⟨front, htext, hposition⟩ := h
  rw [htext, hposition, between?_append]

/-- The end of the text is reached just if nothing is left. -/
theorem At.le_iff (h : cursor.At rest) : byteLength cursor.text ≤ cursor.position ↔ rest = [] := by
  obtain ⟨front, htext, hposition⟩ := h
  have hrest := byteLength_lt_append_iff front rest
  rw [htext, hposition, ← not_lt, hrest, not_not]

theorem At.byte?_nil (h : cursor.At []) : byte? cursor.position cursor.text = none := by
  obtain ⟨front, htext, hposition⟩ := h
  rw [byte?, htext, hposition, List.append_nil, List.getElem?_eq_none]
  rw [length_bytes]

theorem At.byte?_cons {c : Char} (h : cursor.At (c :: rest)) :
    byte? cursor.position cursor.text = some (firstByte c) := by
  obtain ⟨front, htext, hposition⟩ := h
  rw [htext, hposition, byte?_append]

/-- Over gaps the cursor moves to where the text goes on without them. -/
theorem At.skipGaps (h : cursor.At rest) :
    ∃ after, cursor.skipGaps = some after ∧ after.At (Text.skipGaps rest) := by
  induction rest generalizing cursor with
  | nil =>
    refine ⟨cursor, ?_, h⟩
    obtain ⟨front, htext, hposition⟩ := h
    rw [Cursor.skipGaps, htext, hposition, test_append isGapByte_firstByte]
    rfl
  | cons c rest ih =>
    obtain ⟨front, htext, hposition⟩ := id h
    rw [Cursor.skipGaps, htext, hposition, test_append isGapByte_firstByte, List.head?_cons,
      Option.any_some, Text.skipGaps]
    cases hc : isGap c with
    | false =>
      refine ⟨cursor, rfl, ?_⟩
      rw [List.dropWhile_cons_of_neg (by simp [hc])]
      exact h
    | true =>
      have hsize : byteLength [c] = 1 := utf8Size_eq_one (toNat_lt_of_isGap hc)
      have hmoved : (cursor.moved (byteLength [c])).At rest := At.moved h
      rw [hsize] at hmoved
      rw [List.dropWhile_cons_of_pos hc]
      exact ih hmoved

theorem At.isExhausted (h : cursor.At rest) :
    ∃ after, cursor.isExhausted = some ((Text.skipGaps rest).isEmpty, after) ∧
      after.At (Text.skipGaps rest) := by
  obtain ⟨after, hskip, hafter⟩ := h.skipGaps
  refine ⟨after, ?_, hafter⟩
  have hend : decide (byteLength after.text ≤ after.position) = (Text.skipGaps rest).isEmpty := by
    rw [Bool.eq_iff_iff, decide_eq_true_iff, hafter.le_iff, List.isEmpty_iff]
  rw [Cursor.isExhausted, hskip, some_bind, hend]
  rfl

variable {α : Type} [Scalar α]

/-- No slice of the reading of a number is out of range, and the cursor stands between characters
again. -/
theorem At.nextNumber (h : cursor.At rest) :
    ∃ after, cursor.nextNumber (α := α) = some ((takeNext readNumber rest).1, after) ∧
      after.At (takeNext (readNumber (α := α)) rest).2 := by
  obtain ⟨after, hskip, hafter⟩ := h.skipGaps
  rw [Cursor.nextNumber, hskip, some_bind]
  cases hgap : Text.skipGaps rest with
  | nil =>
    rw [hgap] at hafter
    rw [if_pos (hafter.le_iff.2 rfl), takeNext_of_nil hgap]
    exact ⟨after, rfl, hafter⟩
  | cons c behind =>
    rw [hgap] at hafter
    rw [if_neg (mt hafter.le_iff.1 (List.cons_ne_nil c behind)), hafter.bytesFrom?, some_bind]
    cases hread : Literal.read? (c :: behind) with
    | none =>
      have herror : readNumber (α := α) (c :: behind) = .error (.notNumber (c :: behind)) := by
        rw [readNumber, hread]
      rw [literalLength_of_none hread, some_bind, if_pos rfl, hafter.from?,
        takeNext_of_error hgap herror]
      exact ⟨after, rfl, hafter⟩
    | some found =>
      have hok : readNumber (α := α) (c :: behind) = .ok (found.1.value, found.2) := by
        rw [readNumber, hread]
      have hsplit := Literal.text_of_read? hread
      have hne : byteLength found.1.text ≠ 0 := by
        have hshorter := Literal.length_rest_lt hread
        refine Nat.pos_iff_ne_zero.1 (byteLength_pos_iff.2 fun hnil => ?_)
        rw [← hsplit, hnil, List.nil_append] at hshorter
        exact Nat.lt_irrefl _ hshorter
      rw [← hsplit] at hafter
      rw [literalLength_of_some hread, some_bind, if_neg hne, hafter.between?, some_bind,
        value?_of_some hread, takeNext_of_ok hgap hok]
      exact ⟨_, rfl, hafter.moved⟩

theorem At.nextFlag (h : cursor.At rest) :
    ∃ after, cursor.nextFlag = some ((takeNext readFlag rest).1, after) ∧
      after.At (takeNext readFlag rest).2 := by
  obtain ⟨after, hskip, hafter⟩ := h.skipGaps
  rw [Cursor.nextFlag, hskip, some_bind]
  cases hgap : Text.skipGaps rest with
  | nil =>
    rw [hgap] at hafter
    rw [hafter.byte?_nil, takeNext_of_nil hgap]
    exact ⟨after, rfl, hafter⟩
  | cons c behind =>
    rw [hgap] at hafter
    have hzero : (firstByte c == 0x30) = (c == '0') := beq_firstByte (d := '0') (by decide) c
    have hone : (firstByte c == 0x31) = (c == '1') := beq_firstByte (d := '1') (by decide) c
    rw [hafter.byte?_cons]
    simp only [hzero, hone, beq_iff_eq]
    by_cases h0 : c = '0'
    · subst h0
      have hok : readFlag ('0' :: behind) = .ok (false, behind) := rfl
      rw [if_pos rfl, takeNext_of_ok hgap hok]
      have hmoved : (after.moved (byteLength ['0'])).At behind := At.moved hafter
      exact ⟨_, rfl, hmoved⟩
    · rw [if_neg h0]
      by_cases h1 : c = '1'
      · subst h1
        have hok : readFlag ('1' :: behind) = .ok (true, behind) := rfl
        rw [if_pos rfl, takeNext_of_ok hgap hok]
        have hmoved : (after.moved (byteLength ['1'])).At behind := At.moved hafter
        exact ⟨_, rfl, hmoved⟩
      · rw [if_neg h1, hafter.from?, takeNext_of_error hgap (readFlag_of_ne h0 h1 behind)]
        exact ⟨after, rfl, hafter⟩

theorem At.next (slot : Slot) (h : cursor.At rest) :
    ∃ after, cursor.next (α := α) slot = some ((takeNext slot.read rest).1, after) ∧
      after.At (takeNext (slot.read (α := α)) rest).2 := by
  cases slot with
  | number =>
    obtain ⟨after, hnext, hafter⟩ := h.nextNumber (α := α)
    rw [takeNext_number, Cursor.next, hnext]
    exact ⟨after, rfl, hafter⟩
  | flag =>
    obtain ⟨after, hnext, hafter⟩ := h.nextFlag
    rw [takeNext_flag, Cursor.next, hnext]
    exact ⟨after, rfl, hafter⟩

/-- Whatever is asked of a cursor, in whatever order, no slice is out of range. -/
theorem At.answers (h : cursor.At rest) (questions : List Question) :
    cursor.answers (α := α) questions = some (Question.answers questions rest) := by
  induction questions generalizing cursor rest with
  | nil => rfl
  | cons question questions ih =>
    cases question with
    | isExhausted =>
      obtain ⟨after, hstep, hafter⟩ := h.isExhausted
      rw [Cursor.answers, hstep, some_bind, Question.answers]
      simp only
      rw [ih hafter]
      rfl
    | next slot =>
      obtain ⟨after, hstep, hafter⟩ := h.next (α := α) slot
      rw [Cursor.answers, hstep, some_bind, Question.answers]
      simp only
      rw [ih hafter]
      rfl

theorem At.of_nextNumber {found : Except ListFlaw (Option α)} {after : Cursor} (h : cursor.At rest)
    (hstep : cursor.nextNumber = some (found, after)) :
    (takeNext readNumber rest).1 = found ∧ after.At (takeNext (readNumber (α := α)) rest).2 := by
  obtain ⟨next, hnext, hafter⟩ := h.nextNumber (α := α)
  rw [hnext, Option.some.injEq, Prod.mk.injEq] at hstep
  obtain ⟨hfound, rfl⟩ := hstep
  exact ⟨hfound, hafter⟩

theorem At.numbers (h : cursor.At rest) :
    cursor.numbers (α := α) = some (readNumbers rest) := by
  fun_induction Cursor.numbers (α := α) cursor generalizing rest with
  | case1 cursor hstep =>
    obtain ⟨after, hnext, -⟩ := h.nextNumber (α := α)
    rw [hstep] at hnext
    cases hnext
  | case2 cursor flaw after hstep => rw [readNumbers_eq, (h.of_nextNumber hstep).1]
  | case3 cursor after hstep => rw [readNumbers_eq, (h.of_nextNumber hstep).1]
  | case4 cursor value after hstep ih =>
    obtain ⟨hfound, hafter⟩ := h.of_nextNumber hstep
    rw [readNumbers_eq, hfound, ih hafter]
    rfl

end Cursor

section

variable {α : Type} [Scalar α]

theorem from?_name {function : TransformFunction} {text : List Char}
    (h : TransformFunction.ofPrefix? text = some function) :
    from? (byteLength function.name.toList) text =
      some (text.drop function.name.toList.length) := by
  have hfront : function.name.toList.isPrefixOf text = true :=
    List.find?_some (p := fun f : TransformFunction => f.name.toList.isPrefixOf text) h
  obtain ⟨behind, rfl⟩ := List.isPrefixOf_iff_prefix.1 hfront
  rw [from?_append, List.drop_left]

section

variable {function : TransformFunction} {text : List Char}
  (hfunction : TransformFunction.ofPrefix? text = some function)
  (hopen : (trimStart (text.drop function.name.toList.length)).head? ≠ some '(')

include hfunction hopen

theorem readCall_of_ne : Affine.readCall (α := α) text = .error (.missingParenthesis function) := by
  rw [Affine.readCall, hfunction]
  simp only
  split
  · next heq => exact absurd (congrArg List.head? heq) hopen
  · rfl

theorem call_of_ne : call (α := α) text = some (.error (.missingParenthesis function)) := by
  rw [call, hfunction]
  simp only
  rw [from?_name hfunction, some_bind]
  split
  · next heq => exact absurd (congrArg List.head? heq) hopen
  · rfl

end

theorem call_eq (text : List Char) : call (α := α) text = some (Affine.readCall text) := by
  cases hfunction : TransformFunction.ofPrefix? text with
  | none =>
    rw [call, Affine.readCall, hfunction]
    rfl
  | some function =>
    by_cases hopen : (trimStart (text.drop function.name.toList.length)).head? = some '('
    · obtain ⟨behind, hbehind⟩ := List.head?_eq_some_iff.1 hopen
      rw [call, Affine.readCall, hfunction]
      simp only
      rw [from?_name hfunction, some_bind, hbehind]
      simp only
      obtain hall | ⟨inside, c, rest, rfl, hinside, hclose⟩ := exists_first (· == ')') behind
      · have hdrop : behind.dropWhile (· != ')') = [] := by
          rw [List.dropWhile_eq_nil_iff]
          intro c hc
          rw [bne, hall c hc]
          rfl
        rw [position?_eq_none hall, hdrop]
        rfl
      · obtain rfl := beq_iff_eq.1 hclose
        have hpart : ∀ c ∈ inside, (c != ')') = true := by
          intro c hc
          rw [bne, hinside c hc]
          rfl
        have hbehind : from? (byteLength inside + 1) (inside ++ ')' :: rest) = some rest :=
          from?_succ (by decide) inside rest
        rw [position?_append hinside hclose, List.dropWhile_append_of_pos hpart,
          List.takeWhile_append_of_pos hpart, List.dropWhile_cons_of_neg (by decide),
          List.takeWhile_cons_of_neg (by decide), List.append_nil]
        show (upTo? (byteLength inside) _ >>= _) = _
        rw [upTo?_append, some_bind, (Cursor.at_start inside).numbers, some_bind]
        cases readNumbers (α := α) inside with
        | error flaw => rfl
        | ok arguments =>
          simp only
          cases function.call? arguments with
          | none => rfl
          | some transform =>
            show (from? (byteLength inside + 1) _ >>= _) = _
            rw [hbehind]
            rfl
    · rw [call_of_ne hfunction hopen, readCall_of_ne hfunction hopen]

/-- The product of the calls of a text, multiplied to a transform from the right. -/
def calls (transform : Affine α) (text : List Char) : Option (Except TransformFlaw (Affine α)) :=
  if text.isEmpty then some (.ok transform)
  else
    match _h : call (α := α) text with
    | none => none
    | some (.error flaw) => some (.error flaw)
    | some (.ok (call, rest)) => calls (transform.comp call) (skipSeparators rest)
termination_by text.length
decreasing_by
  rw [call_eq] at _h
  exact Nat.lt_of_le_of_lt (List.dropWhile_sublist _).length_le
    (Affine.length_readCall_lt (Option.some.inj _h))

theorem calls_eq (transform : Affine α) (text : List Char) :
    calls transform text = some (Affine.readCalls transform text) := by
  fun_induction calls transform text with
  | case1 transform text hempty =>
    obtain rfl := List.isEmpty_iff.1 hempty
    rw [Affine.readCalls_nil]
  | case2 transform text hempty hcall =>
    rw [call_eq] at hcall
    cases hcall
  | case3 transform text hempty flaw hcall =>
    rw [call_eq, Option.some.injEq] at hcall
    rw [Affine.readCalls_of_ne_nil (mt List.isEmpty_iff.2 hempty), hcall]
    rfl
  | case4 transform text hempty call rest hcall ih =>
    rw [call_eq, Option.some.injEq] at hcall
    rw [Affine.readCalls_of_ne_nil (mt List.isEmpty_iff.2 hempty), hcall]
    exact ih

end

end ByPosition

end PenPlot
