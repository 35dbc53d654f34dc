import PenPlot.Number.Literal
import PenPlot.Text.Blank
import PenPlot.Text.Quoted

/-!
# Lists of numbers

The numbers of a list are separated by gaps, which may be empty where the next number cannot be taken
for a part of the one before: `10-5` is two numbers, and so is `0.5.5`. In the arguments of a path
some places hold a flag instead, a single `0` or `1` that needs no gap behind it. A command takes its
arguments in groups, so the reading of groups is here as well: what the places of a group hold is a
list of slots.
-/

namespace PenPlot

/-- What a place in a list of arguments holds. -/
inductive Slot where
  /-- A number. -/
  | number
  /-- A single `0` or `1`. -/
  | flag
  deriving DecidableEq, Repr

/-- An argument that has been read. -/
inductive Argument (α : Type) where
  /-- The value of a number. -/
  | number (value : α)
  /-- The value of a flag. -/
  | flag (value : Bool)
  deriving DecidableEq, Repr

/-- Why a list cannot be read. -/
inductive ListFlaw where
  /-- No number stands at the front of the rest of the text. -/
  | notNumber (rest : List Char)
  /-- No flag stands at the front of the rest of the text. -/
  | notFlag (rest : List Char)
  deriving DecidableEq, Repr

/-- The wording of a flaw. -/
def ListFlaw.message : ListFlaw → String
  | notNumber rest => "expected a number at " ++ Text.quoted rest
  | notFlag rest => "arc flag must be 0 or 1 near " ++ Text.quoted rest

variable {α : Type} [Scalar α]

/-- The number at the front of a text without leading gaps, and the rest. -/
def readNumber (text : List Char) : Except ListFlaw (α × List Char) :=
  match Literal.read? text with
  | some (literal, rest) => .ok (literal.value, rest)
  | none => .error (.notNumber text)

/-- The flag at the front of a text without leading gaps, and the rest. -/
def readFlag : List Char → Except ListFlaw (Bool × List Char)
  | '0' :: rest => .ok (false, rest)
  | '1' :: rest => .ok (true, rest)
  | text => .error (.notFlag text)

/-- The argument for a slot at the front of a text without leading gaps, and the rest. -/
def Slot.read (slot : Slot) (text : List Char) : Except ListFlaw (Argument α × List Char) :=
  match slot with
  | .number => (readNumber text).map fun (value, rest) => (.number value, rest)
  | .flag => (readFlag text).map fun (value, rest) => (.flag value, rest)

theorem length_readNumber_lt {text rest : List Char} {value : α}
    (h : readNumber text = .ok (value, rest)) : rest.length < text.length := by
  unfold readNumber at h
  split at h
  · next hr =>
    simp only [Except.ok.injEq, Prod.mk.injEq] at h
    obtain ⟨-, rfl⟩ := h
    exact Literal.length_rest_lt hr
  · cases h

theorem length_readFlag_lt {text rest : List Char} {value : Bool}
    (h : readFlag text = .ok (value, rest)) : rest.length < text.length := by
  unfold readFlag at h
  split at h
  · cases h; simp
  · cases h; simp
  · cases h

/-- Reading an argument takes at least one character. -/
theorem Slot.length_read_lt {slot : Slot} {text rest : List Char} {argument : Argument α}
    (h : slot.read text = .ok (argument, rest)) : rest.length < text.length := by
  cases slot with
  | number =>
    simp only [Slot.read] at h
    cases hn : readNumber (α := α) text with
    | error flaw => simp [hn, Except.map] at h
    | ok found =>
      simp only [hn, Except.map, Except.ok.injEq, Prod.mk.injEq] at h
      exact h.2 ▸ length_readNumber_lt hn
  | flag =>
    simp only [Slot.read] at h
    cases hf : readFlag text with
    | error flaw => simp [hf, Except.map] at h
    | ok found =>
      simp only [hf, Except.map, Except.ok.injEq, Prod.mk.injEq] at h
      exact h.2 ▸ length_readFlag_lt hf

/-- The numbers of a list. -/
def readNumbers (text : List Char) : Except ListFlaw (List α) :=
  match hs : Text.skipGaps text with
  | [] => .ok []
  | c :: behind =>
    match hr : readNumber (α := α) (c :: behind) with
    | .error flaw => .error flaw
    | .ok (value, rest) =>
      have : rest.length < text.length :=
        Nat.lt_of_lt_of_le (length_readNumber_lt hr) (hs ▸ Text.length_skipGaps_le text)
      match readNumbers rest with
      | .error flaw => .error flaw
      | .ok values => .ok (value :: values)
termination_by text.length

theorem readNumbers_of_nil {text : List Char} (h : Text.skipGaps text = []) :
    readNumbers (α := α) text = .ok [] := by
  rw [readNumbers.eq_def]
  split
  · rfl
  · next hs =>
    rw [h] at hs
    cases hs

/-- The first number of a list stands in front of those of the rest. -/
theorem readNumbers_of_cons {text behind : List Char} {c : Char}
    (h : Text.skipGaps text = c :: behind) :
    readNumbers (α := α) text =
      (readNumber (c :: behind)).bind fun (value, rest) =>
        (readNumbers rest).map (value :: ·) := by
  rw [readNumbers.eq_def]
  split
  · next hs =>
    rw [h] at hs
    cases hs
  · next hs =>
    rw [h] at hs
    cases hs
    split
    · next hr => simp only [hr, Except.bind]
    · next value rest hr =>
      simp only [hr, Except.bind]
      cases readNumbers (α := α) rest <;> rfl

/-- The arguments for the slots, one behind the other, and the rest. The result is shorter than the
slots if the text ends early. -/
def readGroup : List Slot → List Char → Except ListFlaw (List (Argument α) × List Char)
  | [], text => .ok ([], text)
  | slot :: slots, text =>
    match Text.skipGaps text with
    | [] => .ok ([], [])
    | c :: behind =>
      match slot.read (c :: behind) with
      | .error flaw => .error flaw
      | .ok (argument, rest) =>
        match readGroup slots rest with
        | .error flaw => .error flaw
        | .ok (arguments, rest) => .ok (argument :: arguments, rest)

theorem length_readGroup_le {slots : List Slot} {text rest : List Char}
    {arguments : List (Argument α)} (h : readGroup slots text = .ok (arguments, rest)) :
    rest.length ≤ text.length := by
  induction slots generalizing text rest arguments with
  | nil =>
    simp only [readGroup, Except.ok.injEq, Prod.mk.injEq] at h
    simp [h.2]
  | cons slot slots ih =>
    simp only [readGroup] at h
    have hle := Text.length_skipGaps_le text
    split at h
    · cases h; simp
    · next hs =>
      rw [hs] at hle
      split at h
      · cases h
      · next hr =>
        have hlt := Slot.length_read_lt hr
        split at h
        · cases h
        · next hg =>
          cases h
          have := ih hg
          omega

/-- A group of at least one slot takes something of a text that is not just gaps. -/
theorem length_readGroup_lt {slot : Slot} {slots : List Slot} {text rest behind : List Char}
    {c : Char} {arguments : List (Argument α)} (hs : Text.skipGaps text = c :: behind)
    (h : readGroup (slot :: slots) text = .ok (arguments, rest)) : rest.length < text.length := by
  have hle := Text.length_skipGaps_le text
  rw [hs] at hle
  simp only [readGroup, hs] at h
  split at h
  · cases h
  · next hr =>
    have hlt := Slot.length_read_lt hr
    split at h
    · cases h
    · next hg =>
      cases h
      have := length_readGroup_le hg
      omega

/-- The groups of a text, which is read up to its end. The last group is shorter than the others if
the text ends early. Without slots there are no groups. -/
def readGroups (slots : List Slot) (text : List Char) :
    Except ListFlaw (List (List (Argument α))) :=
  match slots, hs : Text.skipGaps text with
  | [], _ => .ok []
  | _ :: _, [] => .ok []
  | slot :: slots, _ :: _ =>
    match hg : readGroup (α := α) (slot :: slots) text with
    | .error flaw => .error flaw
    | .ok (arguments, rest) =>
      have : rest.length < text.length := length_readGroup_lt hs hg
      match readGroups (slot :: slots) rest with
      | .error flaw => .error flaw
      | .ok groups => .ok (arguments :: groups)
termination_by text.length

theorem readGroups_nil (text : List Char) : readGroups (α := α) [] text = .ok [] := by
  rw [readGroups.eq_def]

theorem readGroups_of_nil {slots : List Slot} {text : List Char} (h : Text.skipGaps text = []) :
    readGroups (α := α) slots text = .ok [] := by
  rw [readGroups.eq_def]
  split
  · rfl
  · rfl
  · next hs =>
    rw [h] at hs
    cases hs

/-- The first group stands in front of those of the rest. -/
theorem readGroups_of_cons {slot : Slot} {slots : List Slot} {text behind : List Char} {c : Char}
    (h : Text.skipGaps text = c :: behind) :
    readGroups (α := α) (slot :: slots) text =
      (readGroup (slot :: slots) text).bind fun (arguments, rest) =>
        (readGroups (slot :: slots) rest).map (arguments :: ·) := by
  rw [readGroups.eq_def]
  split
  · contradiction
  · next hs =>
    rw [h] at hs
    cases hs
  · next slot' slots' _ _ hslots hs =>
    cases hslots
    split
    · next hg => simp only [hg, Except.bind]
    · next arguments rest hg =>
      simp only [hg, Except.bind]
      cases readGroups (α := α) (slot :: slots) rest <;> rfl

end PenPlot
