import PenPlot.Proofs.PathCutting

/-!
# The loop that reads groups

The arguments of a command are read in a loop around a cursor: as long as something is left, a group is
begun, and an argument is asked for each of its slots. Nothing counts the rounds, so the loop ends only
because every group has a slot and every argument takes a byte. Here the loop is run step by step.
`GroupLoop.Sound` is what holds all the time: the cursor stands between characters, with nothing but gaps
between it and the last argument, the groups that are there are complete, and there are no more arguments
than bytes before the cursor. `GroupLoop.weight` goes down with every step, and what the loop comes to
(`GroupLoop.outcome`) stays the same.

For the closing of a subpath a group has no slots, and then the loop has no end unless the text is a gap.
What follows an instruction never begins the loop there (`applyBy`).
-/

namespace PenPlot

open Text

namespace ByPosition

/-! ## Where a cursor stands -/

namespace Cursor

variable {cursor after : Cursor}

theorem text_skipGaps (h : cursor.skipGaps = some after) : after.text = cursor.text := by
  fun_induction skipGaps cursor with
  | case1 cursor htest => cases h
  | case2 cursor htest =>
    cases h
    rfl
  | case3 cursor htest ih => exact ih h

theorem text_isExhausted {exhausted : Bool} (h : cursor.isExhausted = some (exhausted, after)) :
    after.text = cursor.text := by
  obtain ⟨next, hskip, h⟩ := Option.bind_eq_some_iff.1 h
  cases h
  exact text_skipGaps hskip

variable {α : Type} [Scalar α]

theorem text_nextNumber {found : Except ListFlaw (Option α)}
    (h : cursor.nextNumber = some (found, after)) : after.text = cursor.text := by
  obtain ⟨start, hskip, h⟩ := Option.bind_eq_some_iff.1 h
  have hstart := text_skipGaps hskip
  split at h
  · cases h
    exact hstart
  · obtain ⟨_, -, h⟩ := Option.bind_eq_some_iff.1 h
    obtain ⟨length, -, h⟩ := Option.bind_eq_some_iff.1 h
    split at h
    · obtain ⟨_, -, h⟩ := Option.bind_eq_some_iff.1 h
      cases h
      exact hstart
    · obtain ⟨token, -, h⟩ := Option.bind_eq_some_iff.1 h
      split at h
      · obtain ⟨_, -, h⟩ := Option.bind_eq_some_iff.1 h
        cases h
        exact hstart
      · cases h
        exact hstart

theorem text_nextFlag {found : Except ListFlaw (Option Bool)}
    (h : cursor.nextFlag = some (found, after)) : after.text = cursor.text := by
  obtain ⟨start, hskip, h⟩ := Option.bind_eq_some_iff.1 h
  have hstart := text_skipGaps hskip
  split at h
  · cases h
    exact hstart
  · split at h
    · cases h
      exact hstart
    · split at h
      · cases h
        exact hstart
      · obtain ⟨_, -, h⟩ := Option.bind_eq_some_iff.1 h
        cases h
        exact hstart

/-- Whatever is asked for, the cursor stays in its text. -/
theorem text_next {slot : Slot} {found : Except ListFlaw (Option (Argument α))}
    (h : cursor.next slot = some (found, after)) : after.text = cursor.text := by
  cases slot with
  | number =>
    obtain ⟨⟨value, last⟩, hnext, h⟩ := Option.map_eq_some_iff.1 h
    obtain ⟨-, rfl⟩ := Prod.mk.inj h
    exact text_nextNumber hnext
  | flag =>
    obtain ⟨⟨value, last⟩, hnext, h⟩ := Option.map_eq_some_iff.1 h
    obtain ⟨-, rfl⟩ := Prod.mk.inj h
    exact text_nextFlag hnext

/-- The cursor stands between characters of a text, before a rest of it, and nothing but a gap stands
between it and the position `stop`. -/
def Stands (text : List Char) (stop : Nat) (cursor : Cursor) (rest : List Char) : Prop :=
  ∃ front gap, text = front ++ (gap ++ rest) ∧ byteLength front = stop ∧
    (∀ c ∈ gap, isGap c = true) ∧ cursor = ⟨text, byteLength (front ++ gap)⟩

theorem stands_start (text : List Char) : Stands text 0 (start text) text :=
  ⟨[], [], rfl, rfl, nofun, rfl⟩

/-- Where the text is known, what stands behind the cursor says what stands before it. -/
theorem At.eq {front rest : List Char} (h : after.At rest) (htext : after.text = front ++ rest) :
    after = ⟨front ++ rest, byteLength front⟩ := by
  obtain ⟨text, position⟩ := after
  obtain ⟨before, hbefore, hposition⟩ := h
  obtain rfl : text = front ++ rest := htext
  obtain rfl : front = before := List.append_cancel_right hbefore
  obtain rfl : position = byteLength front := hposition
  rfl

namespace Stands

variable {text rest later : List Char} {stop : Nat} (h : Stands text stop cursor rest)

include h

theorem text_eq : cursor.text = text := by
  obtain ⟨-, -, -, -, -, rfl⟩ := h
  rfl

theorem at_rest : cursor.At rest := by
  obtain ⟨front, gap, htext, -, -, rfl⟩ := h
  exact ⟨front ++ gap, by rw [htext, List.append_assoc], rfl⟩

theorem stop_le : stop ≤ cursor.position := by
  obtain ⟨front, gap, -, rfl, -, rfl⟩ := h
  rw [byteLength_append]
  exact Nat.le_add_right _ _

theorem position_add : cursor.position + byteLength rest = byteLength text := by
  obtain ⟨front, gap, rfl, -, -, rfl⟩ := h
  simp only [byteLength_append, Nat.add_assoc]

/-- Where the cursor has only moved over gaps, it stands behind the same position. -/
theorem skipped (hrest : Text.skipGaps rest = later) (hat : after.At later)
    (htext : after.text = cursor.text) :
    Stands text stop after later ∧ cursor.position ≤ after.position := by
  obtain ⟨more, hmore, hsplit⟩ := exists_gap_append_skipGaps rest
  rw [hrest] at hsplit
  clear hrest
  subst hsplit
  obtain ⟨front, gap, rfl, hstop, hgap, rfl⟩ := h
  have hfront : front ++ (gap ++ (more ++ later)) = front ++ (gap ++ more) ++ later := by
    simp only [List.append_assoc]
  obtain rfl := hat.eq (htext.trans hfront)
  refine ⟨⟨front, gap ++ more, by simp only [List.append_assoc], hstop, ?_, ?_⟩, ?_⟩
  · exact List.forall_mem_append.2 ⟨hgap, hmore⟩
  · rw [hfront]
  · simp only [byteLength_append]
    omega

/-- Where the cursor has moved over a token as well, it stands right behind it. -/
theorem taken {token : List Char} (hrest : Text.skipGaps rest = token ++ later) (htoken : token ≠ [])
    (hat : after.At later) (htext : after.text = cursor.text) :
    Stands text after.position after later ∧ cursor.position < after.position := by
  obtain ⟨more, hmore, hsplit⟩ := exists_gap_append_skipGaps rest
  rw [hrest] at hsplit
  clear hrest
  subst hsplit
  obtain ⟨front, gap, rfl, hstop, hgap, rfl⟩ := h
  have hfront : front ++ (gap ++ (more ++ (token ++ later))) =
      front ++ (gap ++ (more ++ token)) ++ later := by
    simp only [List.append_assoc]
  obtain rfl := hat.eq (htext.trans hfront)
  have hpos : 0 < byteLength token := byteLength_pos_iff.2 htoken
  refine ⟨⟨_, [], hfront, rfl, nofun, ?_⟩, ?_⟩
  · rw [hfront, List.append_nil]
  · simp only [byteLength_append]
    omega

theorem isExhausted :
    ∃ after, cursor.isExhausted = some ((Text.skipGaps rest).isEmpty, after) ∧
      Stands text stop after (Text.skipGaps rest) ∧ cursor.position ≤ after.position := by
  obtain ⟨after, hstep, hafter⟩ := h.at_rest.isExhausted
  exact ⟨after, hstep, h.skipped rfl hafter (text_isExhausted hstep)⟩

end Stands

/-- Where a cursor stands when it has been asked for an argument: right behind the argument, which it has
moved over, or, where there is none, still behind the argument before. -/
def Asked (text : List Char) (stop : Nat) (slot : Slot) (cursor after : Cursor) :
    Except ListFlaw (Option (Argument α)) → Prop
  | .ok (some argument) => argument.slot = slot ∧ cursor.position < after.position ∧
      ∃ later, Stands text after.position after later
  | _ => cursor.position ≤ after.position ∧ ∃ later, Stands text stop after later

theorem Stands.next {text rest : List Char} {stop : Nat} (h : Stands text stop cursor rest)
    (slot : Slot) :
    ∃ found after, cursor.next (α := α) slot = some (found, after) ∧
      Asked text stop slot cursor after found := by
  obtain ⟨after, hstep, hafter⟩ := h.at_rest.next (α := α) slot
  have htext := text_next hstep
  refine ⟨_, after, hstep, ?_⟩
  cases hgap : Text.skipGaps rest with
  | nil =>
    rw [takeNext_of_nil hgap] at hafter ⊢
    obtain ⟨hstands, hle⟩ := h.skipped hgap hafter htext
    exact ⟨hle, [], hstands⟩
  | cons c behind =>
    cases hread : slot.read (α := α) (c :: behind) with
    | error flaw =>
      rw [takeNext_of_error hgap hread] at hafter ⊢
      obtain ⟨hstands, hle⟩ := h.skipped hgap hafter htext
      exact ⟨hle, c :: behind, hstands⟩
    | ok found =>
      obtain ⟨argument, later⟩ := found
      rw [takeNext_of_ok hgap hread] at hafter ⊢
      obtain ⟨token, hslot, rfl, hvalid, -, htoken⟩ := Slot.read_eq_ok_iff.1 hread
      have hne : token.text ≠ [] := by
        obtain ⟨d, further, htokenText, -⟩ := Argument.exists_text_eq_cons hvalid
        rw [htokenText]
        exact List.cons_ne_nil d further
      obtain ⟨hstands, hlt⟩ := h.taken (hgap.trans htoken) hne hafter htext
      exact ⟨(token.slot_map Literal.value).trans hslot, hlt, later, hstands⟩

end Cursor

/-! ## The loop -/

/-- What a loop is about to do. -/
inductive Phase where
  /-- To see whether anything is left. -/
  | between
  /-- To read the arguments for slots of a group. -/
  | within (slots : List Slot)
  /-- Nothing: all groups are read. -/
  | finished
  /-- Nothing: an argument is missing, or it is not the one that is needed. -/
  | failed (flaw : PathFlaw)
  deriving DecidableEq

/-- The reading of the groups of an instruction, as far as it has come. -/
structure GroupLoop (α : Type) where
  /-- Where the reading is. -/
  cursor : Cursor
  /-- Where the last argument ends. -/
  stop : Nat
  /-- The groups that are read. -/
  groups : List (List (Argument α))
  /-- The arguments of the group that is being read. -/
  group : List (Argument α)
  /-- What comes next. -/
  phase : Phase

namespace GroupLoop

variable {α : Type}

/-- The loop in front of the arguments. -/
def start (instruction : PathInstruction) : GroupLoop α :=
  ⟨Cursor.start instruction.arguments, 0, [], [], .between⟩

/-- The loop behind a look at what is left. -/
def looked (loop : GroupLoop α) (instruction : PathInstruction) (exhausted : Bool) (after : Cursor) :
    GroupLoop α :=
  { loop with
    cursor := after
    phase := if exhausted then .finished else .within instruction.command.slots }

/-- The loop behind the end of a group. -/
def closed (loop : GroupLoop α) : GroupLoop α :=
  { loop with groups := loop.groups ++ [loop.group], group := [], phase := .between }

/-- The loop behind the answer for a slot that is followed by others in its group. -/
def answered (loop : GroupLoop α) (instruction : PathInstruction) (slots : List Slot) (after : Cursor) :
    Except ListFlaw (Option (Argument α)) → GroupLoop α
  | .error flaw => { loop with cursor := after, phase := .failed (.arguments flaw) }
  | .ok none => { loop with
      cursor := after
      phase := .failed (.incompleteGroup instruction.command.arity instruction.arguments) }
  | .ok (some argument) => { loop with
      cursor := after
      stop := after.position
      group := loop.group ++ [argument]
      phase := .within slots }

/-- What a loop that has ended leaves. -/
def result? (loop : GroupLoop α) : Option (Except PathFlaw (List (List (Argument α)))) :=
  match loop.phase with
  | .finished => some (.ok loop.groups)
  | .failed flaw => some (.error flaw)
  | _ => none

/-- How many arguments are read. -/
def count (loop : GroupLoop α) : Nat := loop.groups.flatten.length + loop.group.length

/-- How many steps a loop has at most before it. A group is begun and ended, and it has an argument, so it
takes a byte for every three steps; at the end the loop is begun once more in vain. -/
def weight (loop : GroupLoop α) : Nat :=
  match loop.phase with
  | .between => 3 * loop.cursor.left + 2
  | .within _ => if loop.group = [] then 3 * loop.cursor.left + 1 else 3 * loop.cursor.left + 3
  | .finished | .failed _ => 0

variable [Scalar α]

/-- One step: a look at what is left, an argument, or the end of a group. A loop that has ended stays as
it is. -/
def step (instruction : PathInstruction) (loop : GroupLoop α) : Option (GroupLoop α) :=
  match loop.phase with
  | .between => do
    let (exhausted, after) ← loop.cursor.isExhausted
    return loop.looked instruction exhausted after
  | .within [] => some loop.closed
  | .within (slot :: slots) => do
    let (found, after) ← loop.cursor.next slot
    return loop.answered instruction slots after found
  | .finished | .failed _ => some loop

/-- The loop after a number of steps. -/
def after (instruction : PathInstruction) : Nat → Option (GroupLoop α)
  | 0 => some (start instruction)
  | n + 1 => (after instruction n).bind (step instruction)

/-- The groups that are found, behind those that are there. -/
def behind (before : List (List (Argument α)))
    (found : Option (Except PathFlaw (List (List (Argument α))))) :
    Option (Except PathFlaw (List (List (Argument α)))) :=
  found.map fun later => later.map (before ++ ·)

/-- What the loop comes to, if a group that is begun and the groups behind it are read as such. -/
def outcome (instruction : PathInstruction) (loop : GroupLoop α) :
    Option (Except PathFlaw (List (List (Argument α)))) :=
  match loop.phase with
  | .between => behind loop.groups (ByPosition.groups instruction instruction.command.slots loop.cursor)
  | .within slots => do
    match ← ByPosition.group (α := α) instruction slots loop.cursor with
    | .error flaw => return .error flaw
    | .ok (arguments, after) =>
      behind (loop.groups ++ [loop.group ++ arguments])
        (ByPosition.groups instruction instruction.command.slots after)
  | .finished => some (.ok loop.groups)
  | .failed flaw => some (.error flaw)

/-- What is true of a loop all the time. -/
structure Sound (instruction : PathInstruction) (loop : GroupLoop α) : Prop where
  /-- The cursor stands between characters, and only a gap stands between it and the last argument. -/
  stands : ∃ rest, Cursor.Stands instruction.arguments loop.stop loop.cursor rest
  /-- Every group that is read has an argument for each slot. -/
  complete : ∀ group ∈ loop.groups, group.map Argument.slot = instruction.command.slots
  /-- The arguments that are read take at least a byte each. -/
  count_le : loop.count ≤ loop.stop
  /-- The group that is being read has the arguments for the first slots, and it is empty outside of the
  reading of a group. Nothing but a gap is left when all groups are read. -/
  pending : match loop.phase with
    | .between => loop.group = []
    | .within slots => loop.group.map Argument.slot ++ slots = instruction.command.slots
    | .finished => loop.group = [] ∧ loop.cursor.position = byteLength instruction.arguments
    | .failed _ => True

/-- The cursor of the first loop does not stand behind that of the second, and the second has read no more
arguments on top of the first than it has moved over bytes. -/
def Advances (loop next : GroupLoop α) : Prop :=
  loop.cursor.position ≤ next.cursor.position ∧
    next.count + loop.cursor.position ≤ loop.count + next.cursor.position

/-- What a step keeps, and what it brings forward. -/
structure Continues (instruction : PathInstruction) (loop next : GroupLoop α) : Prop where
  /-- What is true of a loop stays true. -/
  sound : next.Sound instruction
  /-- The cursor does not go back. -/
  advances : loop.Advances next
  /-- There is a step less before the loop. -/
  weight_le : instruction.command ≠ .closePath → next.weight ≤ loop.weight - 1
  /-- The loop comes to the same. -/
  outcome_eq : instruction.command ≠ .closePath → next.outcome instruction = loop.outcome instruction

variable {instruction : PathInstruction} {loop : GroupLoop α}

omit [Scalar α] in
theorem behind_behind (before further : List (List (Argument α)))
    (found : Option (Except PathFlaw (List (List (Argument α))))) :
    behind before (behind further found) = behind (before ++ further) found := by
  rcases found with _ | flaw | later
  · rfl
  · rfl
  · simp [behind, Except.map]

theorem outcome_looked (hclose : instruction.command ≠ .closePath) (hphase : loop.phase = .between)
    (hgroup : loop.group = []) {exhausted : Bool} {after : Cursor}
    (hstep : loop.cursor.isExhausted = some (exhausted, after)) :
    (loop.looked instruction exhausted after).outcome instruction = loop.outcome instruction := by
  obtain ⟨slot, slots, hslots⟩ := List.exists_cons_of_ne_nil (PathCommand.slots_ne_nil hclose)
  symm
  rw [outcome, hphase]
  simp only
  rw [hslots, ByPosition.groups, hstep]
  cases exhausted with
  | true => simp [looked, outcome, behind, Except.map]
  | false =>
    simp only [looked, outcome, hgroup, hslots, Bool.false_eq_true, if_false]
    rcases ByPosition.group instruction (slot :: slots) after with _ | flaw | ⟨arguments, last⟩
    · rfl
    · rfl
    · exact behind_behind loop.groups [arguments] _

theorem outcome_closed (hphase : loop.phase = .within []) :
    loop.closed.outcome instruction = loop.outcome instruction := by
  symm
  rw [outcome, hphase]
  simp only [ByPosition.group, some_bind, List.append_nil]
  rfl

theorem outcome_answered {slot : Slot} {slots : List Slot} (hphase : loop.phase = .within (slot :: slots))
    {found : Except ListFlaw (Option (Argument α))} {after : Cursor}
    (hstep : loop.cursor.next slot = some (found, after)) :
    (loop.answered instruction slots after found).outcome instruction = loop.outcome instruction := by
  symm
  rw [outcome, hphase]
  simp only
  rw [ByPosition.group, hstep, some_bind]
  rcases found with flaw | _ | argument
  · rfl
  · rfl
  · simp only [answered, outcome]
    rcases ByPosition.group instruction slots after with _ | flaw | ⟨arguments, last⟩
    · rfl
    · rfl
    · simp only [List.append_assoc]
      rfl

/-- Between groups either nothing is left or a group is begun. -/
theorem Sound.step_between (h : loop.Sound instruction) (hphase : loop.phase = .between) :
    ∃ next, loop.step instruction = some next ∧ loop.Continues instruction next := by
  obtain ⟨⟨rest, hstands⟩, hcomplete, hcount, hpending⟩ := h
  rw [hphase] at hpending
  have hgroup : loop.group = [] := hpending
  obtain ⟨after, hstep, hafter, hle⟩ := hstands.isExhausted
  have hleft := Cursor.left_isExhausted_le hstep
  refine ⟨loop.looked instruction (skipGaps rest).isEmpty after, ?_, ?_⟩
  · rw [step, hphase]
    simp only [hstep]
    rfl
  have hadvances : loop.Advances (loop.looked instruction (skipGaps rest).isEmpty after) :=
    ⟨hle, Nat.add_le_add_left hle _⟩
  refine ⟨⟨⟨_, hafter⟩, hcomplete, hcount, ?_⟩, hadvances, fun _ => ?_,
    fun hclose => outcome_looked hclose hphase hgroup hstep⟩
  · cases hskip : skipGaps rest with
    | nil =>
      rw [hskip] at hafter
      exact ⟨hgroup, hafter.position_add⟩
    | cons c rest => simp [looked, hgroup]
  · cases skipGaps rest with
    | nil => exact Nat.zero_le _
    | cons c rest =>
      simp only [weight, looked, hphase, hgroup, List.isEmpty_cons, Bool.false_eq_true, if_false,
        if_true]
      omega

/-- A group that is read whole is put behind the others. -/
theorem Sound.step_within_nil (h : loop.Sound instruction) (hphase : loop.phase = .within []) :
    ∃ next, loop.step instruction = some next ∧ loop.Continues instruction next := by
  obtain ⟨hstands, hcomplete, hcount, hpending⟩ := h
  rw [hphase] at hpending
  have hgroup : loop.group.map Argument.slot = instruction.command.slots := by
    rw [← hpending, List.append_nil]
  have hsame : loop.closed.count = loop.count := by
    simp [closed, count]
  refine ⟨loop.closed, by rw [step, hphase], ⟨hstands, ?_, hsame.trans_le hcount, rfl⟩,
    ⟨Nat.le_refl _, ?_⟩, fun hclose => ?_, fun _ => outcome_closed hphase⟩
  · exact List.forall_mem_append.2 ⟨hcomplete, List.forall_mem_singleton.2 hgroup⟩
  · exact Nat.add_le_add_right hsame.le _
  · have hne : loop.group ≠ [] := fun hnil =>
      PathCommand.slots_ne_nil hclose (by rw [← hgroup, hnil, List.map_nil])
    simp only [weight, closed, hphase, if_neg hne]
    omega

/-- A loop that fails has moved over gaps only. -/
theorem Sound.continues_of_failed (h : loop.Sound instruction) {after : Cursor} {later : List Char}
    (hle : loop.cursor.position ≤ after.position)
    (hafter : Cursor.Stands instruction.arguments loop.stop after later) {flaw : PathFlaw}
    (houtcome : outcome instruction { loop with cursor := after, phase := .failed flaw } =
      loop.outcome instruction) :
    loop.Continues instruction { loop with cursor := after, phase := .failed flaw } :=
  ⟨⟨⟨later, hafter⟩, h.complete, h.count_le, trivial⟩, ⟨hle, Nat.add_le_add_left hle _⟩,
    fun _ => Nat.zero_le _, fun _ => houtcome⟩

/-- For a slot an argument is read, or the loop fails. -/
theorem Sound.step_within_cons (h : loop.Sound instruction) {slot : Slot} {slots : List Slot}
    (hphase : loop.phase = .within (slot :: slots)) :
    ∃ next, loop.step instruction = some next ∧ loop.Continues instruction next := by
  obtain ⟨rest, hstands⟩ := h.stands
  obtain ⟨found, after, hstep, hasked⟩ := hstands.next (α := α) slot
  refine ⟨loop.answered instruction slots after found, ?_, ?_⟩
  · rw [step, hphase]
    simp only [hstep]
    rfl
  have houtcome : (loop.answered instruction slots after found).outcome instruction =
      loop.outcome instruction := outcome_answered hphase hstep
  rcases found with flaw | _ | argument
  · obtain ⟨hle, later, hafter⟩ := hasked
    exact h.continues_of_failed hle hafter houtcome
  · obtain ⟨hle, later, hafter⟩ := hasked
    exact h.continues_of_failed hle hafter houtcome
  · obtain ⟨rfl, hlt, later, hafter⟩ := hasked
    have hleft := Cursor.left_next_lt hstep
    have hstop : loop.stop ≤ loop.cursor.position := hstands.stop_le
    have hcount := h.count_le
    have hpending := h.pending
    rw [hphase] at hpending
    have hmore : (loop.answered instruction slots after (.ok (some argument))).count =
        loop.count + 1 := by
      simp only [answered, count, List.length_append, List.length_singleton, Nat.add_assoc]
    refine ⟨⟨⟨later, hafter⟩, h.complete, ?_, ?_⟩, ⟨hlt.le, ?_⟩, fun _ => ?_, fun _ => houtcome⟩
    · have hend : after.position =
          (loop.answered instruction slots after (.ok (some argument))).stop := rfl
      omega
    · simpa [answered] using hpending
    · have hend : after.position =
          (loop.answered instruction slots after (.ok (some argument))).cursor.position := rfl
      omega
    · simp only [weight, answered, hphase, List.append_eq_nil_iff, List.cons_ne_nil, and_false,
        if_false]
      split <;> omega

theorem Sound.continues_of_ended (h : loop.Sound instruction) (hweight : loop.weight = 0) :
    loop.Continues instruction loop :=
  ⟨h, ⟨Nat.le_refl _, Nat.le_refl _⟩, fun _ => hweight ▸ Nat.zero_le _, fun _ => rfl⟩

/-- Whatever a loop is about to do, a step of it has an answer. -/
theorem Sound.step (h : loop.Sound instruction) :
    ∃ next, loop.step instruction = some next ∧ loop.Continues instruction next := by
  cases hphase : loop.phase with
  | between => exact h.step_between hphase
  | within slots =>
    cases slots with
    | nil => exact h.step_within_nil hphase
    | cons slot slots => exact h.step_within_cons hphase
  | finished =>
    have hweight : loop.weight = 0 := by rw [weight, hphase]
    exact ⟨loop, by rw [GroupLoop.step, hphase], h.continues_of_ended hweight⟩
  | failed flaw =>
    have hweight : loop.weight = 0 := by rw [weight, hphase]
    exact ⟨loop, by rw [GroupLoop.step, hphase], h.continues_of_ended hweight⟩

/-! ## The whole run -/

omit [Scalar α] in
theorem Advances.trans {next last : GroupLoop α} (h : loop.Advances next) (hlast : next.Advances last) :
    loop.Advances last := by
  obtain ⟨hle, hcount⟩ := h
  obtain ⟨hle', hcount'⟩ := hlast
  exact ⟨hle.trans hle', by omega⟩

omit [Scalar α] in
theorem sound_start (instruction : PathInstruction) :
    (start (α := α) instruction).Sound instruction :=
  ⟨⟨_, Cursor.stands_start _⟩, List.forall_mem_nil _, Nat.le_refl _, rfl⟩

/-- What is true of a loop is true of it after any number of steps. -/
theorem sound_after (instruction : PathInstruction) (n : Nat) :
    ∃ loop : GroupLoop α, after instruction n = some loop ∧ loop.Sound instruction ∧
      (instruction.command ≠ .closePath →
        loop.weight ≤ (start (α := α) instruction).weight - n ∧
          loop.outcome instruction = (start instruction).outcome instruction) := by
  induction n with
  | zero => exact ⟨_, rfl, sound_start instruction, fun _ => ⟨Nat.le_refl _, rfl⟩⟩
  | succ n ih =>
    obtain ⟨loop, hloop, hsound, hleft⟩ := ih
    obtain ⟨next, hstep, hnext⟩ := hsound.step
    refine ⟨next, by rw [after, hloop, Option.bind_some, hstep], hnext.sound, fun hclose => ?_⟩
    obtain ⟨hweight, houtcome⟩ := hleft hclose
    have hless := hnext.weight_le hclose
    exact ⟨by omega, (hnext.outcome_eq hclose).trans houtcome⟩

/-- The cursor only moves forward, and each argument takes it over a byte. -/
theorem advances_after {k : Nat} (hloop : after instruction k = some loop) (n : Nat) :
    ∃ next : GroupLoop α, after instruction (k + n) = some next ∧ loop.Advances next := by
  induction n with
  | zero => exact ⟨loop, hloop, Nat.le_refl _, Nat.le_refl _⟩
  | succ n ih =>
    obtain ⟨next, hnext, hadvances⟩ := ih
    obtain ⟨_, hafter, hsound, -⟩ := sound_after (α := α) instruction (k + n)
    obtain rfl := Option.some.inj (hnext.symm.trans hafter)
    obtain ⟨last, hstep, hlast⟩ := hsound.step
    exact ⟨last, by rw [← Nat.add_assoc, after, hnext, Option.bind_some, hstep],
      hadvances.trans hlast.advances⟩

omit [Scalar α] in
theorem Sound.length_eq (h : loop.Sound instruction) :
    ∀ group ∈ loop.groups, group.length = instruction.command.arity := by
  intro group hgroup
  rw [PathCommand.arity, ← h.complete group hgroup, List.length_map]

omit [Scalar α] in
/-- There are no more groups than the text has room for. -/
theorem Sound.length_groups_mul_le (h : loop.Sound instruction) :
    loop.groups.length * instruction.command.arity ≤ byteLength instruction.arguments := by
  obtain ⟨rest, hstands⟩ := h.stands
  have hflatten : loop.groups.flatten.length = loop.groups.length * instruction.command.arity := by
    rw [List.length_flatten, List.map_congr_left h.length_eq, List.map_const', List.sum_replicate,
      smul_eq_mul]
  have hcount : loop.groups.flatten.length + loop.group.length ≤ loop.stop := h.count_le
  have hstop := hstands.stop_le
  have hend := hstands.position_add
  omega

theorem outcome_of_weight (h : loop.weight = 0) : loop.outcome instruction = loop.result? := by
  rw [outcome, result?]
  rw [weight] at h
  cases hphase : loop.phase with
  | finished => rfl
  | failed flaw => rfl
  | between => simp [hphase] at h
  | within slots =>
    simp only [hphase] at h
    split at h <;> cases h

theorem outcome_start (hclose : instruction.command ≠ .closePath) :
    (start (α := α) instruction).outcome instruction =
      some (complete instruction (readGroups instruction.command.slots instruction.arguments)) := by
  have hgroups := (Cursor.at_start instruction.arguments).groups (α := α) hclose
  rw [outcome]
  simp only [start]
  rw [hgroups]
  cases complete (α := α) instruction
    (readGroups instruction.command.slots instruction.arguments) <;> rfl

/-- The loop ends, and it comes to the groups of the text. -/
theorem exists_result (hclose : instruction.command ≠ .closePath) :
    ∃ last : GroupLoop α, after instruction (3 * byteLength instruction.arguments + 2) = some last ∧
      last.result? =
        some (complete instruction (readGroups instruction.command.slots instruction.arguments)) := by
  obtain ⟨last, hlast, -, hend⟩ :=
    sound_after (α := α) instruction (3 * byteLength instruction.arguments + 2)
  obtain ⟨hweight, houtcome⟩ := hend hclose
  have hstart : (start (α := α) instruction).weight =
      3 * byteLength instruction.arguments + 2 := rfl
  have hzero : last.weight = 0 := by omega
  exact ⟨last, hlast, by rw [← outcome_of_weight hzero, houtcome, outcome_start hclose]⟩

/-! ## Groups without slots -/

/-- The loop goes on, and something other than a gap is left. -/
def Stuck (loop : GroupLoop α) : Prop :=
  (loop.phase = .between ∨ loop.phase = .within []) ∧
    ∃ rest, loop.cursor.At rest ∧ skipGaps rest ≠ []

/-- A group without slots takes nothing of the text. -/
theorem Stuck.step (hclose : instruction.command = .closePath) (h : loop.Stuck) :
    ∃ next, loop.step instruction = some next ∧ next.Stuck := by
  obtain ⟨hphase | hphase, rest, hat, hrest⟩ := h
  · obtain ⟨after, hstep, hafter⟩ := hat.isExhausted
    have hskip : (skipGaps rest).isEmpty = false := by
      rwa [← Bool.not_eq_true, List.isEmpty_iff]
    have hsame : skipGaps (skipGaps rest) = skipGaps rest := List.dropWhile_idempotent ..
    refine ⟨loop.looked instruction (skipGaps rest).isEmpty after, ?_, .inr ?_, _, hafter, ?_⟩
    · rw [GroupLoop.step, hphase]
      simp only [hstep]
      rfl
    · simp [looked, hskip, hclose, PathCommand.slots]
    · rwa [hsame]
  · exact ⟨loop.closed, by rw [GroupLoop.step, hphase], .inl rfl, rest, hat, hrest⟩

theorem stuck_after (hclose : instruction.command = .closePath)
    (htext : skipGaps instruction.arguments ≠ []) (n : Nat) :
    ∃ loop : GroupLoop α, after instruction n = some loop ∧ loop.Stuck := by
  induction n with
  | zero => exact ⟨_, rfl, .inl rfl, _, Cursor.at_start _, htext⟩
  | succ n ih =>
    obtain ⟨loop, hloop, hstuck⟩ := ih
    obtain ⟨next, hstep, hnext⟩ := hstuck.step hclose
    exact ⟨next, by rw [after, hloop, Option.bind_some, hstep], hnext⟩

/-- Without slots the loop has no end just if the text is more than a gap. -/
theorem endless_iff (hclose : instruction.command = .closePath) :
    (∀ n, (after (α := α) instruction n).bind result? = none) ↔
      ∃ c ∈ instruction.arguments, isGap c = false := by
  have hgap : (∃ c ∈ instruction.arguments, isGap c = false) ↔ skipGaps instruction.arguments ≠ [] := by
    rw [Ne, skipGaps_eq_nil_iff]
    simp
  rw [hgap]
  constructor
  · intro h hskip
    obtain ⟨last, hstep, -⟩ := (Cursor.at_start instruction.arguments).isExhausted
    have hone := h 1
    rw [hskip] at hstep
    rw [after, after, Option.bind_some, step] at hone
    simp only [start, hstep] at hone
    cases hone
  · intro htext n
    obtain ⟨loop, hloop, hphase, -⟩ := stuck_after (α := α) hclose htext n
    rw [hloop, Option.bind_some, result?]
    rcases hphase with hphase | hphase <;> rw [hphase]

end GroupLoop

/-! ## What an instruction asks for -/

variable {α : Type} [Scalar α]

/-- The segments of an instruction, and the state behind it, where its groups are read in some way. -/
def applyBy (read : PathInstruction → Option (Except PathFlaw (List (List (Argument α)))))
    (state : PathState α) (instruction : PathInstruction) :
    Option (Except PathFlaw (List (Segment α)) × PathState α) := do
  if instruction.command = .closePath then
    if instruction.arguments.all isSeparator then
      return (.ok [.close state.current state.start],
        { state with current := state.start, control := none })
    else return (.error (.closeArguments instruction.arguments), state)
  else
    match ← read instruction with
    | .error flaw => return (.error flaw, state)
    | .ok [] => return (.error (.missingArguments instruction.command.arity), state)
    | .ok (first :: later) =>
      let (segments, last) ← segments instruction.command instruction.mode state 0 (first :: later)
      return (.ok segments, last)

theorem apply_eq_applyBy (state : PathState α) (instruction : PathInstruction) :
    apply state instruction =
      applyBy (fun instruction =>
        groups instruction instruction.command.slots (Cursor.start instruction.arguments))
        state instruction :=
  rfl

/-- The groups of the closing of a subpath are not asked for. -/
theorem applyBy_congr {read other : PathInstruction → Option (Except PathFlaw (List (List (Argument α))))}
    {instruction : PathInstruction}
    (h : instruction.command ≠ .closePath → read instruction = other instruction)
    (state : PathState α) : applyBy read state instruction = applyBy other state instruction := by
  rw [applyBy, applyBy]
  split
  · rfl
  · next hclose => rw [h hclose]

/-- For any command but the closing of a subpath the loop ends with the groups of the text, or with the
flaw that is in its way. All the time its cursor stands between characters and moves forward, the groups
that are read are complete and no more than the text has bytes for, and between the cursor and the last
argument stands nothing but a gap. For the closing of a subpath the loop has no end unless the text is a
gap, but whatever reads groups is not asked for those of the closing of a subpath. -/
theorem GroupLoop.ends_unless_closing (instruction : PathInstruction) :
    (instruction.command ≠ .closePath →
      ∃ last : GroupLoop α,
        after instruction (3 * byteLength instruction.arguments + 2) = some last ∧
          last.result? = some (complete instruction
            (readGroups instruction.command.slots instruction.arguments))) ∧
    (∀ m, ∃ loop : GroupLoop α, after instruction m = some loop ∧ loop.Sound instruction ∧
      (∀ group ∈ loop.groups, group.length = instruction.command.arity) ∧
      loop.groups.length * instruction.command.arity ≤ byteLength instruction.arguments ∧
      ∀ k ≤ m, ∃ earlier : GroupLoop α,
        after instruction k = some earlier ∧ earlier.Advances loop) ∧
    (instruction.command = .closePath →
      ((∀ n, (after (α := α) instruction n).bind result? = none) ↔
        ∃ c ∈ instruction.arguments, isGap c = false)) ∧
    ∀ (state : PathState α) (read : PathInstruction → Option (Except PathFlaw _)),
      (instruction.command ≠ .closePath → read instruction =
        (after instruction (3 * byteLength instruction.arguments + 2)).bind result?) →
      applyBy read state instruction = some
        (match instruction.steps (α := α) with
          | .error flaw => (.error flaw, state)
          | .ok steps =>
            (.ok (state.advanceAll instruction.mode steps).1,
              (state.advanceAll instruction.mode steps).2)) := by
  refine ⟨exists_result, fun m => ?_, endless_iff, fun state read hread => ?_⟩
  · obtain ⟨loop, hloop, hsound, -⟩ := sound_after (α := α) instruction m
    refine ⟨loop, hloop, hsound, hsound.length_eq, hsound.length_groups_mul_le, fun k hk => ?_⟩
    obtain ⟨earlier, hearlier, -⟩ := sound_after (α := α) instruction k
    obtain ⟨last, hlast, hadvances⟩ := advances_after hearlier (m - k)
    rw [Nat.add_sub_cancel' hk, hloop] at hlast
    cases hlast
    exact ⟨earlier, hearlier, hadvances⟩
  · refine Eq.trans ?_ (apply_eq state instruction)
    rw [apply_eq_applyBy]
    refine applyBy_congr (fun hclose => ?_) state
    obtain ⟨last, hlast, hresult⟩ := exists_result (α := α) hclose
    rw [hread hclose, hlast, Option.bind_some, hresult]
    exact ((Cursor.at_start instruction.arguments).groups hclose).symm

/-- The second of two arcs breaks off behind its flags, and the closing of a subpath has an argument. -/
theorem GroupLoop.ends_unless_closing_arcs :
    let arcs : PathInstruction := ⟨.arcTo, .absolute, "5 5 0 01 10 10 3,3 0 10".toList⟩
    let closing : PathInstruction := ⟨.closePath, .absolute, " 7".toList⟩
    let state : PathState Float := ⟨⟨7, 8⟩, ⟨9, 9⟩, none⟩
    (∃ last : GroupLoop Float, after arcs 71 = some last ∧
      last.result? = some (.error (.incompleteGroup 7 "5 5 0 01 10 10 3,3 0 10".toList))) ∧
    (∀ n, (after (α := Float) closing n).bind result? = none) ∧
    applyBy (fun _ => none) state closing = some (.error (.closeArguments " 7".toList), state) := by
  intro arcs closing state
  have hcomplete : complete (α := Float) arcs (readGroups arcs.command.slots arcs.arguments) =
      .error (.incompleteGroup 7 "5 5 0 01 10 10 3,3 0 10".toList) := by decide +kernel
  obtain ⟨harcs, -⟩ := ends_unless_closing (α := Float) arcs
  obtain ⟨-, -, hendless, happly⟩ := ends_unless_closing (α := Float) closing
  obtain ⟨last, hlast, hresult⟩ := harcs (by decide)
  refine ⟨⟨last, hlast, hresult.trans (congrArg some hcomplete)⟩, ?_, ?_⟩
  · exact (hendless rfl).2 ⟨'7', by decide, by decide⟩
  · exact happly state (fun _ => none) (fun hclose => absurd rfl hclose)

end ByPosition

end PenPlot
