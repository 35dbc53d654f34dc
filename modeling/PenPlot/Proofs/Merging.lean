import PenPlot.Proofs.Route
import PenPlot.Proofs.Tracking

/-!
# Tallies add up

Counting elements on top of a tally comes to the same as counting them on their own and merging the
tallies. For the counts by name this rests on one fact: in whatever order counts are added to a census,
the census is the same.
-/

namespace PenPlot

namespace Census

/-- Adding twice under one name adds the sum. -/
theorem add_add_same (name : String) (n m : Nat) (census : Census) :
    (census.add name n).add name m = census.add name (n + m) := by
  induction census with
  | nil => simp [add]
  | cons entry census ih =>
    obtain ⟨other, k⟩ := entry
    by_cases heq : name = other
    · simp [add, heq, Nat.add_assoc]
    · by_cases hlt : name < other
      · simp [add, heq, hlt]
      · simp [add, heq, hlt, ih]

/-- It does not matter under which of two names something is added first, said for the two in order. -/
theorem add_add_of_lt {name other : String} (hlt : name < other) (n m : Nat) (census : Census) :
    (census.add name n).add other m = (census.add other m).add name n := by
  have hne : name ≠ other := by
    rintro rfl
    exact String.lt_irrefl name hlt
  have hnlt : ¬ other < name := String.lt_asymm hlt
  induction census with
  | nil => simp [add, hne.symm, hnlt, hne, hlt]
  | cons entry census ih =>
    obtain ⟨third, k⟩ := entry
    -- The name goes in front of the third name, to it, or behind it; the other name comes later.
    by_cases heq : name = third
    · subst heq
      simp [add, hne.symm, hnlt]
    · by_cases hfront : name < third
      · by_cases hother : other = third
        · subst hother
          simp [add, hne, hne.symm, hlt, hnlt]
        · by_cases hbetween : other < third
          · simp [add, heq, hfront, hother, hbetween, hne, hne.symm, hlt, hnlt]
          · simp [add, heq, hfront, hother, hbetween, hne.symm, hnlt]
      · have hthird : third < name := Std.lt_of_le_of_ne (String.not_lt.1 hfront) (Ne.symm heq)
        have hbehind : third < other := String.lt_trans hthird hlt
        have hother : other ≠ third := by
          rintro rfl
          exact String.lt_irrefl other hbehind
        simp [add, heq, hfront, hother, String.lt_asymm hbehind, ih]

/-- It does not matter under which of two names something is added first. -/
theorem add_add_comm (name other : String) (n m : Nat) (census : Census) :
    (census.add name n).add other m = (census.add other m).add name n := by
  by_cases heq : name = other
  · subst heq
    rw [add_add_same, add_add_same, Nat.add_comm]
  · by_cases hlt : name < other
    · exact add_add_of_lt hlt n m census
    · have hgt : other < name := Std.lt_of_le_of_ne (String.not_lt.1 hlt) (Ne.symm heq)
      exact (add_add_of_lt hgt m n census).symm

/-- What is added before a merge is added behind it as well. -/
theorem merge_add_left (name : String) (n : Nat) (first second : Census) :
    (first.add name n).merge second = (first.merge second).add name n := by
  induction second generalizing first with
  | nil => rfl
  | cons entry second ih =>
    obtain ⟨other, m⟩ := entry
    show ((first.add name n).add other m).merge second =
      ((first.add other m).merge second).add name n
    rw [add_add_comm, ih]

/-- What is added to the second of two censuses is added to their merge. -/
theorem merge_add_right (name : String) (n : Nat) (first second : Census) :
    first.merge (second.add name n) = (first.merge second).add name n := by
  induction second generalizing first with
  | nil => rfl
  | cons entry second ih =>
    obtain ⟨other, m⟩ := entry
    by_cases heq : name = other
    · subst heq
      rw [add, if_pos rfl]
      show (first.add name (m + n)).merge second = ((first.add name m).merge second).add name n
      rw [← merge_add_left, add_add_same]
    · by_cases hlt : name < other
      · rw [add, if_neg heq, if_pos hlt]
        show ((first.add name n).add other m).merge second =
          ((first.add other m).merge second).add name n
        rw [← merge_add_left, add_add_comm]
      · rw [add, if_neg heq, if_neg hlt]
        exact ih (first.add other m)

end Census

variable {α : Type}

/-- Taking down a name behind a merge is taking it down in the second tally. -/
theorem Tally.named_merge (name : String) (first second : Tally) :
    (first.merge second).named name = first.merge (second.named name) := by
  simp only [Tally.named, Tally.merge, Census.merge_add_right]

/-- Counting an element behind a merge is counting it in the second tally. -/
theorem Station.count_merge (station : Station α) (first second : Tally) :
    count (first.merge second) station = first.merge (count second station) := by
  obtain ⟨kind, attributes, around⟩ := station
  simp only [count, Tally.named_merge]
  cases kind with
  | container kind => rfl
  | shape kind =>
    by_cases hinside : around.box.isSome = true
    · rw [if_pos hinside, if_pos hinside]
      rfl
    · rw [if_neg hinside, if_neg hinside]
      rfl
  | unrecognized => rfl

/-- Elements are counted on top of a tally as they are counted on their own. -/
theorem Station.foldl_count_merge (stations : List (Station α)) (first second : Tally) :
    stations.foldl count (first.merge second) = first.merge (stations.foldl count second) := by
  induction stations generalizing second with
  | nil => rfl
  | cons station stations ih =>
    rw [List.foldl_cons, List.foldl_cons, Station.count_merge]
    exact ih _

@[simp] theorem Tally.merge_empty (tally : Tally) : tally.merge {} = tally := by
  simp only [merge, PenCounts.add_zero, Nat.add_zero]
  rfl

end PenPlot
