import PenPlot.Plot.Tracker

/-!
# What a tracker remembers

From request to request a tracker remembers its view box, whether the last point lay inside, and its
counts. The counts never show in the answers. Whether the last point lay inside shows in the answer to
a stroke only, so commands that begin with a move are answered as a new tracker with that view box
answers them.
-/

namespace PenPlot

variable {α σ : Type}

/-- The commands begin with a move, if there are any. -/
def LedByMove (commands : List (PenCommand α)) : Prop :=
  ∀ command ∈ commands.head?, command.isDraw = false

namespace PenCounts

theorem add_def (first second : PenCounts) :
    first + second =
      ⟨first.moves + second.moves, first.draws + second.draws,
        first.suppressed + second.suppressed⟩ := rfl

@[simp] theorem zero_add (counts : PenCounts) : ({} : PenCounts) + counts = counts := by
  simp [add_def]

@[simp] theorem add_zero (counts : PenCounts) : counts + ({} : PenCounts) = counts := by
  simp [add_def]

theorem add_assoc (first second third : PenCounts) :
    first + second + third = first + (second + third) := by
  simp [add_def, Nat.add_assoc]

theorem total_append (first second : List PenCounts) :
    total (first ++ second) = total first + total second := by
  induction first with
  | nil => exact (zero_add _).symm
  | cons counts first ih => rw [List.cons_append, total, total, ih, add_assoc]

/-- One more command is counted the same before and behind earlier counts. -/
theorem add_add (earlier counts : PenCounts) (sent : Option (PenCommand α)) :
    (earlier + counts).add sent = earlier + counts.add sent := by
  rcases sent with _ | command | command <;> simp [add, add_def, Nat.add_assoc]

end PenCounts

variable [Scalar α]

namespace Tracker

/-- What is received through a tracker is asked for in order, and the sink receives the answers. -/
theorem receiveAll_filter (sink : Sink α σ) (tracker : Tracker α) (state : σ)
    (commands : List (PenCommand α)) :
    (filter sink).receiveAll (tracker, state) commands =
      ((tracker.run (commands.map .pen)).2,
        sink.receiveAll state (tracker.run (commands.map .pen)).1) := by
  induction commands generalizing tracker state with
  | nil => rfl
  | cons command commands ih =>
    have hreceive : (filter sink).receive (tracker, state) command =
        (tracker.asked command, sink.receiveAll state (tracker.answer? command).toList) := by
      cases command <;> rfl
    rw [Sink.receiveAll_cons, hreceive, ih, List.map_cons, run, Sink.receiveAll_append]

/-- A run neither reads the counts nor keeps them from growing by what they grow by anyway. -/
theorem run_earlier (earlier : PenCounts) (tracker : Tracker α) (requests : List (Request α)) :
    ({ tracker with counts := earlier + tracker.counts } : Tracker α).run requests =
      ((tracker.run requests).1,
        { (tracker.run requests).2 with counts := earlier + (tracker.run requests).2.counts }) := by
  induction requests generalizing tracker with
  | nil => rfl
  | cons request requests ih =>
    cases request with
    | viewBox box =>
      have hset : ({ tracker with counts := earlier + tracker.counts } : Tracker α).setBox box =
          { tracker.setBox box with counts := earlier + (tracker.setBox box).counts } := rfl
      rw [run, run, hset, ih]
    | pen command =>
      have hasked : ({ tracker with counts := earlier + tracker.counts } : Tracker α).asked command =
          { tracker.asked command with counts := earlier + (tracker.asked command).counts } := by
        simp only [asked, PenCounts.add_add]
        rfl
      have hanswer : ({ tracker with counts := earlier + tracker.counts } : Tracker α).answer? command
          = tracker.answer? command := rfl
      rw [run, run, hasked, hanswer, ih]

/-- Only requests for view boxes change the view box. -/
theorem box_run (tracker : Tracker α) (commands : List (PenCommand α)) :
    (tracker.run (commands.map .pen)).2.box = tracker.box := by
  induction commands generalizing tracker with
  | nil => rfl
  | cons command commands ih => exact ih (tracker.asked command)

/-- A move is answered the same whether or not the point before lay inside, and it is itself the point
before from then on. -/
theorem run_inside (tracker : Tracker α) (inside : Bool) {commands : List (PenCommand α)}
    (h : LedByMove commands) (hne : commands ≠ []) :
    ({ tracker with inside := inside } : Tracker α).run (commands.map .pen) =
      tracker.run (commands.map .pen) := by
  cases commands with
  | nil => exact absurd rfl hne
  | cons command commands =>
    have hmove : command.isDraw = false := h command rfl
    have hanswer : ({ tracker with inside := inside } : Tracker α).answer? command =
        tracker.answer? command := by
      simp only [answer?, hmove, Bool.false_and]
    have hasked : ({ tracker with inside := inside } : Tracker α).asked command =
        tracker.asked command := by
      simp only [asked, hanswer]
    rw [List.map_cons, run, run, hasked, hanswer]

/-- Commands that begin with a move are answered as a new tracker answers them, and counted on top of
what was counted before. -/
theorem run_of_ledByMove (tracker : Tracker α) {commands : List (PenCommand α)}
    (h : LedByMove commands) :
    (tracker.run (commands.map .pen)).1 = ((ofBox tracker.box).run (commands.map .pen)).1 ∧
      (tracker.run (commands.map .pen)).2.counts =
        tracker.counts + ((ofBox tracker.box).run (commands.map .pen)).2.counts := by
  by_cases hne : commands = []
  · subst hne
    exact ⟨rfl, (PenCounts.add_zero _).symm⟩
  · have hnew : ({ ofBox tracker.box with
          inside := tracker.inside, counts := tracker.counts + (ofBox tracker.box).counts } :
          Tracker α) = tracker := by
      have hcounts : tracker.counts + (ofBox tracker.box).counts = tracker.counts :=
        PenCounts.add_zero _
      rw [hcounts]
      rfl
    have hearlier := run_earlier tracker.counts
      { ofBox tracker.box with inside := tracker.inside } (commands.map .pen)
    rw [run_inside _ _ h hne] at hearlier
    rw [hnew] at hearlier
    rw [hearlier]
    exact ⟨rfl, rfl⟩

end Tracker

end PenPlot
