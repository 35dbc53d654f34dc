import Mathlib.Data.List.Forall2
import PenPlot.Proofs.Tracking
import PenPlot.Scalar.Machine

/-!
# What is sent of what is asked for

Whether the point of a request lies inside is judged by the view box in force at that moment, and the
box may change between requests. Of the requests, with this judgement made for each, a tracker answers
just those inside, one command for each, and it answers with a stroke where a stroke is asked for and
the request before was inside as well. Nothing else is remembered, and this is enough for the pen: it
then stands where the request before wanted it, so the strokes that are made are the strokes that were
asked for with both ends inside.
-/

namespace PenPlot

variable {α β : Type}

/-- The items of a list, each with the one before it. Before the first comes `previous`. -/
def withPrevious (previous : Option β) : List β → List (Option β × β)
  | [] => []
  | item :: items => (previous, item) :: withPrevious (some item) items

/-! ## Requests and answers -/

/-- A request for a command. -/
structure Asked (α : Type) where
  /-- The command that is asked for. -/
  command : PenCommand α
  /-- Its point lies inside the view box that is in force when it is asked for. -/
  inside : Bool

/-- The requests for commands among requests, where a view box is in force at first. -/
def judge [Scalar α] (box : ViewBox α) : List (Request α) → List (Asked α)
  | [] => []
  | .viewBox other :: requests => judge other requests
  | .pen command :: requests => ⟨command, box.contains command.point⟩ :: judge box requests

/-- The command answers a request inside, which comes behind another request if it is not the first. -/
structure Answers (asked : Option (Asked α) × Asked α) (sent : PenCommand α) : Prop where
  /-- It goes to the point of the request. -/
  point : sent.point = asked.2.command.point
  /-- It is a stroke just if a stroke is asked for and no request outside comes before. -/
  isDraw : sent.isDraw = true ↔
    asked.2.command.isDraw = true ∧ ∀ before ∈ asked.1, before.inside = true

/-- Every request inside is answered, in order, and no other is. -/
def AnsweredBy (previous : Option (Asked α)) (asked : List (Asked α))
    (sent : List (PenCommand α)) : Prop :=
  List.Forall₂ Answers ((withPrevious previous asked).filter fun entry => entry.2.inside) sent

/-- The strokes that commands make: from the point of the command before, if there is one, to the
point of the stroke. -/
def strokes (previous : Option (PenCommand α)) (commands : List (PenCommand α)) :
    List (Option (CanvasPoint α) × CanvasPoint α) :=
  ((withPrevious previous commands).filter fun entry => entry.2.isDraw).map fun entry =>
    (entry.1.map PenCommand.point, entry.2.point)

/-- The strokes that are asked for with both ends inside. -/
def visibleStrokes (previous : Option (Asked α)) (asked : List (Asked α)) :
    List (Option (CanvasPoint α) × CanvasPoint α) :=
  ((withPrevious previous asked).filter fun entry =>
    entry.2.command.isDraw && entry.2.inside && entry.1.any Asked.inside).map fun entry =>
      (entry.1.map fun before => before.command.point, entry.2.command.point)

theorem strokes_cons (previous : Option (PenCommand α)) (command : PenCommand α)
    (commands : List (PenCommand α)) :
    strokes previous (command :: commands) =
      (if command.isDraw then [(previous.map PenCommand.point, command.point)] else []) ++
        strokes (some command) commands := by
  by_cases h : command.isDraw = true <;> simp [strokes, withPrevious, h]

theorem visibleStrokes_cons (previous : Option (Asked α)) (ask : Asked α)
    (asked : List (Asked α)) :
    visibleStrokes previous (ask :: asked) =
      (if ask.command.isDraw && ask.inside && previous.any Asked.inside then
        [(previous.map fun before => before.command.point, ask.command.point)] else []) ++
          visibleStrokes (some ask) asked := by
  by_cases h : (ask.command.isDraw && ask.inside && previous.any Asked.inside) = true <;>
    simp only [visibleStrokes, withPrevious, List.filter_cons, h] <;> rfl

namespace AnsweredBy

variable {previous : Option (Asked α)} {ask : Asked α} {asked : List (Asked α)}
  {command : PenCommand α} {sent : List (PenCommand α)}

theorem nil (previous : Option (Asked α)) : AnsweredBy previous [] [] := List.Forall₂.nil

theorem cons_of_inside (hinside : ask.inside = true) (hanswer : Answers (previous, ask) command)
    (hlater : AnsweredBy (some ask) asked sent) :
    AnsweredBy previous (ask :: asked) (command :: sent) := by
  simp only [AnsweredBy, withPrevious, List.filter_cons, hinside, if_true]
  exact List.Forall₂.cons hanswer hlater

theorem cons_of_outside_iff (hinside : ask.inside = false) :
    AnsweredBy previous (ask :: asked) sent ↔ AnsweredBy (some ask) asked sent := by
  simp only [AnsweredBy, withPrevious, List.filter_cons, hinside, Bool.false_eq_true, if_false]

theorem exists_of_inside (hinside : ask.inside = true)
    (h : AnsweredBy previous (ask :: asked) sent) :
    ∃ command later, sent = command :: later ∧ Answers (previous, ask) command ∧
      AnsweredBy (some ask) asked later := by
  simp only [AnsweredBy, withPrevious, List.filter_cons, hinside, if_true] at h
  cases h with
  | cons hanswer hlater => exact ⟨_, _, rfl, hanswer, hlater⟩

/-- The strokes that the answers make are those asked for with both ends inside, if the pen stands at
the point of the request before whenever that was inside, and the first of all requests is a move. -/
theorem strokes_eq {last : Option (PenCommand α)} (h : AnsweredBy previous asked sent)
    (hlast : ∀ before ∈ previous, before.inside = true →
      last.map PenCommand.point = some before.command.point)
    (hfirst : previous = none → LedByMove (asked.map Asked.command)) :
    strokes last sent = visibleStrokes previous asked := by
  induction asked generalizing previous last sent with
  | nil =>
    cases h
    rfl
  | cons ask asked ih =>
    rw [visibleStrokes_cons]
    cases hinside : ask.inside with
    | false =>
      -- Nothing is sent, and no later stroke starts at this point.
      have hlater := (cons_of_outside_iff hinside).1 h
      have hrest : strokes last sent = visibleStrokes (some ask) asked :=
        ih hlater (by simp [hinside]) (by simp)
      rw [hrest, Bool.and_false, Bool.false_and]
      rfl
    | true =>
      obtain ⟨command, later, rfl, hanswer, hlater⟩ := exists_of_inside hinside h
      have hpoint : (some command).map PenCommand.point = some ask.command.point :=
        congrArg some hanswer.point
      have hrest : strokes (some command) later = visibleStrokes (some ask) asked :=
        ih hlater (by simp [hpoint]) (by simp)
      have hiff := hanswer.isDraw
      rw [strokes_cons, hrest, Bool.and_true]
      congr 1
      cases previous with
      | none =>
        have hmove : ask.command.isDraw = false := hfirst rfl ask.command rfl
        have hsent : command.isDraw = false := by simpa [hmove] using hiff
        rw [hsent, hmove]
        rfl
      | some before =>
        have hsent : command.isDraw = (ask.command.isDraw && before.inside) := by
          rw [Bool.eq_iff_iff, hiff]
          simp
        rw [hsent, Option.any_some]
        split
        · next hdraw =>
          rw [Bool.and_eq_true] at hdraw
          rw [hlast before rfl hdraw.2, hanswer.point]
          rfl
        · rfl

end AnsweredBy

/-! ## Counts -/

/-- The counts are those of so many requests, for which these commands were sent. -/
structure PenCounts.CountsOf (counts : PenCounts) (asked : Nat) (sent : List (PenCommand α)) :
    Prop where
  /-- Every request is counted once. -/
  asked : counts.moves + counts.draws + counts.suppressed = asked
  /-- The moves that were sent are counted. -/
  moves : counts.moves = sent.countP fun command => !command.isDraw
  /-- The strokes that were sent are counted. -/
  draws : counts.draws = sent.countP PenCommand.isDraw

namespace PenCounts.CountsOf

variable {counts counts₁ counts₂ : PenCounts} {n n₁ n₂ : Nat}
  {sent sent₁ sent₂ : List (PenCommand α)}

theorem zero : CountsOf {} 0 ([] : List (PenCommand α)) := ⟨rfl, rfl, rfl⟩

theorem add (h₁ : CountsOf counts₁ n₁ sent₁) (h₂ : CountsOf counts₂ n₂ sent₂) :
    CountsOf (counts₁ + counts₂) (n₁ + n₂) (sent₁ ++ sent₂) := by
  obtain ⟨hasked₁, hmoves₁, hdraws₁⟩ := h₁
  obtain ⟨hasked₂, hmoves₂, hdraws₂⟩ := h₂
  rw [PenCounts.add_def]
  refine ⟨?_, ?_, ?_⟩
  · show counts₁.moves + counts₂.moves + (counts₁.draws + counts₂.draws) +
      (counts₁.suppressed + counts₂.suppressed) = n₁ + n₂
    omega
  · rw [List.countP_append, ← hmoves₁, ← hmoves₂]
  · rw [List.countP_append, ← hdraws₁, ← hdraws₂]

/-- One more request is counted by its answer. -/
theorem answered (h : CountsOf counts n sent) (answer? : Option (PenCommand α)) :
    CountsOf (counts.add answer?) (n + 1) (sent ++ answer?.toList) := by
  obtain ⟨hasked, hmoves, hdraws⟩ := h
  rcases answer? with _ | place | place
  · refine ⟨?_, by simpa [PenCounts.add] using hmoves, by simpa [PenCounts.add] using hdraws⟩
    show counts.moves + counts.draws + (counts.suppressed + 1) = n + 1
    omega
  · refine ⟨?_, by simp [PenCounts.add, hmoves, PenCommand.isDraw],
      by simp [PenCounts.add, hdraws, PenCommand.isDraw]⟩
    show counts.moves + 1 + counts.draws + counts.suppressed = n + 1
    omega
  · refine ⟨?_, by simp [PenCounts.add, hmoves, PenCommand.isDraw],
      by simp [PenCounts.add, hdraws, PenCommand.isDraw]⟩
    show counts.moves + (counts.draws + 1) + counts.suppressed = n + 1
    omega

end PenCounts.CountsOf

/-! ## Runs of a tracker -/

variable [Scalar α]

namespace Tracker

/-- The tracker knows whether the request before was inside, and takes it as inside if there is
none. -/
def Recalls (tracker : Tracker α) (previous : Option (Asked α)) : Prop :=
  tracker.inside = previous.all Asked.inside

theorem answer?_of_outside {tracker : Tracker α} {command : PenCommand α}
    (h : tracker.box.contains command.point = false) : tracker.answer? command = none := by
  simp [answer?, h]

/-- A request inside is answered. -/
theorem exists_answer? {tracker : Tracker α} {previous : Option (Asked α)}
    {command : PenCommand α} (hrecalls : tracker.Recalls previous)
    (h : tracker.box.contains command.point = true) :
    ∃ sent, tracker.answer? command = some sent ∧ Answers (previous, ⟨command, true⟩) sent := by
  have hbefore : tracker.inside = true ↔ ∀ before ∈ previous, before.inside = true := by
    rw [hrecalls]
    cases previous <;> simp
  by_cases hdraw : (command.isDraw && tracker.inside) = true
  · refine ⟨.draw command.point, by simp only [answer?, h, hdraw, if_true], rfl, ?_⟩
    rw [Bool.and_eq_true, hbefore] at hdraw
    exact iff_of_true rfl hdraw
  · refine ⟨.move command.point, by simp only [answer?, h, hdraw, if_true]; simp, rfl, ?_⟩
    rw [Bool.and_eq_true, hbefore] at hdraw
    exact iff_of_false (by simp [PenCommand.isDraw]) hdraw

/-- A run answers every request inside, and no other. -/
theorem answeredBy_run (tracker : Tracker α) {previous : Option (Asked α)}
    (h : tracker.Recalls previous) (requests : List (Request α)) :
    AnsweredBy previous (judge tracker.box requests) (tracker.run requests).1 := by
  induction requests generalizing tracker previous with
  | nil => exact .nil previous
  | cons request requests ih =>
    cases request with
    | viewBox box => exact ih (tracker.setBox box) h
    | pen command =>
      have hrecalls : (tracker.asked command).Recalls
          (some ⟨command, tracker.box.contains command.point⟩) := rfl
      have hlater := ih (tracker.asked command) hrecalls
      rw [judge, run]
      cases hinside : tracker.box.contains command.point with
      | false =>
        rw [hinside] at hlater
        rw [answer?_of_outside hinside]
        exact (AnsweredBy.cons_of_outside_iff rfl).2 hlater
      | true =>
        obtain ⟨sent, hsent, hanswer⟩ := exists_answer? h hinside
        rw [hinside] at hlater
        rw [hsent]
        exact .cons_of_inside rfl hanswer hlater

/-- Requests behind others are answered from where those leave the tracker. -/
theorem run_append (tracker : Tracker α) (first second : List (Request α)) :
    tracker.run (first ++ second) =
      ((tracker.run first).1 ++ ((tracker.run first).2.run second).1,
        ((tracker.run first).2.run second).2) := by
  induction first generalizing tracker with
  | nil => rfl
  | cons request first ih =>
    cases request with
    | viewBox box => exact ih (tracker.setBox box)
    | pen command => rw [List.cons_append, run, run, ih, List.append_assoc]

/-- A run counts every request and what is sent for it. -/
theorem countsOf_run (tracker : Tracker α) {n : Nat} {sent : List (PenCommand α)}
    (h : tracker.counts.CountsOf n sent) (requests : List (Request α)) :
    (tracker.run requests).2.counts.CountsOf (n + (judge tracker.box requests).length)
      (sent ++ (tracker.run requests).1) := by
  induction requests generalizing tracker n sent with
  | nil =>
    rw [run, List.append_nil]
    exact h
  | cons request requests ih =>
    cases request with
    | viewBox box => exact ih (tracker.setBox box) h
    | pen command =>
      have hlater := ih (tracker.asked command) (h.answered (tracker.answer? command))
      rw [List.append_assoc, Nat.add_right_comm] at hlater
      exact hlater

/-- A new tracker answers every request inside the view box in force, in order, and no other; it
answers with a stroke just where one is asked for and the request before was inside. So if a move is
asked for first, the strokes that are made are those asked for with both ends inside. At all times the
counts are those of the requests up to then and of the commands that were sent for them. -/
theorem run_ofBox (box : ViewBox α) (requests : List (Request α)) :
    AnsweredBy none (judge box requests) ((ofBox box).run requests).1 ∧
      (LedByMove ((judge box requests).map Asked.command) →
        strokes none ((ofBox box).run requests).1 = visibleStrokes none (judge box requests)) ∧
      ∀ earlier, earlier <+: requests →
        ((ofBox box).run earlier).1 <+: ((ofBox box).run requests).1 ∧
          ((ofBox box).run earlier).2.counts.CountsOf (judge box earlier).length
            ((ofBox box).run earlier).1 := by
  have hrecalls : (ofBox box).Recalls none := rfl
  have hanswered := answeredBy_run (ofBox box) hrecalls requests
  refine ⟨hanswered, ?_, ?_⟩
  · intro hfirst
    exact hanswered.strokes_eq (by simp) fun _ => hfirst
  · rintro earlier ⟨later, rfl⟩
    have hcounts := countsOf_run (ofBox box) .zero earlier
    rw [List.nil_append, Nat.zero_add] at hcounts
    refine ⟨?_, hcounts⟩
    rw [run_append]
    exact List.prefix_append _ _

/-- A stroke goes to a point that does not compare, and later the view box leaves the pen outside. -/
theorem run_ofBox_changing :
    let box : ViewBox Float := ⟨⟨0, 0⟩, ⟨4, 4⟩⟩
    let requests : List (Request Float) :=
      [.pen (.move ⟨1, 1⟩), .pen (.draw ⟨0 / 0, 1⟩), .pen (.draw ⟨2, 2⟩),
        .viewBox ⟨⟨5, 5⟩, ⟨9, 9⟩⟩, .pen (.draw ⟨6, 6⟩), .pen (.draw ⟨2, 2⟩), .pen (.draw ⟨7, 7⟩)]
    LedByMove ((judge box requests).map Asked.command) ∧
      requests.take 4 <+: requests ∧
      strokes none ((ofBox box).run requests).1 = visibleStrokes none (judge box requests) ∧
      ((ofBox box).run (requests.take 4)).2.counts.CountsOf (judge box (requests.take 4)).length
        ((ofBox box).run (requests.take 4)).1 ∧
      ((ofBox box).run requests).1 = [.move ⟨1, 1⟩, .move ⟨2, 2⟩, .draw ⟨6, 6⟩, .move ⟨7, 7⟩] ∧
      visibleStrokes none (judge box requests) = [(some ⟨2, 2⟩, ⟨6, 6⟩)] := by
  intro box requests
  have hfirst : LedByMove ((judge box requests).map Asked.command) := by
    intro command hcommand
    cases hcommand
    rfl
  have hearlier : requests.take 4 <+: requests := List.take_prefix 4 requests
  obtain ⟨-, hstrokes, hcounts⟩ := run_ofBox box requests
  refine ⟨hfirst, hearlier, hstrokes hfirst, (hcounts _ hearlier).2, ?_, ?_⟩
  all_goals decide +kernel

end Tracker

end PenPlot
