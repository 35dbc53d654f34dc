import Mathlib.Control.Monad.Basic
import PenPlot.Proofs.Walking
import PenPlot.Scalar.Machine

/-!
# What walks send

A walk that comes to the end of its document has sent the commands of every shape inside a drawing, as
they are when the shape is drawn alone, one shape behind the other. A walk that stops at a fault has
sent those of the shapes before the element at fault, and nothing of that element. Neither earlier
shapes nor earlier drawings show in what is sent for a shape.
-/

namespace PenPlot

variable {α σ : Type} [Scalar α] {sheet : Sheet α} {sink : Sink α σ} {receiver : σ}
  {document : List Char}

/-! ## What is known of a route -/

/-- The elements that are passed have no fault, and what ends the route is a fault of the element that
it names, or of the markup if it names none. -/
structure Route.Sound (sheet : Sheet α) (route : Route α) : Prop where
  /-- The elements that are passed have no fault. -/
  passed : ∀ station ∈ route.passed, ∃ inner?, (station.evaluate sheet).result = .ok inner?
  /-- An element at which the route ends is at fault. -/
  failed : ∀ station fault, route.stop = some ⟨some station, fault⟩ →
    (station.evaluate sheet).result = .error fault
  /-- Otherwise the markup is at fault. -/
  broken : ∀ fault, route.stop = some ⟨none, fault⟩ → ∃ flaw, fault = .markup flaw

namespace Route.Sound

variable {station : Station α} {first second route : Route α}

theorem push {inner? : Option (Surroundings α)} (hroute : route.Sound sheet)
    (hstation : (station.evaluate sheet).result = .ok inner?) :
    (route.push station).Sound sheet where
  passed := by
    intro other hother
    rcases List.mem_cons.1 hother with rfl | hother
    · exact ⟨inner?, hstation⟩
    · exact hroute.passed other hother
  failed := hroute.failed
  broken := hroute.broken

theorem append (hfirst : first.Sound sheet) (hsecond : second.Sound sheet) :
    (first.append second).Sound sheet := by
  cases hstop : first.stop with
  | some stop =>
    rw [append_of_stop hstop]
    exact hfirst
  | none =>
    rw [append_of_none hstop]
    refine ⟨?_, hsecond.failed, hsecond.broken⟩
    intro station hstation
    rcases List.mem_append.1 hstation with hstation | hstation
    · exact hfirst.passed station hstation
    · exact hsecond.passed station hstation

end Route.Sound

/-- Routes through markup are sound. -/
theorem Route.sound_ofMarkup (sheet : Sheet α) (around : Surroundings α) (markup : Markup) :
    (ofMarkup sheet around markup).Sound sheet := by
  fun_induction ofMarkup sheet around markup with
  | case1 around markup flaw h =>
    refine ⟨by simp, by simp, ?_⟩
    rintro fault hfault
    cases hfault
    exact ⟨flaw, rfl⟩
  | case2 around markup h => exact ⟨by simp, by simp, by simp⟩
  | case3 around markup element rest h _ station fault hfault =>
    refine ⟨by simp, ?_, by simp⟩
    rintro other fault' hother
    cases hother
    exact hfault
  | case4 around markup element rest h _ station hok ih => exact ih.push hok
  | case5 around markup element rest h _ station inner hok ihinner ihrest =>
    exact (ihinner.append ihrest).push hok

/-! ## What a walk through a document sends -/

/-- A walk through a document follows the route through it. -/
theorem walkThrough_follows (sheet : Sheet α) (sink : Sink α σ) (receiver : σ)
    (document : List Char) :
    (walkThrough sheet sink receiver document).1 =
        (match (Route.ofText sheet document).stop with
        | some stop => .error stop.fault
        | none => .ok (walkThrough sheet sink receiver document).2.total) ∧
      Progress.Advanced sheet.flattener sink (Route.ofText sheet document).shapes
        (Route.ofText sheet document).taken { receiver }
        (walkThrough sheet sink receiver document).2 := by
  obtain ⟨after, hrun, hadvanced, -⟩ := Walking.run_visitAll sheet sink .bare (.scan document)
    { receiver } (by simp [Progress.ClipsTo, Surroundings.bare])
  have hroot : (Scope.root : Scope α) = Surroundings.bare.scope := rfl
  have hroute : Route.ofMarkup sheet .bare (.scan document) = Route.ofText sheet document := rfl
  rw [hroute] at hrun hadvanced
  rw [walkThrough, hroot, hrun]
  cases hstop : (Route.ofText sheet document).stop with
  | some stop =>
    simp only [Route.finish, hstop, true_and]
    exact hadvanced
  | none =>
    simp only [Route.finish, hstop, true_and]
    exact hadvanced

/-- A walk counts what is counted for the elements on the route, whatever sink it has. -/
theorem total_walkThrough (sheet : Sheet α) (sink : Sink α σ) (receiver : σ)
    (document : List Char) :
    (walkThrough sheet sink receiver document).2.total =
      (Route.ofText sheet document).tally sheet.flattener := by
  obtain ⟨-, hadvanced⟩ := walkThrough_follows sheet sink receiver document
  rw [Progress.total, hadvanced.tally, hadvanced.penCounts]
  exact congrArg (Tally.mk _ _ _ _ · _) (PenCounts.zero_add _)

namespace Pass

/-- A pass sends what is sent for the shapes on the route, each drawn alone. -/
theorem commands_ofText (sheet : Sheet α) (document : List Char) :
    (ofText sheet document).commands =
      (Route.ofText sheet document).commands sheet.flattener := by
  obtain ⟨-, hadvanced⟩ := walkThrough_follows sheet .recording #[] document
  show (walkThrough sheet .recording #[] document).2.receiver.toList = _
  rw [hadvanced.receiver, Sink.receiveAll_recording]
  rfl

/-- A pass counts what is counted for the elements on the route. -/
theorem tally_ofText (sheet : Sheet α) (document : List Char) :
    (ofText sheet document).tally = (Route.ofText sheet document).tally sheet.flattener :=
  total_walkThrough sheet .recording #[] document

/-- A pass comes to the end of its document just if the route does. -/
theorem result_ofText (sheet : Sheet α) (document : List Char) :
    (ofText sheet document).result =
      match (Route.ofText sheet document).stop with
      | some stop => .error stop.fault
      | none => .ok ((Route.ofText sheet document).tally sheet.flattener) := by
  obtain ⟨hresult, -⟩ := walkThrough_follows sheet .recording #[] document
  have htally := tally_ofText sheet document
  cases hstop : (Route.ofText sheet document).stop with
  | some stop =>
    rw [hstop] at hresult
    simp only [result, ofText, hresult]
  | none =>
    rw [hstop] at hresult
    simp only [result, ofText, hresult] at htally ⊢
    rw [htally]

end Pass

/-- Of the elements without a fault, just the shapes inside a drawing are counted as shapes. -/
theorem Station.shapes_count {station : Station α} {inner? : Option (Surroundings α)}
    (h : (station.evaluate sheet).result = .ok inner?) (tally : Tally) :
    (Station.count tally station).shapes = tally.shapes + station.shape?.toList.length := by
  obtain ⟨kind, attributes, around⟩ := station
  cases kind with
  | container kind => rfl
  | unrecognized => rfl
  | shape kind =>
    cases hbox : around.box with
    | none => simp [count, shape?, hbox, Tally.oneOrphan, Tally.named]
    | some box =>
      simp only [evaluate, hbox, Option.isSome_some, if_true, Reading.result_bind_eq_ok] at h
      obtain ⟨own, hown, -⟩ := h
      simp [count, shape?, hbox, hown, Tally.oneShape, Tally.named]

/-- The shapes on a route are those that are counted. -/
theorem Route.Sound.shapes_count {route : Route α} (hroute : route.Sound sheet) (tally : Tally) :
    (route.passed.foldl Station.count tally).shapes = tally.shapes + route.shapes.length := by
  obtain ⟨passed, stop⟩ := route
  have hpassed := hroute.passed
  clear hroute
  show (passed.foldl Station.count tally).shapes = _ + (passed.filterMap Station.shape?).length
  induction passed generalizing tally with
  | nil => rfl
  | cons station passed ih =>
    obtain ⟨inner?, hstation⟩ := hpassed station (List.mem_cons_self ..)
    have hstep := Station.shapes_count hstation tally
    have hrest := ih (Station.count tally station) fun other hother =>
      hpassed other (List.mem_cons_of_mem _ hother)
    rw [List.foldl_cons, hrest, hstep]
    cases hshape : station.shape? with
    | none => simp [hshape]
    | some shape =>
      simp only [List.filterMap_cons, hshape, Option.toList_some, List.length_cons, List.length_nil]
      omega

/-- A walk that comes to the end of its document sends, shape by shape, what is sent for the shape if
it is drawn alone with a new tracker. -/
theorem commands_of_walkThrough_ok {tally : Tally}
    (h : (walkThrough sheet .recording #[] document).1 = .ok tally) :
    (walkThrough sheet .recording #[] document).2.receiver.toList =
        (Route.ofText sheet document).shapes.flatMap (PlacedShape.commands sheet.flattener) ∧
      (walkThrough sheet .recording #[] document).2.visits.toList =
        (Route.ofText sheet document).passed.map Station.visit ∧
      tally.shapes = (Route.ofText sheet document).shapes.length := by
  obtain ⟨hresult, hadvanced⟩ := walkThrough_follows sheet .recording #[] document
  rw [h] at hresult
  cases hstop : (Route.ofText sheet document).stop with
  | some stop =>
    rw [hstop] at hresult
    cases hresult
  | none =>
    rw [hstop] at hresult
    have htaken := Route.taken_of_none hstop
    refine ⟨?_, ?_, ?_⟩
    · rw [hadvanced.receiver, Sink.receiveAll_recording]
      rfl
    · rw [hadvanced.visits, htaken]
      rfl
    · have hshapes := (Route.sound_ofMarkup sheet .bare (.scan document)).shapes_count {}
      cases hresult
      show (walkThrough sheet .recording #[] document).2.tally.shapes = _
      rw [hadvanced.tally, htaken]
      exact hshapes.trans (Nat.zero_add _)

/-- A stroke ends outside the view box, and the drawing behind it draws as if it were the first. -/
theorem commands_of_walkThrough_ok_behind_outside :
    let sheet : Sheet Float := ⟨⟨10, 10⟩, ⟨2, false⟩⟩
    let document := ("<svg viewBox='0 0 10 10'><line x1='1' y1='2' x2='3' y2='40'/></svg>" ++
      "<svg viewBox='0 0 10 10'><line x1='1' y1='2' x2='3' y2='4'/></svg>").toList
    let tally : Tally :=
      { containers := 2, shapes := 2, pen := ⟨2, 1, 1⟩, byElement := [("line", 2), ("svg", 2)] }
    (walkThrough sheet .recording #[] document).1 = .ok tally ∧
      (walkThrough sheet .recording #[] document).2.receiver.toList =
        (Route.ofText sheet document).shapes.flatMap (PlacedShape.commands sheet.flattener) ∧
      (Route.ofText sheet document).shapes.flatMap (PlacedShape.commands sheet.flattener) =
        [.move ⟨1, 2⟩, .move ⟨1, 2⟩, .draw ⟨3, 4⟩] := by
  refine ⟨?hresult, (commands_of_walkThrough_ok ?hresult).1, ?_⟩ <;> decide +kernel

/-- A walk that stops at a fault has sent what is sent for the shapes before, each drawn alone, and
nothing of the element at fault. All elements before it are without a fault, so nothing of what is sent
for their shapes is missing. -/
theorem commands_of_walkThrough_error {fault : Fault α}
    (h : (walkThrough sheet sink receiver document).1 = .error fault) :
    ∃ failing : Option (Station α),
      (Route.ofText sheet document).stop = some ⟨failing, fault⟩ ∧
        (∀ station ∈ (Route.ofText sheet document).passed,
          ∃ inner?, (station.evaluate sheet).result = .ok inner?) ∧
        (∀ station ∈ failing, (station.evaluate sheet).result = .error fault) ∧
        (failing = none → ∃ flaw, fault = .markup flaw) ∧
        (walkThrough sheet sink receiver document).2.visits.toList =
          ((Route.ofText sheet document).passed ++ failing.toList).map Station.visit ∧
        (walkThrough sheet sink receiver document).2.receiver =
          sink.receiveAll receiver
            ((Route.ofText sheet document).shapes.flatMap
              (PlacedShape.commands sheet.flattener)) := by
  obtain ⟨hresult, hadvanced⟩ := walkThrough_follows sheet sink receiver document
  have hsound := Route.sound_ofMarkup sheet .bare (.scan document)
  rw [h] at hresult
  cases hstop : (Route.ofText sheet document).stop with
  | none =>
    rw [hstop] at hresult
    cases hresult
  | some stop =>
    obtain ⟨failing, fault'⟩ := stop
    rw [hstop] at hresult
    cases hresult
    refine ⟨failing, rfl, hsound.passed, ?_, ?_, ?_, hadvanced.receiver⟩
    · rintro station ⟨⟩
      exact hsound.failed station _ hstop
    · rintro rfl
      exact hsound.broken _ hstop
    · rw [hadvanced.visits, Route.taken, hstop]
      rfl

/-- Path data are at fault in their last instruction, and nothing of the path is sent. -/
theorem commands_of_walkThrough_error_in_last_instruction :
    let sheet : Sheet Float := ⟨⟨10, 10⟩, ⟨2, false⟩⟩
    let document := ("<svg viewBox='0 0 10 10'><line x1='1' y1='2' x2='3' y2='4'/>" ++
      "<path d='M1 1 L2 2 L3'/></svg>").toList
    let fault : Fault Float := .value ⟨"path", "d"⟩ (.path (.incompleteGroup 2 ['3']))
    (walkThrough sheet .recording #[] document).1 = .error fault ∧
      (walkThrough sheet .recording #[] document).2.receiver =
        Sink.recording.receiveAll #[]
          ((Route.ofText sheet document).shapes.flatMap
            (PlacedShape.commands sheet.flattener)) ∧
      (Route.ofText sheet document).shapes.flatMap (PlacedShape.commands sheet.flattener) =
        [.move ⟨1, 2⟩, .draw ⟨3, 4⟩] := by
  refine ⟨?hresult, Exists.elim (commands_of_walkThrough_error ?hresult) ?_, ?_⟩
  case hresult => decide +kernel
  · rintro failing ⟨-, -, -, -, -, hreceiver⟩
    exact hreceiver
  · decide +kernel

end PenPlot
