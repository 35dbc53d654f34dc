import PenPlot.Proofs.Drawing
import PenPlot.Proofs.Route

/-!
# Walks follow routes

A walk carries one tracker and one sink from element to element, and yet it does for every element what
the route says, as if the element were alone: it sends the commands of each shape drawn alone, counts
and visits the elements that the route takes, and stops where the route does. What has to be known of
the walk so far is only that inside a drawing the view box of the outermost drawing is in force.

`Progress.Advanced` says what a piece of a walk does. It composes, each step of a walk has it, and by
induction along the route every walk has it.
-/

namespace PenPlot

variable {α σ : Type} [Scalar α]

/-! ## What a piece of a walk does -/

/-- The view box, if one is given, is in force. -/
def Progress.ClipsTo (progress : Progress α σ) (box? : Option (ViewBox α)) : Prop :=
  ∀ box ∈ box?, ∃ tracker, progress.tracker = some tracker ∧ tracker.box = box

/-- Between two states of a walk, shapes were drawn, each as if it were alone, and elements were
taken. -/
structure Progress.Advanced (flattener : Flattener) (sink : Sink α σ)
    (shapes : List (PlacedShape α)) (taken : List (Station α))
    (before after : Progress α σ) : Prop where
  /-- The sink has received the commands of the shapes. -/
  receiver : after.receiver =
    sink.receiveAll before.receiver (shapes.flatMap (PlacedShape.commands flattener))
  /-- The tracker has counted what is counted for the shapes. -/
  penCounts : after.penCounts =
    before.penCounts + .total (shapes.map (PlacedShape.counts flattener))
  /-- The elements are counted. -/
  tally : after.tally = taken.foldl Station.count before.tally
  /-- The elements are visited. -/
  visits : after.visits.toList = before.visits.toList ++ taken.map Station.visit

namespace Progress.Advanced

variable {flattener : Flattener} {sink : Sink α σ} {shapes₁ shapes₂ : List (PlacedShape α)}
  {taken₁ taken₂ : List (Station α)} {before between after : Progress α σ}

theorem refl (before : Progress α σ) : Advanced flattener sink [] [] before before := by
  constructor <;> simp [PenCounts.total]

theorem trans (h₁ : Advanced flattener sink shapes₁ taken₁ before between)
    (h₂ : Advanced flattener sink shapes₂ taken₂ between after) :
    Advanced flattener sink (shapes₁ ++ shapes₂) (taken₁ ++ taken₂) before after where
  receiver := by rw [h₂.receiver, h₁.receiver, List.flatMap_append, Sink.receiveAll_append]
  penCounts := by
    rw [h₂.penCounts, h₁.penCounts, List.map_append, PenCounts.total_append, PenCounts.add_assoc]
  tally := by rw [h₂.tally, h₁.tally, List.foldl_append]
  visits := by rw [h₂.visits, h₁.visits, List.map_append, List.append_assoc]

end Progress.Advanced

/-- The progress with the warnings of a reading. -/
def Progress.heard {β : Type} (progress : Progress α σ) (reading : Reading α β) : Progress α σ :=
  { progress with
    warnings := progress.warnings ++ (reading.warnings.map Warning.length).toArray }

/-- How a walk along a route ends. -/
def Route.finish (route : Route α) (after : Progress α σ) :
    EStateM.Result (Fault α) (Progress α σ) Unit :=
  match route.stop with
  | some stop => .error stop.fault after
  | none => .ok () after

/-! ## Drawing a shape through the tracker of the walk -/

namespace PlacedShape

variable {flattener : Flattener} {commands : List (PenCommand α)}

/-- A shape drawn alone sends the answers of a new tracker to its commands. -/
theorem drawn_of_ok (shape : PlacedShape α)
    (h : (flattener.flattenShape shape.kind shape.attributes shape.transform).result =
      .ok commands) :
    shape.commands flattener = ((Tracker.ofBox shape.box).run (commands.map .pen)).1 ∧
      shape.counts flattener = ((Tracker.ofBox shape.box).run (commands.map .pen)).2.counts := by
  obtain ⟨pencil, hrun, hreceiver⟩ := Flattener.run_drawShape_of_ok h (Tracker.filter .recording)
    (Tracker.ofBox shape.box, (#[] : Array (PenCommand α)))
  rw [Tracker.receiveAll_filter] at hreceiver
  have hdrawn : shape.drawn flattener = pencil.receiver := by
    simp only [drawn]
    rw [hrun]
  rw [PlacedShape.commands, PlacedShape.counts, hdrawn, hreceiver]
  exact ⟨by rw [Sink.receiveAll_recording]; rfl, rfl⟩

end PlacedShape

/-- The view box around an element is the one around its content as well. -/
theorem Station.box_of_evaluate_eq_ok {sheet : Sheet α} {station : Station α}
    {inner : Surroundings α} (h : (station.evaluate sheet).result = .ok (some inner))
    {box : ViewBox α} (hbox : station.around.box = some box) : inner.box = some box := by
  obtain ⟨kind, attributes, around⟩ := station
  cases kind with
  | container kind =>
    simp only [evaluate, Reading.result_bind_eq_ok] at h
    obtain ⟨⟨own, box?⟩, -, h⟩ := h
    cases h
    show around.box.or box? = some box
    rw [hbox, Option.some_or]
  | shape kind =>
    replace hbox : around.box = some box := hbox
    simp only [evaluate, hbox, Option.isSome_some, if_true, Reading.result_bind_eq_ok] at h
    obtain ⟨own, -, commands, -, h⟩ := h
    cases h
  | unrecognized => cases h

/-- A shape is at fault only inside a drawing. -/
theorem Station.inside_of_evaluate_eq_error {sheet : Sheet α} {kind : ShapeKind}
    {attributes : List Char} {around : Surroundings α} {fault : Fault α}
    (h : ((Station.mk (.shape kind) attributes around).evaluate sheet).result = .error fault) :
    ∃ box, around.box = some box := by
  cases hbox : around.box with
  | none =>
    simp only [evaluate, hbox, Option.isSome_none, Bool.false_eq_true, if_false] at h
    cases h
  | some box => exact ⟨box, rfl⟩

/-! ## One visit -/

namespace Walking

variable {sheet : Sheet α} {sink : Sink α σ} {before : Progress α σ}

omit [Scalar α] in
theorem run_note (visit : Visit) (before : Progress α σ) :
    (note visit).run before = .ok () (before.noted visit) := rfl

omit [Scalar α] in
theorem run_count (more : Tally → Tally) (before : Progress α σ) :
    (count more).run before = .ok () { before with tally := more before.tally } := rfl

omit [Scalar α] in
theorem run_read_of_ok {β : Type} {reading : Reading α β} {value : β}
    (h : reading.result = .ok value) (before : Progress α σ) :
    (read reading).run before = .ok value (before.heard reading) := by
  simp only [read, EStateM.run_bind, h]
  rfl

omit [Scalar α] in
theorem run_read_of_error {β : Type} {reading : Reading α β} {fault : Fault α}
    (h : reading.result = .error fault) (before : Progress α σ) :
    (read reading).run before = .error fault (before.heard reading) := by
  simp only [read, EStateM.run_bind, h]
  rfl

/-- A container puts a view box in force just if it is a drawing and no drawing is around it. -/
theorem isSome_box_of_containerTransform {scope : Scope α} {kind : ContainerKind}
    {attributes : List Char} {own : Affine α} {box? : Option (ViewBox α)}
    (h : (sheet.containerTransform scope kind attributes).result = .ok (own, box?)) :
    box?.isSome = (!scope.inside && kind == .svg) := by
  cases kind with
  | group =>
    obtain ⟨own, -, h⟩ := Reading.result_bind_eq_ok.1 h
    cases h
    simp
  | svg =>
    by_cases hinside : scope.inside = true
    · simp only [Sheet.containerTransform, hinside, if_true, Reading.result_bind_eq_ok] at h
      obtain ⟨x, -, y, -, h⟩ := h
      cases h
      simp [hinside]
    · simp only [Sheet.containerTransform, hinside, Bool.false_eq_true, if_false,
        Reading.result_bind_eq_ok] at h
      obtain ⟨window, -, h⟩ := h
      cases h
      simp [hinside]

/-- The scope of a container's content tells what stands around the content. -/
theorem scope_enter {around : Surroundings α} {kind : ContainerKind} {attributes : List Char}
    {own : Affine α} {box? : Option (ViewBox α)}
    (h : (sheet.containerTransform around.scope kind attributes).result = .ok (own, box?)) :
    around.scope.enter kind own = (around.enter own box?).scope := by
  have hbox := isSome_box_of_containerTransform h
  have hinside : (around.box.isSome || kind == .svg) = (around.box.or box?).isSome := by
    rw [Option.isSome_or, hbox]
    cases hsome : around.box.isSome <;> simp [hsome]
  simp only [Scope.enter, Surroundings.scope, Surroundings.enter, hinside]

/-- Entering a container sends nothing, and puts in force what is in force inside. -/
theorem run_enter_of_ok {around : Surroundings α} {kind : ContainerKind} {attributes : List Char}
    {own : Affine α} {box? : Option (ViewBox α)}
    (h : (sheet.containerTransform around.scope kind attributes).result = .ok (own, box?))
    (hclips : before.ClipsTo around.box) :
    ∃ after, (enter sheet around.scope kind attributes).run before =
        .ok (around.enter own box?).scope after ∧
      after.receiver = before.receiver ∧
      after.penCounts = before.penCounts ∧
      after.tally = before.tally.oneContainer ∧
      after.visits = before.visits ∧
      after.ClipsTo (around.enter own box?).box := by
  have hbox := isSome_box_of_containerTransform h
  simp only [enter, EStateM.run_bind, run_count, run_read_of_ok h]
  rw [scope_enter h]
  cases box? with
  | none =>
    refine ⟨_, rfl, rfl, rfl, rfl, rfl, ?_⟩
    show before.ClipsTo (around.box.or none)
    rw [Option.or_none]
    exact hclips
  | some box =>
    -- The box is put in force only where none is in force yet.
    have hnone : around.box = none := by
      cases hother : around.box with
      | none => rfl
      | some other => simp [hother] at hbox
    refine ⟨_, rfl, rfl, ?_, rfl, rfl, ?_⟩
    · cases htracker : before.tracker <;>
        simp [Progress.penCounts, Progress.heard, Tracker.setBox, Tracker.ofBox, htracker]
    · intro other hother
      simp only [Surroundings.enter, hnone, Option.none_or, Option.mem_def,
        Option.some.injEq] at hother
      exact ⟨_, rfl, hother⟩

/-- A container with a fault leaves tracker and sink as they are. -/
theorem run_enter_of_error {scope : Scope α} {kind : ContainerKind} {attributes : List Char}
    {fault : Fault α} (h : (sheet.containerTransform scope kind attributes).result = .error fault)
    (before : Progress α σ) :
    ∃ warnings, (enter sheet scope kind attributes).run before =
      .error fault { before with tally := before.tally.oneContainer, warnings := warnings } := by
  refine ⟨(before.heard (sheet.containerTransform scope kind attributes)).warnings, ?_⟩
  simp only [enter, EStateM.run_bind, run_count, run_read_of_error h]
  rfl

/-- What a shape draws is asked of the tracker, and the sink receives the answers. -/
theorem run_draw_of_ok {flattener : Flattener} {kind : ShapeKind} {attributes : List Char}
    {transform : Affine α} {commands : List (PenCommand α)}
    (h : (flattener.flattenShape kind attributes transform).result = .ok commands)
    (sink : Sink α σ) (tracker : Tracker α) (before : Progress α σ) :
    ∃ warnings, (draw tracker
        (flattener.drawShape (Tracker.filter sink) kind attributes transform)).run before =
      .ok ()
        { before with
          tracker := some (tracker.run (commands.map .pen)).2
          receiver := sink.receiveAll before.receiver (tracker.run (commands.map .pen)).1
          warnings := warnings } := by
  obtain ⟨pencil, hrun, hreceiver⟩ :=
    Flattener.run_drawShape_of_ok h (Tracker.filter sink) (tracker, before.receiver)
  rw [Tracker.receiveAll_filter] at hreceiver
  refine ⟨before.warnings ++ (pencil.warnings.map Warning.length).toArray, ?_⟩
  simp only [draw, EStateM.run] at hrun ⊢
  rw [hrun]
  simp only [hreceiver]

/-- A shape with a fault leaves tracker and sink as they are. -/
theorem run_draw_of_error {flattener : Flattener} {kind : ShapeKind} {attributes : List Char}
    {transform : Affine α} {fault : Fault α}
    (h : (flattener.flattenShape kind attributes transform).result = .error fault)
    (sink : Sink α σ) (tracker : Tracker α) (before : Progress α σ) :
    ∃ warnings, (draw tracker
        (flattener.drawShape (Tracker.filter sink) kind attributes transform)).run before =
      .error fault { before with tracker := some tracker, warnings := warnings } := by
  obtain ⟨pencil, hrun, hreceiver⟩ :=
    Flattener.run_drawShape_of_error h (Tracker.filter sink) (tracker, before.receiver)
  refine ⟨before.warnings ++ (pencil.warnings.map Warning.length).toArray, ?_⟩
  simp only [draw, EStateM.run] at hrun ⊢
  rw [hrun]
  simp only [hreceiver]

/-- A shape inside a drawing is read, and drawn through the tracker. -/
theorem run_shape_of_ok {around : Surroundings α} {kind : ShapeKind} {attributes : List Char}
    {box : ViewBox α} {tracker : Tracker α} {own : Affine α} {commands : List (PenCommand α)}
    (hbox : around.box = some box) (htracker : before.tracker = some tracker)
    (hown : (ownTransform kind.name attributes).result = .ok own)
    (h : (sheet.flattener.flattenShape kind attributes (around.transform.comp own)).result =
      .ok commands)
    (sink : Sink α σ) :
    ∃ warnings, (shape sheet sink around.scope kind attributes).run before =
      .ok ()
        { before with
          tracker := some (tracker.run (commands.map .pen)).2
          receiver := sink.receiveAll before.receiver (tracker.run (commands.map .pen)).1
          tally := before.tally.oneShape
          warnings := warnings } := by
  have hinside : around.scope.inside = true := by simp [hbox]
  obtain ⟨warnings, hdraw⟩ := run_draw_of_ok h sink tracker
    (Progress.heard { before with tally := before.tally.oneShape }
      (ownTransform kind.name attributes))
  refine ⟨warnings, ?_⟩
  simp only [shape, EStateM.run_bind, EStateM.run_get, htracker, hinside, run_count,
    run_read_of_ok hown]
  simp only [htracker] at hdraw ⊢
  exact hdraw

/-- A shape inside a drawing that is at fault leaves tracker and sink as they are. -/
theorem run_shape_of_error {around : Surroundings α} {kind : ShapeKind} {attributes : List Char}
    {fault : Fault α} (hclips : before.ClipsTo around.box)
    (h : ((Station.mk (.shape kind) attributes around).evaluate sheet).result = .error fault)
    (sink : Sink α σ) :
    ∃ warnings, (shape sheet sink around.scope kind attributes).run before =
      .error fault { before with tally := before.tally.oneShape, warnings := warnings } := by
  obtain ⟨box, hbox⟩ := Station.inside_of_evaluate_eq_error h
  obtain ⟨tracker, htracker, -⟩ := hclips box hbox
  have hinside : around.scope.inside = true := by simp [hbox]
  simp only [Station.evaluate, hbox, Option.isSome_some, if_true, Reading.result_bind_eq_error] at h
  simp only [shape, EStateM.run_bind, EStateM.run_get, htracker, hinside, run_count]
  rcases h with hown | ⟨own, hown, h | ⟨commands, -, h⟩⟩
  · simp only [run_read_of_error hown]
    exact ⟨_, rfl⟩
  · simp only [run_read_of_ok hown]
    obtain ⟨warnings, hdraw⟩ := run_draw_of_error h sink tracker
      (Progress.heard { before with tally := before.tally.oneShape }
        (ownTransform kind.name attributes))
    refine ⟨warnings, ?_⟩
    simp only [htracker] at hdraw ⊢
    exact hdraw
  · cases h

/-- A shape outside every drawing is skipped. -/
theorem run_shape_of_outside {around : Surroundings α} (hbox : around.box = none)
    (sheet : Sheet α) (sink : Sink α σ) (kind : ShapeKind) (attributes : List Char)
    (before : Progress α σ) :
    ∃ warnings, (shape sheet sink around.scope kind attributes).run before =
      .ok () { before with tally := before.tally.oneOrphan, warnings := warnings } := by
  have hinside : around.scope.inside = false := by simp [hbox]
  refine ⟨before.warnings ++ [Warning.orphan kind].toArray, ?_⟩
  simp only [shape, EStateM.run_bind, EStateM.run_get, hinside]
  obtain ⟨tracker, receiver, tally, visits, warnings⟩ := before
  cases tracker <;> rfl

/-- A container is visited by taking note of it and entering it. -/
theorem run_visit_container (sheet : Sheet α) (sink : Sink α σ) (around : Surroundings α)
    (kind : ContainerKind) (attributes : List Char) (before : Progress α σ) :
    (visit sheet sink around.scope (.container kind) attributes).run before =
      match (enter sheet around.scope kind attributes).run
        (before.noted (Station.mk (.container kind) attributes around).visit) with
      | .ok inner after => .ok (some inner) after
      | .error fault after => .error fault after := by
  cases hrun : (enter sheet around.scope kind attributes).run
    (before.noted (Station.mk (.container kind) attributes around).visit)
  all_goals
    simp only [Station.visit] at hrun
    simp only [visit, EStateM.run_bind, run_note, Surroundings.depth_scope, hrun, EStateM.run_pure]

/-- A shape is visited by taking note of it and drawing it. -/
theorem run_visit_shape (sheet : Sheet α) (sink : Sink α σ) (around : Surroundings α)
    (kind : ShapeKind) (attributes : List Char) (before : Progress α σ) :
    (visit sheet sink around.scope (.shape kind) attributes).run before =
      match (shape sheet sink around.scope kind attributes).run
        (before.noted (Station.mk (.shape kind) attributes around).visit) with
      | .ok _ after => .ok none after
      | .error fault after => .error fault after := by
  cases hrun : (shape sheet sink around.scope kind attributes).run
    (before.noted (Station.mk (.shape kind) attributes around).visit)
  all_goals
    simp only [Station.visit] at hrun
    simp only [visit, EStateM.run_bind, run_note, Surroundings.depth_scope, hrun, EStateM.run_pure]

/-- A shape without a fault is passed, and is drawn as if it were alone. -/
theorem run_visit_shape_of_ok {kind : ShapeKind} {attributes : List Char}
    {around : Surroundings α} {box : ViewBox α} {own : Affine α} {commands : List (PenCommand α)}
    (hbox : around.box = some box) (hown : (ownTransform kind.name attributes).result = .ok own)
    (h : (sheet.flattener.flattenShape kind attributes (around.transform.comp own)).result =
      .ok commands)
    (hclips : before.ClipsTo around.box) (sink : Sink α σ) :
    ∃ after,
      (visit sheet sink around.scope (.shape kind) attributes).run before = .ok none after ∧
        Progress.Advanced sheet.flattener sink
          [⟨kind, attributes, around.transform.comp own, box⟩]
          [⟨.shape kind, attributes, around⟩] before after ∧
        after.ClipsTo around.box := by
  obtain ⟨tracker, htracker, rfl⟩ := hclips box hbox
  obtain ⟨hsent, hcounts⟩ := tracker.run_of_ledByMove (Flattener.ledByMove_flattenShape h)
  obtain ⟨hcommands, hshape⟩ := PlacedShape.drawn_of_ok
    ⟨kind, attributes, around.transform.comp own, tracker.box⟩ h
  have hnoted : (before.noted (Station.mk (.shape kind) attributes around).visit).tracker =
      some tracker := htracker
  obtain ⟨warnings, hrun⟩ := run_shape_of_ok hbox hnoted hown h sink
  have hvisit := run_visit_shape sheet sink around kind attributes before
  rw [hrun] at hvisit
  refine ⟨_, hvisit, ⟨?_, ?_, ?_, ?_⟩, ?_⟩
  · show sink.receiveAll before.receiver _ = _
    rw [List.flatMap_singleton, hsent, hcommands]
  · have hbefore : before.penCounts = tracker.counts := by
      rw [Progress.penCounts, htracker]
    show (tracker.run (commands.map .pen)).2.counts = _
    rw [hcounts, hbefore, List.map_singleton, PenCounts.total, PenCounts.total, PenCounts.add_zero,
      hshape]
  · simp [Station.count, Progress.noted, Station.visit, hbox]
  · simp [Progress.noted]
  · intro box hforce
    rw [hbox] at hforce
    cases hforce
    exact ⟨_, rfl, Tracker.box_run tracker commands⟩

/-- An element without a fault is passed. -/
theorem run_visit_of_ok {station : Station α} {inner? : Option (Surroundings α)}
    (h : (station.evaluate sheet).result = .ok inner?) (hclips : before.ClipsTo station.around.box)
    (sink : Sink α σ) :
    ∃ after,
      (visit sheet sink station.around.scope station.kind station.attributes).run before =
          .ok (inner?.map Surroundings.scope) after ∧
        Progress.Advanced sheet.flattener sink station.shape?.toList [station] before after ∧
        after.ClipsTo (inner?.getD station.around).box := by
  obtain ⟨kind, attributes, around⟩ := station
  cases kind with
  | container kind =>
    simp only [Station.evaluate, Reading.result_bind_eq_ok] at h
    obtain ⟨⟨own, box?⟩, hresult, h⟩ := h
    cases h
    have hnoted : (before.noted (Station.mk (.container kind) attributes around).visit).ClipsTo
        around.box := hclips
    obtain ⟨after, hrun, hreceiver, hcounts, htally, hvisits, hclips⟩ :=
      run_enter_of_ok hresult hnoted
    have hvisit := run_visit_container sheet sink around kind attributes before
    rw [hrun] at hvisit
    refine ⟨after, hvisit, ⟨?_, ?_, ?_, ?_⟩, hclips⟩
    · exact hreceiver
    · exact hcounts.trans (PenCounts.add_zero _).symm
    · exact htally
    · simp [hvisits, Progress.noted]
  | shape kind =>
    cases hbox : around.box with
    | none =>
      simp only [Station.evaluate, hbox, Option.isSome_none, Bool.false_eq_true, if_false] at h
      cases h
      obtain ⟨warnings, hrun⟩ := run_shape_of_outside hbox sheet sink kind attributes
        (before.noted (Station.mk (.shape kind) attributes around).visit)
      have hvisit := run_visit_shape sheet sink around kind attributes before
      rw [hrun] at hvisit
      refine ⟨_, hvisit, ⟨?_, ?_, ?_, ?_⟩, hclips⟩
      · simp [Station.shape?, hbox, Progress.noted]
      · simp [Station.shape?, hbox, Progress.noted, Progress.penCounts, PenCounts.total]
      · simp [Station.count, Progress.noted, Station.visit, hbox, ElementKind.name]
      · simp [Progress.noted]
    | some box =>
      simp only [Station.evaluate, hbox, Option.isSome_some, if_true,
        Reading.result_bind_eq_ok] at h
      obtain ⟨own, hown, commands, hcommands, h⟩ := h
      cases h
      have hshape? : (Station.mk (.shape kind) attributes around).shape? =
          some ⟨kind, attributes, around.transform.comp own, box⟩ := by
        simp only [Station.shape?, hbox, hown]
      rw [hshape?]
      exact run_visit_shape_of_ok hbox hown hcommands hclips sink
  | unrecognized =>
    cases h
    refine ⟨_, rfl, ⟨rfl, ?_, rfl, ?_⟩, hclips⟩
    · exact (PenCounts.add_zero _).symm
    · simp [Progress.noted, Station.visit, Surroundings.scope]

/-- A walk stops at an element with a fault, and nothing is sent of it. -/
theorem run_visit_of_error {station : Station α} {fault : Fault α}
    (h : (station.evaluate sheet).result = .error fault)
    (hclips : before.ClipsTo station.around.box) (sink : Sink α σ) :
    ∃ after,
      (visit sheet sink station.around.scope station.kind station.attributes).run before =
          .error fault after ∧
        Progress.Advanced sheet.flattener sink [] [station] before after ∧
        after.ClipsTo station.around.box := by
  obtain ⟨kind, attributes, around⟩ := station
  cases kind with
  | container kind =>
    simp only [Station.evaluate, Reading.result_bind_eq_error] at h
    rcases h with h | ⟨found, -, h⟩
    · obtain ⟨warnings, hrun⟩ := run_enter_of_error h
        (before.noted (Station.mk (.container kind) attributes around).visit)
      have hvisit := run_visit_container sheet sink around kind attributes before
      rw [hrun] at hvisit
      refine ⟨_, hvisit, ⟨rfl, ?_, rfl, ?_⟩, hclips⟩
      · exact (PenCounts.add_zero _).symm
      · simp [Progress.noted]
    · cases h
  | shape kind =>
    have hnoted : (before.noted (Station.mk (.shape kind) attributes around).visit).ClipsTo
        around.box := hclips
    obtain ⟨box, hbox⟩ := Station.inside_of_evaluate_eq_error h
    obtain ⟨warnings, hrun⟩ := run_shape_of_error hnoted h sink
    have hvisit := run_visit_shape sheet sink around kind attributes before
    rw [hrun] at hvisit
    refine ⟨_, hvisit, ⟨rfl, ?_, ?_, ?_⟩, hclips⟩
    · exact (PenCounts.add_zero _).symm
    · simp [Station.count, Progress.noted, Station.visit, hbox]
    · simp [Progress.noted]
  | unrecognized => cases h

/-! ## Whole walks -/

section

variable {markup rest : Markup} {element : Element}

theorem visitAll_of_error {flaw : MarkupFlaw} (h : markup.take? = .error flaw) (sheet : Sheet α)
    (sink : Sink α σ) (scope : Scope α) :
    visitAll sheet sink scope markup = throw (.markup flaw) := by
  rw [visitAll]
  split <;> simp_all

theorem visitAll_of_none (h : markup.take? = .ok none) (sheet : Sheet α) (sink : Sink α σ)
    (scope : Scope α) : visitAll sheet sink scope markup = pure () := by
  rw [visitAll]
  split <;> simp_all

theorem visitAll_of_some (h : markup.take? = .ok (some (element, rest))) (sheet : Sheet α)
    (sink : Sink α σ) (scope : Scope α) :
    visitAll sheet sink scope markup = (do
      match ← visit sheet sink scope element.kind element.attributes with
      | some inner => visitAll sheet sink inner element.content
      | none => pure ()
      visitAll sheet sink scope rest) := by
  rw [visitAll]
  split
  · simp_all
  · simp_all
  · next other behind hother =>
    rw [h] at hother
    cases hother
    rfl

end

/-- A walk through markup follows the route through it. -/
theorem run_visitAll (sheet : Sheet α) (sink : Sink α σ) (around : Surroundings α)
    (markup : Markup) (before : Progress α σ) (hclips : before.ClipsTo around.box) :
    ∃ after,
      (visitAll sheet sink around.scope markup).run before =
          (Route.ofMarkup sheet around markup).finish after ∧
        Progress.Advanced sheet.flattener sink (Route.ofMarkup sheet around markup).shapes
          (Route.ofMarkup sheet around markup).taken before after ∧
        after.ClipsTo around.box := by
  fun_induction Route.ofMarkup sheet around markup generalizing before with
  | case1 around markup flaw h =>
    refine ⟨before, ?_, .refl before, hclips⟩
    rw [visitAll_of_error h]
    rfl
  | case2 around markup h =>
    refine ⟨before, ?_, .refl before, hclips⟩
    rw [visitAll_of_none h]
    rfl
  | case3 around markup element rest h _ station fault hfault =>
    obtain ⟨after, hvisit, hadvanced, hclips⟩ := run_visit_of_error hfault hclips sink
    refine ⟨after, ?_, hadvanced, hclips⟩
    rw [visitAll_of_some h, EStateM.run_bind, hvisit]
    rfl
  | case4 around markup element rest h _ station hok ih =>
    obtain ⟨between, hvisit, hfirst, hclips⟩ := run_visit_of_ok hok hclips sink
    obtain ⟨after, hrest, hsecond, hclips⟩ := ih between hclips
    refine ⟨after, ?_, ?_, hclips⟩
    · rw [visitAll_of_some h, EStateM.run_bind, hvisit]
      exact hrest
    · rw [Route.shapes_push, Route.taken_push]
      exact hfirst.trans hsecond
  | case5 around markup element rest h _ station inner hok ihinner ihrest =>
    obtain ⟨entered, hvisit, hfirst, hclips⟩ := run_visit_of_ok hok hclips sink
    obtain ⟨left, hinner, hsecond, hinside⟩ := ihinner entered hclips
    have houtside : left.ClipsTo around.box := fun box hbox =>
      hinside box (Station.box_of_evaluate_eq_ok hok hbox)
    cases hstop : (Route.ofMarkup sheet inner element.content).stop with
    | some stop =>
      rw [Route.append_of_stop hstop]
      refine ⟨left, ?_, ?_, houtside⟩
      · rw [visitAll_of_some h, EStateM.run_bind, hvisit]
        simp only [Route.finish, hstop, Option.map_some, EStateM.run_bind] at hinner ⊢
        rw [hinner]
        simp only [Route.push, hstop]
      · rw [Route.shapes_push, Route.taken_push]
        exact hfirst.trans hsecond
    | none =>
      obtain ⟨after, hrest, hthird, hclips⟩ := ihrest left houtside
      refine ⟨after, ?_, ?_, hclips⟩
      · rw [visitAll_of_some h, EStateM.run_bind, hvisit, Route.append_of_none hstop]
        simp only [Route.finish, hstop, Option.map_some, EStateM.run_bind] at hinner ⊢
        rw [hinner]
        exact hrest
      · rw [Route.shapes_push, Route.taken_push, Route.shapes_append hstop,
          Route.taken_append hstop]
        exact hfirst.trans (hsecond.trans hthird)

end Walking

end PenPlot
