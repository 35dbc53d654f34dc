import PenPlot.Proofs.Clipping
import PenPlot.Proofs.Commands

/-!
# Tallies balance

An element is counted twice, by what becomes of it and by its name, and the two counts agree at the end
of every walk, whether it comes to the end of its document or stops in the middle of an element. The
commands that the sink has received are counted by their kind, and with the points that were suppressed
they make up all the points that were asked for.
-/

namespace PenPlot

/-! ## Counts by name -/

namespace Census

/-- Every name is there once, and the names are in order. -/
def Ordered (census : Census) : Prop := census.Pairwise fun first second => first.1 < second.1

/-- The sum of all counts. -/
def total : Census → Nat
  | [] => 0
  | (_, n) :: rest => n + total rest

theorem count_cons (entry : String × Nat) (census : Census) (name : String) :
    count (entry :: census) name = if name = entry.1 then entry.2 else census.count name := by
  obtain ⟨other, n⟩ := entry
  rw [count, List.lookup_cons]
  by_cases h : name = other
  · simp [h]
  · have hbeq : (name == other) = false := beq_eq_false_iff_ne.2 h
    simp [h, hbeq, count]

/-- A name before all names of a census has no count in it. -/
theorem count_eq_zero {name : String} {census : Census} (h : ∀ entry ∈ census, name < entry.1) :
    census.count name = 0 := by
  induction census with
  | nil => rfl
  | cons entry census ih =>
    have hne : name ≠ entry.1 := by
      intro heq
      have hlt := h entry (List.mem_cons_self ..)
      rw [heq] at hlt
      exact String.lt_irrefl _ hlt
    rw [count_cons, if_neg hne]
    exact ih fun other hother => h other (List.mem_cons_of_mem _ hother)

theorem name_of_mem_add {name : String} {n : Nat} {census : Census} {entry : String × Nat}
    (h : entry ∈ census.add name n) : entry.1 = name ∨ ∃ other ∈ census, entry.1 = other.1 := by
  induction census with
  | nil =>
    rw [add, List.mem_singleton] at h
    exact .inl (congrArg Prod.fst h)
  | cons first census ih =>
    obtain ⟨third, m⟩ := first
    rw [add] at h
    split at h
    · next heq =>
      rcases List.mem_cons.1 h with rfl | h
      · exact .inl heq.symm
      · exact .inr ⟨entry, List.mem_cons_of_mem _ h, rfl⟩
    · split at h
      · rcases List.mem_cons.1 h with rfl | h
        · exact .inl rfl
        · exact .inr ⟨entry, h, rfl⟩
      · rcases List.mem_cons.1 h with rfl | h
        · exact .inr ⟨_, List.mem_cons_self .., rfl⟩
        · rcases ih h with heq | ⟨other, hother, heq⟩
          · exact .inl heq
          · exact .inr ⟨other, List.mem_cons_of_mem _ hother, heq⟩

theorem Ordered.add {census : Census} (h : census.Ordered) (name : String) (n : Nat) :
    (census.add name n).Ordered := by
  induction census with
  | nil => exact List.pairwise_singleton _ _
  | cons first census ih =>
    obtain ⟨third, m⟩ := first
    obtain ⟨hfirst, hrest⟩ := List.pairwise_cons.1 h
    rw [Census.add]
    split
    · exact List.pairwise_cons.2 ⟨hfirst, hrest⟩
    · next hne =>
      split
      · next hlt =>
        refine List.pairwise_cons.2 ⟨?_, h⟩
        intro entry hentry
        rcases List.mem_cons.1 hentry with rfl | hentry
        · exact hlt
        · exact String.lt_trans hlt (hfirst entry hentry)
      · next hnlt =>
        have hthird : third < name := Std.lt_of_le_of_ne (String.not_lt.1 hnlt) (Ne.symm hne)
        refine List.pairwise_cons.2 ⟨?_, ih hrest⟩
        intro entry hentry
        rcases name_of_mem_add hentry with heq | ⟨other, hother, heq⟩
        · rw [heq]
          exact hthird
        · rw [heq]
          exact hfirst other hother

/-- What is added under a name is counted under that name and under no other. -/
theorem count_add {census : Census} (h : census.Ordered) (name other : String) (n : Nat) :
    (census.add name n).count other = census.count other + if other = name then n else 0 := by
  induction census with
  | nil =>
    rw [add, count_cons]
    exact (Nat.zero_add _).symm
  | cons first census ih =>
    obtain ⟨third, m⟩ := first
    obtain ⟨hfirst, hrest⟩ := List.pairwise_cons.1 h
    rw [add]
    split
    · next heq =>
      subst heq
      rw [count_cons, count_cons]
      split <;> rfl
    · next hne =>
      split
      · next hlt =>
        rw [count_cons]
        split
        · next heq =>
          -- The name comes before all others, so nothing was counted under it.
          subst heq
          have hzero : count ((third, m) :: census) other = 0 := by
            refine count_eq_zero ?_
            intro entry hentry
            rcases List.mem_cons.1 hentry with rfl | hentry
            · exact hlt
            · exact String.lt_trans hlt (hfirst entry hentry)
          rw [hzero, Nat.zero_add]
        · rfl
      · rw [count_cons, count_cons, ih hrest]
        split
        · next heq =>
          subst heq
          rw [if_neg (Ne.symm hne), Nat.add_zero]
        · rfl

theorem total_add (name : String) (n : Nat) (census : Census) :
    total (add name n census) = total census + n := by
  induction census with
  | nil => simp [add, total]
  | cons first census ih =>
    obtain ⟨third, m⟩ := first
    rw [add]
    split
    · show m + n + total census = m + total census + n
      omega
    · split
      · show n + (m + total census) = m + total census + n
        omega
      · show m + total (add name n census) = m + total census + n
        omega

end Census

/-! ## Elements -/

/-- The counts of elements by what became of them agree with the counts by name. -/
structure Tally.Balanced (tally : Tally) : Prop where
  /-- No name is there twice. -/
  ordered : tally.byElement.Ordered
  /-- The containers. -/
  containers : tally.containers = tally.byElement.count "svg" + tally.byElement.count "g"
  /-- The shapes inside and outside drawings. -/
  shapes : tally.shapes + tally.orphanedShapes =
    tally.byElement.count "line" + tally.byElement.count "polyline" +
      tally.byElement.count "polygon" + tally.byElement.count "rect" +
      tally.byElement.count "circle" + tally.byElement.count "ellipse" +
      tally.byElement.count "path"
  /-- All other tags. -/
  unrecognized : tally.unrecognized = tally.byElement.count "unrecognized"
  /-- All elements. -/
  elements : tally.elements = tally.byElement.total

variable {α σ : Type}

namespace Station

/-- Every element is counted once by what becomes of it. -/
theorem elements_count (tally : Tally) (station : Station α) :
    (count tally station).elements = tally.elements + 1 := by
  rcases station with ⟨kind | kind | _, attributes, around⟩
  · show tally.containers + 1 + tally.shapes + tally.orphanedShapes + tally.unrecognized =
      tally.containers + tally.shapes + tally.orphanedShapes + tally.unrecognized + 1
    omega
  · simp only [count]
    split
    · show tally.containers + (tally.shapes + 1) + tally.orphanedShapes + tally.unrecognized =
        tally.containers + tally.shapes + tally.orphanedShapes + tally.unrecognized + 1
      omega
    · show tally.containers + tally.shapes + (tally.orphanedShapes + 1) + tally.unrecognized =
        tally.containers + tally.shapes + tally.orphanedShapes + tally.unrecognized + 1
      omega
  · rfl

/-- Every element is counted once by its name. -/
theorem byElement_count (tally : Tally) (station : Station α) :
    (count tally station).byElement = tally.byElement.add station.kind.name 1 := by
  rcases station with ⟨kind | kind | _, attributes, around⟩
  · rfl
  · simp only [count]
    split <;> rfl
  · rfl

end Station

namespace Tally

theorem balanced_empty : ({} : Tally).Balanced := ⟨List.Pairwise.nil, rfl, rfl, rfl, rfl⟩

/-- Counting an element keeps the balance. -/
theorem Balanced.count {tally : Tally} (h : tally.Balanced) (station : Station α) :
    (Station.count tally station).Balanced := by
  have hname := fun name => Census.count_add h.ordered station.kind.name name 1
  have helements := Station.elements_count tally station
  have hbyElement := Station.byElement_count tally station
  obtain ⟨hordered, hcontainers, hshapes, hunrecognized, hall⟩ := h
  rw [← hbyElement] at hname
  refine ⟨?ordered, ?containers, ?shapes, ?unrecognized, ?elements⟩
  case ordered =>
    rw [hbyElement]
    exact hordered.add _ 1
  case elements => rw [helements, hbyElement, Census.total_add, hall]
  -- Of the other three sums, the one with the element's name grows by one.
  all_goals
    simp only [hname]
    rcases station with ⟨(_ | _) | kind | _, attributes, around⟩
  case containers.shape | shapes.shape | unrecognized.shape =>
    cases hbox : around.box.isSome <;> cases kind <;>
      simp [Station.count, hbox, oneShape, oneOrphan, named, ElementKind.name, ShapeKind.name] <;>
      omega
  all_goals
    simp [Station.count, oneContainer, oneUnrecognized, named, ElementKind.name,
      ContainerKind.name]
    omega

theorem Balanced.foldl_count {tally : Tally} (h : tally.Balanced)
    (stations : List (Station α)) : (stations.foldl Station.count tally).Balanced := by
  induction stations generalizing tally with
  | nil => exact h
  | cons station stations ih => exact ih (h.count station)

/-- What is counted of the pen does not matter to the balance of elements. -/
theorem Balanced.withPen {tally : Tally} (h : tally.Balanced) (pen : PenCounts) :
    ({ tally with pen := pen } : Tally).Balanced :=
  ⟨h.ordered, h.containers, h.shapes, h.unrecognized, h.elements⟩

end Tally

/-! ## Points -/

variable [Scalar α]

theorem length_judge (box : ViewBox α) (commands : List (PenCommand α)) :
    (judge box (commands.map .pen)).length = commands.length := by
  induction commands with
  | nil => rfl
  | cons command commands ih =>
    rw [List.map_cons, judge, List.length_cons, List.length_cons, ih]

namespace PlacedShape

variable {flattener : Flattener} {commands : List (PenCommand α)} {fault : Fault α}

/-- The commands that are asked for when the shape is drawn: those that a sink receives with no tracker
in front of it. -/
def requested (flattener : Flattener) (shape : PlacedShape α) : List (PenCommand α) :=
  let drawing := flattener.drawShape .recording shape.kind shape.attributes shape.transform
  match drawing.run ⟨.origin, #[], []⟩ with
  | .ok _ pencil | .error _ pencil => pencil.receiver.toList

theorem requested_of_ok {shape : PlacedShape α}
    (h : (flattener.flattenShape shape.kind shape.attributes shape.transform).result =
      .ok commands) : shape.requested flattener = commands := by
  obtain ⟨pencil, hrun, hreceiver⟩ := Flattener.run_drawShape_of_ok h .recording #[]
  simp only [requested]
  rw [hrun]
  show pencil.receiver.toList = commands
  rw [hreceiver, Sink.receiveAll_recording]
  rfl

/-- A shape with a fault asks for nothing. -/
theorem requested_of_error {shape : PlacedShape α}
    (h : (flattener.flattenShape shape.kind shape.attributes shape.transform).result =
      .error fault) : shape.requested flattener = [] := by
  obtain ⟨pencil, hrun, hreceiver⟩ := Flattener.run_drawShape_of_error h .recording #[]
  simp only [requested]
  rw [hrun]
  show pencil.receiver.toList = []
  rw [hreceiver]

theorem drawn_of_error {shape : PlacedShape α}
    (h : (flattener.flattenShape shape.kind shape.attributes shape.transform).result =
      .error fault) : shape.drawn flattener = (.ofBox shape.box, #[]) := by
  obtain ⟨pencil, hrun, hreceiver⟩ := Flattener.run_drawShape_of_error h (Tracker.filter .recording)
    (Tracker.ofBox shape.box, (#[] : Array (PenCommand α)))
  simp only [drawn]
  rw [hrun]
  exact hreceiver

/-- What is counted for a shape are the points that it asks for and the commands that are sent. -/
theorem countsOf_counts (flattener : Flattener) (shape : PlacedShape α) :
    (shape.counts flattener).CountsOf (shape.requested flattener).length
      (shape.commands flattener) := by
  cases hresult : (flattener.flattenShape shape.kind shape.attributes shape.transform).result with
  | error fault =>
    rw [counts, commands, drawn_of_error hresult, requested_of_error hresult]
    exact .zero
  | ok asked =>
    obtain ⟨hcommands, hcounts⟩ := drawn_of_ok shape hresult
    have hrun := Tracker.countsOf_run (.ofBox shape.box) .zero (asked.map .pen)
    rw [length_judge, Nat.zero_add, List.nil_append] at hrun
    rw [hcommands, hcounts, requested_of_ok hresult]
    exact hrun

/-- The same holds for shapes one behind the other. -/
theorem countsOf_total (flattener : Flattener) (shapes : List (PlacedShape α)) :
    (PenCounts.total (shapes.map (counts flattener))).CountsOf
      (shapes.flatMap (requested flattener)).length
      (shapes.flatMap (PlacedShape.commands flattener)) := by
  induction shapes with
  | nil => exact .zero
  | cons shape shapes ih =>
    rw [List.flatMap_cons, List.flatMap_cons, List.length_append]
    exact (shape.countsOf_counts flattener).add ih

end PlacedShape

/-- The commands that are asked for along a route, for the shape at which it stops as well. -/
def Route.requested (flattener : Flattener) (route : Route α) : List (PenCommand α) :=
  (route.taken.filterMap Station.shape?).flatMap (PlacedShape.requested flattener)

/-- A shape at fault asks for nothing. -/
theorem Station.requested_of_error {sheet : Sheet α} {station : Station α} {fault : Fault α}
    (h : (station.evaluate sheet).result = .error fault) {shape : PlacedShape α}
    (hshape : station.shape? = some shape) : shape.requested sheet.flattener = [] := by
  rcases station with ⟨kind | kind | _, attributes, around⟩
  · simp [shape?] at hshape
  · obtain ⟨box, hbox⟩ := Station.inside_of_evaluate_eq_error h
    simp only [evaluate, hbox, Option.isSome_some, if_true, Reading.result_bind_eq_error] at h
    rcases h with hown | ⟨own, hown, h | ⟨commands, -, h⟩⟩
    · simp [shape?, hbox, hown] at hshape
    · simp only [shape?, hbox, hown, Option.some.injEq] at hshape
      subst hshape
      exact PlacedShape.requested_of_error h
    · cases h
  · simp [shape?] at hshape

/-- What is counted along a route are the points that are asked for and the commands that are sent. -/
theorem Route.Sound.countsOf_counts {sheet : Sheet α} {route : Route α} (h : route.Sound sheet) :
    (route.counts sheet.flattener).CountsOf (route.requested sheet.flattener).length
      (route.commands sheet.flattener) := by
  have hshapes := PlacedShape.countsOf_total sheet.flattener route.shapes
  have hstop : ((route.stop.bind Stop.station).toList.filterMap Station.shape?).flatMap
      (PlacedShape.requested sheet.flattener) = [] := by
    rw [List.flatMap_eq_nil_iff]
    intro shape hshape
    obtain ⟨station, hstation, hshape⟩ := List.mem_filterMap.1 hshape
    obtain ⟨⟨failing, fault⟩, hstop, hfailing⟩ :=
      Option.bind_eq_some_iff.1 (Option.mem_toList.1 hstation)
    replace hfailing : failing = some station := hfailing
    subst hfailing
    exact Station.requested_of_error (h.failed station fault hstop) hshape
  have hrequested : route.requested sheet.flattener =
      route.shapes.flatMap (PlacedShape.requested sheet.flattener) := by
    rw [Route.requested, Route.taken, List.filterMap_append, List.flatMap_append, hstop,
      List.append_nil]
    rfl
  rw [hrequested]
  exact hshapes

/-! ## Walks -/

/-- At the end of a walk, be it the end of the document or a fault, the tally balances, with whatever
sink: the sink has received what a pass sends, the moves and the strokes in it are those that are
counted, and together with what is counted as suppressed they are the points that were asked for. -/
theorem walkThrough_balanced (sheet : Sheet α) (sink : Sink α σ) (receiver : σ)
    (document : List Char) :
    let sent := (Pass.ofText sheet document).commands
    let progress := (walkThrough sheet sink receiver document).2
    (∀ tally, (walkThrough sheet sink receiver document).1 = .ok tally → tally = progress.total) ∧
      (Pass.ofText sheet document).tally = progress.total ∧
      progress.total.Balanced ∧
      progress.receiver = sink.receiveAll receiver sent ∧
      progress.total.pen.CountsOf
        ((Route.ofText sheet document).requested sheet.flattener).length sent := by
  intro sent progress
  obtain ⟨hresult, hadvanced⟩ := walkThrough_follows sheet sink receiver document
  have hsound := Route.sound_ofMarkup sheet .bare (.scan document)
  have hsent : sent = (Route.ofText sheet document).commands sheet.flattener :=
    Pass.commands_ofText sheet document
  have htally := Pass.tally_ofText sheet document
  have htotal : progress.total = (Route.ofText sheet document).tally sheet.flattener := by
    show (walkThrough sheet sink receiver document).2.total = _
    rw [Progress.total, hadvanced.tally, hadvanced.penCounts]
    exact congrArg (Tally.mk _ _ _ _ · _) (PenCounts.zero_add _)
  refine ⟨?_, htally.trans htotal.symm, ?_, ?_, ?_⟩
  · intro tally htally
    rw [htally] at hresult
    cases hstop : (Route.ofText sheet document).stop with
    | some stop =>
      rw [hstop] at hresult
      cases hresult
    | none =>
      rw [hstop] at hresult
      cases hresult
      rfl
  · rw [htotal]
    exact (Tally.balanced_empty.foldl_count _).withPen _
  · show (walkThrough sheet sink receiver document).2.receiver = _
    rw [hadvanced.receiver, hsent]
    rfl
  · rw [htotal, hsent]
    exact hsound.countsOf_counts

/-- A shape stands outside every drawing, and one end of a line is suppressed. The first walk comes to
the end, and the second stops inside the group at a list of points with a fault. -/
theorem walkThrough_balanced_finished_and_stopped :
    let sheet : Sheet Float := ⟨⟨10, 10⟩, ⟨2, false⟩⟩
    let text := "<rect/><svg viewBox='0 0 10 10'><g><line x1='1' y1='2' x2='3' y2='40'/><b>"
    let finished := (text ++ "</g></svg>").toList
    let stopped := (text ++ "<polyline points='1 x'/></g></svg>").toList
    let tally : Tally :=
      { containers := 2, shapes := 1, orphanedShapes := 1, unrecognized := 1, pen := ⟨1, 0, 1⟩
        byElement := [("g", 1), ("line", 1), ("rect", 1), ("svg", 1), ("unrecognized", 1)] }
    let progress := (walkThrough sheet .counting (0, 0) stopped).2
    (walkThrough sheet .counting (0, 0) finished).1 = .ok tally ∧ tally.Balanced ∧
      progress.total = (tally.named "polyline").oneShape ∧ progress.total.Balanced ∧
      progress.total.pen.CountsOf ((Route.ofText sheet stopped).requested sheet.flattener).length
        (Pass.ofText sheet stopped).commands := by
  intro sheet text finished stopped tally progress
  have hresult : (walkThrough sheet .counting (0, 0) finished).1 = .ok tally := by decide +kernel
  obtain ⟨htally, -, hfinished, -⟩ := walkThrough_balanced sheet .counting (0, 0) finished
  obtain ⟨-, -, hstopped, -, hcounts⟩ := walkThrough_balanced sheet .counting (0, 0) stopped
  refine ⟨hresult, ?_, by decide +kernel, hstopped, hcounts⟩
  rw [htally tally hresult]
  exact hfinished

end PenPlot
