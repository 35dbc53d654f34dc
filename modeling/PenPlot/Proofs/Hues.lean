import Mathlib.Algebra.Order.Floor.Ring
import Mathlib.Tactic.IntervalCases
import PenPlot.Proofs.Balance
import PenPlot.Proofs.Exact
import PenPlot.Proofs.Leading
import PenPlot.Session

/-!
# Colours of strokes

A preview takes two passes, with different sinks: the first counts the strokes, and the second draws them,
each with the hue that comes next. Both receive the same commands, and the first of these is a move, so the
pen stands somewhere when the first stroke is asked for and none is left out. What the strokes look like is
up to a stroker, of which nothing is assumed: any of them is given the same strokes, in the same order.

Over exact arithmetic the hues stay within a turn, and there the full and pure colours are all different.
This takes the six sectors of the wheel together: from a colour the place of its hue on the wheel can be
read (`Color.sector`), at the borders of the sectors as well.
-/

namespace PenPlot

open Exact

/-! ## Full and pure colours -/

namespace Exact

theorem truncate_of_nonneg {x : ℝ} (h : 0 ≤ x) : truncate x = ⌊x⌋ := if_pos h

/-- A hue within the first turn is left where it is. -/
theorem wrap_of_mem {hue : ℝ} (h : hue ∈ Set.Ico 0 (2 * Real.pi)) :
    Scalar.wrap hue Scalar.turn = hue := by
  obtain ⟨hnonneg, hlt⟩ := h
  have hturn : 0 < 2 * Real.pi := Real.two_pi_pos
  have hfloor : truncate (hue / (2 * Real.pi)) = 0 := by
    rw [truncate_of_nonneg (div_nonneg hnonneg hturn.le), Int.floor_eq_zero_iff]
    exact ⟨div_nonneg hnonneg hturn.le, (div_lt_one hturn).2 hlt⟩
  have hremainder : Scalar.remainder hue (Scalar.turn : ℝ) = hue := by
    show hue - Scalar.turn * (truncate (hue / Scalar.turn) : ℝ) = hue
    rw [turn_eq, hfloor, Int.cast_zero, mul_zero, sub_zero]
  rw [Scalar.wrap]
  simp only [hremainder, ofNat_eq, Nat.cast_zero, if_neg hnonneg.not_gt]

theorem remainder_two {x : ℝ} {k : ℕ} (h : 2 * (k : ℝ) ≤ x) (hlt : x < 2 * k + 2) :
    Scalar.remainder x 2 = x - 2 * k := by
  have hnonneg : 0 ≤ x / 2 := div_nonneg (le_trans (by positivity) h) zero_le_two
  have hfloor : truncate (x / 2) = k := by
    rw [truncate_of_nonneg hnonneg, Int.floor_eq_iff, Int.cast_natCast]
    constructor <;> linarith
  show x - 2 * (truncate (x / 2) : ℝ) = _
  rw [hfloor, Int.cast_natCast]

end Exact

namespace Color

/-- The full and pure colour at a place of the wheel, where a component rises or falls to `part` in a
sector. -/
def ofSector (sector : ℕ) (part : ℝ) : Color ℝ :=
  match sector with
  | 0 => ⟨1, part, 0⟩
  | 1 => ⟨part, 1, 0⟩
  | 2 => ⟨0, 1, part⟩
  | 3 => ⟨0, part, 1⟩
  | 4 => ⟨part, 0, 1⟩
  | _ => ⟨1, 0, part⟩

/-- How far a component has risen or fallen at a place of a sector. Components rise in the first sector
and in every other one from there. -/
noncomputable def partOf (sector : ℕ) (place : ℝ) : ℝ :=
  if sector % 2 = 0 then place - sector else sector + 1 - place

theorem partOf_floor {place : ℝ} (h : 0 ≤ place) :
    1 - |Scalar.remainder place 2 - 1| = partOf ⌊place⌋₊ place := by
  have hle : (⌊place⌋₊ : ℝ) ≤ place := Nat.floor_le h
  have hlt : place < ⌊place⌋₊ + 1 := Nat.lt_floor_add_one place
  obtain ⟨k, hk | hk⟩ := Nat.even_or_odd' ⌊place⌋₊
  · rw [hk] at hle hlt ⊢
    push_cast at hle hlt
    rw [remainder_two hle (by linarith), partOf, if_pos (Nat.mul_mod_right 2 k),
      abs_of_neg (by linarith)]
    push_cast
    ring
  · rw [hk] at hle hlt ⊢
    push_cast at hle hlt
    rw [remainder_two (by linarith) (by linarith), partOf, if_neg (by omega),
      abs_of_nonneg (by linarith)]
    push_cast
    ring

/-- The colour of a hue is that of its place on the wheel. -/
theorem ofHsv_eq {hue : ℝ} (h : hue ∈ Set.Ico 0 (2 * Real.pi)) :
    ofHsv hue 1 1 =
      ofSector ⌊hue * 3 / Real.pi⌋₊ (partOf ⌊hue * 3 / Real.pi⌋₊ (hue * 3 / Real.pi)) := by
  have hpart := partOf_floor (div_nonneg (mul_nonneg h.1 zero_le_three) Real.pi_nonneg)
  have hclamp : Scalar.clampUnit (1 : ℝ) = 1 := by
    simp [Scalar.clampUnit]
  have habs (x : ℝ) : Scalar.abs x = |x| := rfl
  have hpi : (Scalar.pi : ℝ) = Real.pi := rfl
  have hfloor (x : ℝ) : Scalar.wholePart x = ⌊x⌋₊ := rfl
  simp only [ofHsv, wrap_of_mem h, hclamp, ofNat_eq, Nat.cast_ofNat, Nat.cast_one, Nat.cast_zero,
    habs, hpi, hfloor, mul_one, one_mul, sub_self, add_zero, hpart]
  rfl

/-- Where a full and pure colour is on the wheel, from 0 to 6. -/
noncomputable def place (color : Color ℝ) : ℝ :=
  if color.blue = 0 then 1 + color.green - color.red
  else if color.red = 0 then 3 + color.blue - color.green
  else 5 + color.red - color.blue

/-- A place can be read from its colour. At the border of two sectors two of the three formulas have to
come to the same. -/
theorem place_ofSector {place : ℝ} (h : 0 ≤ place) (hlt : place < 6) :
    (ofSector ⌊place⌋₊ (partOf ⌊place⌋₊ place)).place = place := by
  have hle : (⌊place⌋₊ : ℝ) ≤ place := Nat.floor_le h
  have hnext : place < ⌊place⌋₊ + 1 := Nat.lt_floor_add_one place
  have hsector : ⌊place⌋₊ < 6 := (Nat.floor_lt h).2 hlt
  generalize ⌊place⌋₊ = sector at hle hnext hsector
  -- The third and the fifth sector begin without the component by which the others tell them apart.
  interval_cases sector
  · norm_num [ofSector, partOf, Color.place]
  · norm_num [ofSector, partOf, Color.place]
  · norm_num [ofSector, partOf, Color.place] at hle ⊢
    split <;> linarith
  · norm_num [ofSector, partOf, Color.place]
  · norm_num [ofSector, partOf, Color.place] at hle ⊢
    split <;> linarith
  · norm_num [ofSector, partOf, Color.place] at hnext ⊢
    intro hborder
    linarith

/-- Within a turn no two hues have the same full and pure colour. -/
theorem injOn_ofHsv : Set.InjOn (fun hue : ℝ => ofHsv hue 1 1) (Set.Ico 0 (2 * Real.pi)) := by
  have hpi := Real.pi_pos
  have hplace {hue : ℝ} (h : hue ∈ Set.Ico 0 (2 * Real.pi)) :
      (ofHsv hue 1 1).place = hue * 3 / Real.pi := by
    have hnonneg : 0 ≤ hue * 3 / Real.pi := div_nonneg (mul_nonneg h.1 zero_le_three) hpi.le
    have hlt : hue * 3 / Real.pi < 6 := by
      rw [div_lt_iff₀ hpi]
      linarith [h.2]
    rw [ofHsv_eq h, place_ofSector hnonneg hlt]
  intro hue hhue other hother hsame
  have hplaces : hue * 3 / Real.pi = other * 3 / Real.pi := by
    rw [← hplace hhue, ← hplace hother]
    exact congrArg place hsame
  rwa [div_left_inj' hpi.ne', mul_left_inj' three_ne_zero] at hplaces

end Color

/-! ## Strokes -/

variable {α : Type}

/-- Where the stroke starts and ends, as the strokes that commands make. -/
def Stroke.ends (stroke : Stroke α) : Option (CanvasPoint α) × CanvasPoint α :=
  (some stroke.start, stroke.stop)

theorem length_strokes (previous : Option (PenCommand α)) (commands : List (PenCommand α)) :
    (strokes previous commands).length = commands.countP PenCommand.isDraw := by
  induction commands generalizing previous with
  | nil => rfl
  | cons command commands ih =>
    rw [strokes_cons, List.length_append, ih, List.countP_cons, Nat.add_comm]
    split <;> rfl

/-- A counting sink has counted the strokes. -/
theorem Sink.receiveAll_counting (counts : Nat × Nat) (commands : List (PenCommand α)) :
    (counting.receiveAll counts commands).2 = counts.2 + commands.countP PenCommand.isDraw := by
  induction commands generalizing counts with
  | nil => rfl
  | cons command commands ih =>
    rw [receiveAll_cons, ih, List.countP_cons]
    cases command with
    | move place => rfl
    | draw place =>
      show counts.2 + 1 + _ = counts.2 + (_ + 1)
      omega

theorem LedByMove.nil : LedByMove ([] : List (PenCommand α)) := by
  simp [LedByMove]

theorem LedByMove.append {first second : List (PenCommand α)} (hfirst : LedByMove first)
    (hsecond : LedByMove second) : LedByMove (first ++ second) := by
  cases first with
  | nil => exact hsecond
  | cons command first => exact hfirst

variable [Scalar α]

namespace SurfacePen

/-- The stroker is given just the strokes that the commands make, if the pen stands where they begin, and
each with the colour of the hue that comes next. -/
theorem receiveAll_sink (step : α) (previous : Option (PenCommand α)) (hue : α)
    {commands : List (PenCommand α)} (hfirst : previous = none → LedByMove commands) :
    ∃ made : List (Stroke α),
      made.map Stroke.ends = PenPlot.strokes previous commands ∧
        made.map Stroke.color =
          (List.iterate (· + step) hue made.length).map (Color.ofHsv · 1 1) ∧
        ∀ {σ : Type} (stroker : Stroker α σ) (pen : SurfacePen α σ),
          pen.position = previous.map PenCommand.point → pen.hue = hue →
            ((sink stroker step).receiveAll pen commands).surface = made.foldl stroker pen.surface := by
  induction commands generalizing previous hue with
  | nil => exact ⟨[], rfl, rfl, fun _ _ _ _ => rfl⟩
  | cons command commands ih =>
    have hbehind : some command = none → LedByMove commands :=
      fun hnone => absurd hnone (Option.some_ne_none command)
    cases command with
    | move place =>
      obtain ⟨made, hends, hcolors, hsurface⟩ := ih (some (.move place)) hue hbehind
      refine ⟨made, ?_, hcolors, ?_⟩
      · rw [strokes_cons, hends]
        rfl
      · intro σ stroker pen _ hhue
        exact hsurface stroker { pen with position := some place } rfl hhue
    | draw place =>
      cases previous with
      | none =>
        have hmove : (PenCommand.draw place).isDraw = false := hfirst rfl _ rfl
        cases hmove
      | some previous =>
        obtain ⟨made, hends, hcolors, hsurface⟩ := ih (some (.draw place)) (hue + step) hbehind
        refine ⟨⟨previous.point, place, .ofHsv hue 1 1⟩ :: made, ?_, ?_, ?_⟩
        · rw [strokes_cons, List.map_cons, hends]
          rfl
        · rw [List.map_cons, hcolors]
          rfl
        · intro σ stroker pen hposition hhue
          have hreceive : (sink stroker step).receive pen (.draw place) =
              { position := some place
                hue := hue + step
                surface := stroker pen.surface ⟨previous.point, place, .ofHsv hue 1 1⟩ } := by
            simp only [Sink.receive, sink]
            rw [hposition, hhue]
            rfl
          rw [Sink.receiveAll_cons, hreceive, hsurface stroker _ rfl rfl, List.foldl_cons]

end SurfacePen

/-! ## Passes begin with a move -/

/-- Where a tracker takes the point before as outside, or a move is asked for first, its first answer is
a move. -/
theorem Tracker.ledByMove_run {tracker : Tracker α} {commands : List (PenCommand α)}
    (h : tracker.inside = true → LedByMove commands) :
    LedByMove (tracker.run (commands.map .pen)).1 := by
  induction commands generalizing tracker with
  | nil => exact .nil
  | cons command commands ih =>
    have hlifted : ¬ (command.isDraw && tracker.inside) = true := by
      rw [Bool.and_eq_true]
      rintro ⟨hdraw, hinside⟩
      rw [h hinside command rfl] at hdraw
      cases hdraw
    rw [List.map_cons, run]
    simp only
    by_cases hcontains : tracker.box.contains command.point = true
    · rw [answer?, if_pos hcontains, if_neg hlifted]
      rintro _ ⟨⟩
      rfl
    · rw [answer?, if_neg hcontains]
      exact ih fun hinside => absurd hinside hcontains

theorem PlacedShape.ledByMove_commands (flattener : Flattener) (shape : PlacedShape α) :
    LedByMove (shape.commands flattener) := by
  cases hresult : (flattener.flattenShape shape.kind shape.attributes shape.transform).result with
  | error fault =>
    rw [commands, drawn_of_error hresult]
    exact .nil
  | ok asked =>
    rw [(drawn_of_ok shape hresult).1]
    exact Tracker.ledByMove_run fun _ => Flattener.ledByMove_flattenShape hresult

/-- The first command of a pass is a move. -/
theorem Pass.ledByMove_commands (sheet : Sheet α) (document : List Char) :
    LedByMove (ofText sheet document).commands := by
  rw [commands_ofText, Route.commands]
  induction (Route.ofText sheet document).shapes with
  | nil => exact .nil
  | cons shape shapes ih => exact (shape.ledByMove_commands sheet.flattener).append ih

/-! ## Two passes -/

/-- How many strokes the first pass of a preview counts. -/
def Sheet.previewDraws (sheet : Sheet α) (document : List Char) : Nat :=
  (walkThrough sheet .counting (0, 0) document).2.receiver.2

/-- What the second pass of a preview makes of a surface by a stroker. -/
def Sheet.preview {σ : Type} (sheet : Sheet α) (stroker : Stroker α σ) (surface : σ)
    (document : List Char) : σ :=
  (walkThrough sheet (SurfacePen.sink stroker (HuePen.step (sheet.previewDraws document)))
    (.initial surface) document).2.receiver.surface

/-- The strokes that the second pass of a preview draws, as a pen keeps them. -/
def Sheet.previewStrokes (sheet : Sheet α) (document : List Char) : List (Stroke α) :=
  (walkThrough sheet (HuePen.sink (HuePen.step (sheet.previewDraws document))) .initial
    document).2.receiver.strokes.toList

theorem receiver_walkThrough {σ : Type} (sheet : Sheet α) (sink : Sink α σ) (receiver : σ)
    (document : List Char) :
    (walkThrough sheet sink receiver document).2.receiver =
      sink.receiveAll receiver (Pass.ofText sheet document).commands := by
  rw [(walkThrough_follows sheet sink receiver document).2.receiver, Pass.commands_ofText]
  rfl

theorem Pass.fault_ofText (sheet : Sheet α) (document : List Char) :
    (ofText sheet document).walk.fault = (Route.ofText sheet document).stop.map Stop.fault := by
  obtain ⟨hresult, -⟩ := walkThrough_follows sheet .recording #[] document
  cases hstop : (Route.ofText sheet document).stop with
  | some stop =>
    rw [hstop] at hresult
    simp only [ofText, hresult, Option.map_some]
  | none =>
    rw [hstop] at hresult
    simp only [ofText, hresult, Option.map_none]

theorem Sheet.previewDraws_eq (sheet : Sheet α) (document : List Char) :
    sheet.previewDraws document =
      (Pass.ofText sheet document).commands.countP PenCommand.isDraw := by
  rw [previewDraws, receiver_walkThrough, Sink.receiveAll_counting, Nat.zero_add]

/-- Both passes make the strokes that the commands of a pass make, and every stroker is given them, one
behind the other. -/
theorem Sheet.preview_strokes (sheet : Sheet α) (document : List Char) :
    let draws := sheet.previewDraws document
    let made := sheet.previewStrokes document
    made.length = draws ∧
      made.map Stroke.ends = strokes none (Pass.ofText sheet document).commands ∧
      made.map Stroke.color =
        (List.iterate (· + HuePen.step draws) 0 draws).map (Color.ofHsv · 1 1) ∧
      ∀ {σ : Type} (stroker : Stroker α σ) (surface : σ),
        sheet.preview stroker surface document = made.foldl stroker surface := by
  intro draws made
  obtain ⟨given, hends, hcolors, hsurface⟩ :=
    SurfacePen.receiveAll_sink (HuePen.step draws) none (0 : α) fun _ =>
      Pass.ledByMove_commands sheet document
  have hpreview {σ : Type} (stroker : Stroker α σ) (surface : σ) :
      sheet.preview stroker surface document = given.foldl stroker surface := by
    rw [preview, receiver_walkThrough]
    exact hsurface stroker (.initial surface) rfl rfl
  -- A pen that keeps its strokes has a stroker as well, which shows which strokes they are.
  have hmade : made = given := by
    show (sheet.preview Array.push #[] document).toList = given
    rw [hpreview, List.foldl_push_eq_append', Array.empty_append]
  have hlength : given.length = draws := by
    rw [show draws = _ from sheet.previewDraws_eq document, ← length_strokes none, ← hends,
      List.length_map]
  rw [hmade]
  refine ⟨hlength, hends, ?_, hpreview⟩
  rw [hcolors, hlength]

/-- A preview is made by giving its stroker the strokes, if the document has no fault and there is a
surface. -/
theorem Session.preview_foldl {σ : Type} (session : Session) (stroker : Stroker Float σ)
    (surface : Except PictureFlaw σ) (document : List Char) :
    (session.preview stroker surface document).1 =
      match (walkThrough session.plotter.sheet .counting (0, 0) document).1 with
      | .error fault => .error (.document fault)
      | .ok _ =>
        match surface with
        | .error flaw => .error (.settings (.picture flaw))
        | .ok surface =>
          .ok ((session.plotter.sheet.previewStrokes document).foldl stroker surface) := by
  obtain ⟨-, -, -, hpreview⟩ := session.plotter.sheet.preview_strokes document
  have hfault := Pass.fault_ofText session.plotter.sheet document
  have hresult :=
    (walkThrough_follows session.plotter.sheet .counting (0, 0) document).1
  simp only [Session.preview, Session.interpret, hfault]
  cases hstop : (Route.ofText session.plotter.sheet document).stop with
  | some stop =>
    rw [hstop] at hresult
    simp only [hresult, Option.map_some]
  | none =>
    rw [hstop] at hresult
    simp only [hresult, Option.map_none]
    cases surface with
    | error flaw => rfl
    | ok surface =>
      dsimp only
      rw [← hpreview stroker surface]
      simp only [Sheet.preview, Sheet.previewDraws, receiver_walkThrough]

/-! ## Exact hues -/

theorem HuePen.step_eq (draws : ℕ) :
    (step draws : ℝ) = 1.99 * Real.pi / (max draws 1 : ℕ) := by
  have hsweep : (sweep : ℝ) = 1.99 * Real.pi := by
    show (((199 : ℕ) : ℝ) * 10 ^ (-2 : ℤ)) * Real.pi = _
    norm_num
  rw [step, hsweep, ofCount_eq]

theorem HuePen.max_one_pos (draws : ℕ) : (0 : ℝ) < (max draws 1 : ℕ) :=
  Nat.cast_pos.2 (lt_max_of_lt_right Nat.one_pos)

/-- Steps of the same length, one behind the other. -/
theorem iterate_add (step start : ℝ) (n : ℕ) :
    List.iterate (· + step) start n = (List.range n).map fun k : ℕ => start + k * step := by
  induction n generalizing start with
  | zero => rfl
  | succ n ih =>
    rw [List.iterate, ih, List.range_succ_eq_map, List.map_cons, List.map_map, Nat.cast_zero, zero_mul,
      add_zero]
    refine congrArg _ (List.map_congr_left fun k _ => ?_)
    simp only [Function.comp_apply, Nat.cast_succ]
    ring

/-- The hues of a preview with so many strokes, which go up in equal steps and stop short of a turn. -/
noncomputable def previewHue (draws k : ℕ) : ℝ := k * (1.99 * Real.pi / (max draws 1 : ℕ))

theorem previewHue_mem {draws k : ℕ} (h : k < draws) : previewHue draws k ∈ Set.Ico 0 (2 * Real.pi) := by
  have hpos := HuePen.max_one_pos draws
  have hpi := Real.pi_pos
  have hle : (k : ℝ) ≤ (max draws 1 : ℕ) := Nat.cast_le.2 (h.le.trans (le_max_left ..))
  have hnonneg : 0 ≤ previewHue draws k := by
    rw [previewHue]
    positivity
  refine ⟨hnonneg, ?_⟩
  calc (k : ℝ) * (1.99 * Real.pi / (max draws 1 : ℕ))
      ≤ (max draws 1 : ℕ) * (1.99 * Real.pi / (max draws 1 : ℕ)) := by gcongr
    _ = 1.99 * Real.pi := mul_div_cancel₀ _ hpos.ne'
    _ < 2 * Real.pi := by gcongr; norm_num

theorem previewHue_injective (draws : ℕ) : Function.Injective (previewHue draws) := by
  intro k m hsame
  have hpi := Real.pi_pos
  have hpos := HuePen.max_one_pos draws
  exact Nat.cast_injective (mul_right_cancel₀ (by positivity) hsame)

/-- The strokes of a preview have the colours of one walk along the wheel. -/
theorem Sheet.previewStrokes_color (sheet : Sheet ℝ) (document : List Char) :
    (sheet.previewStrokes document).map Stroke.color =
      (List.range (sheet.previewDraws document)).map fun k =>
        Color.ofHsv (previewHue (sheet.previewDraws document) k) 1 1 := by
  obtain ⟨-, -, hcolors, -⟩ := sheet.preview_strokes document
  rw [hcolors, iterate_add, HuePen.step_eq, List.map_map]
  refine List.map_congr_left fun k _ => ?_
  simp only [Function.comp_apply, ofNat_eq, Nat.cast_zero, Nat.cast_one, zero_add, previewHue]

/-- The walk does not come back to a colour. -/
theorem nodup_previewHue (draws : ℕ) :
    ((List.range draws).map fun k => Color.ofHsv (previewHue draws k) 1 1).Nodup := by
  refine List.Nodup.map_on ?_ List.nodup_range
  intro k hk m hm hsame
  have hk := previewHue_mem (List.mem_range.1 hk)
  have hm := previewHue_mem (List.mem_range.1 hm)
  exact previewHue_injective draws (Color.injOn_ofHsv hk hm hsame)

/-! ## Pictures of strokes -/

/-- A stroke adds its mark, if it has one, and nothing else. -/
theorem Picture.stroke_eq (options : PictureOptions) (picture : Picture) (stroke : Stroke Float) :
    Picture.stroke options picture stroke =
      { picture with marks := picture.marks ++ (strokeMark? options stroke).toArray } := by
  rw [Picture.stroke]
  cases strokeMark? options stroke with
  | none => rfl
  | some mark => rfl

theorem Picture.draw_eq (picture : Picture) (options : PictureOptions)
    (strokes : List (Stroke Float)) :
    picture.draw options strokes =
      { picture with
        marks := picture.marks ++ (strokes.filterMap (strokeMark? options)).toArray } := by
  rw [draw]
  induction strokes generalizing picture with
  | nil => simp
  | cons stroke strokes ih =>
    rw [List.foldl_cons, ih, stroke_eq, List.filterMap_cons]
    cases strokeMark? options stroke with
    | none => simp
    | some mark => simp

/-- Whatever draws a preview and on whatever surface, it is given the strokes that the commands of a pass
make, one behind the other and as many as the first pass has counted. So the marks of a picture are those
of the strokes, and each has the ink of the colour of its stroke. Over exact arithmetic the hues of the
strokes go up in equal steps from 0, stay below a turn, and lead to colours that are all different, since
no two hues of a turn have the same full and pure colour. -/
theorem Session.render_colors :
    (∀ {σ : Type} (session : Session) (stroker : Stroker Float σ) (surface : Except PictureFlaw σ)
        (document : List Char),
      (session.preview stroker surface document).1 =
        match (walkThrough session.plotter.sheet .counting (0, 0) document).1 with
        | .error fault => .error (.document fault)
        | .ok _ =>
          match surface with
          | .error flaw => .error (.settings (.picture flaw))
          | .ok surface =>
            .ok ((session.plotter.sheet.previewStrokes document).foldl stroker surface)) ∧
    (∀ (session : Session) (options : PictureOptions) (document : List Char),
      (session.render options document).1 =
        match (walkThrough session.plotter.sheet .counting (0, 0) document).1 with
        | .error fault => .error (.document fault)
        | .ok _ =>
          match Picture.blank session.plotter.sheet.canvas options with
          | .error flaw => .error (.settings (.picture flaw))
          | .ok blank =>
            let marks := (session.plotter.sheet.previewStrokes document).filterMap fun stroke =>
              (MarkShape.ofLine? (Picture.strokeLine stroke) options.scale options.penWidth).map
                fun shape =>
                  ⟨shape, .ofColor (stroke.color.map Float.toFloat32)
                    (Mark.opacity options.scale options.penWidth)⟩
            .ok { blank with marks := blank.marks ++ marks.toArray }) ∧
    (∀ (α : Type) [Scalar α] (sheet : Sheet α) (document : List Char),
      let draws := sheet.previewDraws document
      let made := sheet.previewStrokes document
      made.length = draws ∧
        made.map Stroke.ends = strokes none (Pass.ofText sheet document).commands ∧
        made.map Stroke.color =
          (List.iterate (· + HuePen.step draws) 0 draws).map (Color.ofHsv · 1 1) ∧
        ∀ {σ : Type} (stroker : Stroker α σ) (surface : σ),
          sheet.preview stroker surface document = made.foldl stroker surface) ∧
    (∀ (sheet : Sheet ℝ) (document : List Char),
      let draws := sheet.previewDraws document
      let made := sheet.previewStrokes document
      made.map Stroke.color =
          (List.range draws).map (fun k : ℕ =>
            Color.ofHsv (k * (1.99 * Real.pi / (max draws 1 : ℕ))) 1 1) ∧
        (∀ k : Fin draws,
          ((k : ℕ) * (1.99 * Real.pi / (max draws 1 : ℕ)) : ℝ) ∈ Set.Ico 0 (2 * Real.pi)) ∧
        (made.map Stroke.color).Nodup) ∧
    Set.InjOn (fun hue : ℝ => Color.ofHsv hue 1 1) (Set.Ico 0 (2 * Real.pi)) := by
  refine ⟨preview_foldl, ?_, fun α _ sheet document => sheet.preview_strokes document, ?_,
    Color.injOn_ofHsv⟩
  · intro session options document
    rw [render, preview_foldl]
    cases (walkThrough session.plotter.sheet .counting (0, 0) document).1 with
    | error fault => rfl
    | ok tally =>
      cases Picture.blank session.plotter.sheet.canvas options with
      | error flaw => rfl
      | ok blank => exact congrArg Except.ok (blank.draw_eq options _)
  · intro sheet document draws made
    have hcolors : made.map Stroke.color =
        (List.range draws).map fun k => Color.ofHsv (previewHue draws k) 1 1 :=
      sheet.previewStrokes_color document
    refine ⟨hcolors, fun k => previewHue_mem k.isLt, ?_⟩
    rw [hcolors]
    exact nodup_previewHue draws

/-- Three strokes are drawn, of which the last does not begin where the one before has ended. -/
theorem Session.render_colors_two_shapes :
    let plotter : Plotter := ⟨⟨⟨10, 10⟩, ⟨2, false⟩⟩, none⟩
    let document :=
      "<svg><polyline points='1,2 3,4 5,2'/><line x1='1' y1='1' x2='9' y2='1'/></svg>".toList
    let step : Float := HuePen.step 3
    let made : List (Stroke Float) :=
      [⟨⟨1, 2⟩, ⟨3, 4⟩, ⟨1, 0, 0⟩⟩, ⟨⟨3, 4⟩, ⟨5, 2⟩, .ofHsv step 1 1⟩,
        ⟨⟨1, 1⟩, ⟨9, 1⟩, .ofHsv (step + step) 1 1⟩]
    plotter.sheet.previewDraws document = 3 ∧ plotter.sheet.previewStrokes document = made ∧
      ∀ {σ : Type} (stroker : Stroker Float σ) (surface : σ),
        ((start plotter).preview stroker (.ok surface) document).1 =
          .ok (made.foldl stroker surface) := by
  intro plotter document step made
  have hdraws : plotter.sheet.previewDraws document = 3 := by decide +kernel
  have hmade : plotter.sheet.previewStrokes document = made := by decide +kernel
  have hwalk : (walkThrough plotter.sheet .counting (0, 0) document).1 = .ok
      { containers := 1, shapes := 2, pen := ⟨2, 3, 0⟩
        byElement := [("line", 1), ("polyline", 1), ("svg", 1)] } := by decide +kernel
  refine ⟨hdraws, hmade, fun stroker surface => ?_⟩
  have hpreview := render_colors.1 (start plotter) stroker (.ok surface) document
  rw [show (start plotter).plotter = plotter from rfl, hwalk, hmade] at hpreview
  exact hpreview

end PenPlot
