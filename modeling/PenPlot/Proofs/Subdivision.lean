import PenPlot.Proofs.Arcs
import PenPlot.Proofs.Leading

/-!
# Subdivided lines

A straight edge takes one stroke or, if lines are subdivided, as many as a curve. Over exact arithmetic
subdividing only adds points: drawn without it, an outline takes the same commands, but of the strokes
along each straight edge only the last. The others lead to the points that part the way from where the
pen is to the end of the edge.

An edge is subdivided from where the edge before it ends, in the coordinates of the document. That the
pen is there, too, is the invariant that carries all of this: the last command of each edge leads to its
end, and an edge without commands ends where it starts. The least obvious case is an arc, which is drawn
by the angles of its ellipse, but runs from end to end.
-/

namespace PenPlot

open Exact

/-! ## Points on curves -/

theorem linearPoint_one (p q : Point ℝ) : linearPoint p q 1 = q := by
  show (⟨p.x + (q.x - p.x) * 1, p.y + (q.y - p.y) * 1⟩ : Point ℝ) = q
  rw [mul_one, mul_one, add_sub_cancel, add_sub_cancel]

theorem quadraticPoint_one (p c q : Point ℝ) : quadraticPoint p c q 1 = q := by
  simp only [quadraticPoint, ofNat_eq, Nat.cast_one, sub_self, mul_zero, mul_one]
  show (⟨p.x * 0 + c.x * 0 + q.x * 1, p.y * 0 + c.y * 0 + q.y * 1⟩ : Point ℝ) = q
  simp only [mul_zero, add_zero, zero_add, mul_one]

theorem cubicPoint_one (p c d q : Point ℝ) : cubicPoint p c d q 1 = q := by
  simp only [cubicPoint, ofNat_eq, Nat.cast_one, sub_self, mul_zero, mul_one]
  show (⟨p.x * 0 + c.x * 0 + d.x * 0 + q.x * 1, p.y * 0 + c.y * 0 + d.y * 0 + q.y * 1⟩ :
    Point ℝ) = q
  simp only [mul_zero, add_zero, zero_add, mul_one]

theorem getLast?_ellipticalRun (center : Point ℝ) (rx ry first last : ℝ) {steps : ℕ}
    (hsteps : 1 ≤ steps) :
    (ellipticalRun center rx ry first last steps).getLast? =
      some (ellipsePoint center rx ry last) := by
  rw [ellipticalRun, List.getLast?_map, getLast?_fractions hsteps, Option.map_some, mul_one,
    add_sub_cancel]

namespace CanvasPoint

/-- The point at `t` on the way from `p` to `q`. -/
noncomputable def toward (p q : CanvasPoint ℝ) (t : ℝ) : CanvasPoint ℝ :=
  ⟨p.x + (q.x - p.x) * t, p.y + (q.y - p.y) * t⟩

/-- The points at `1 / n`, `2 / n`, … `(n - 1) / n` on the way from `p` to `q`. -/
noncomputable def partings (n : ℕ) (p q : CanvasPoint ℝ) : List (CanvasPoint ℝ) :=
  (List.range (n - 1)).map fun i => p.toward q (((i + 1 : ℕ) : ℝ) / n)

end CanvasPoint

/-- A transform keeps ways straight, and the parts of a way in proportion. -/
theorem Affine.apply_linearPoint (transform : Affine ℝ) (p q : Point ℝ) (t : ℝ) :
    transform.apply (linearPoint p q t) = (transform.apply p).toward (transform.apply q) t := by
  show transform.apply ⟨p.x + (q.x - p.x) * t, p.y + (q.y - p.y) * t⟩ = _
  simp only [apply, CanvasPoint.toward, CanvasPoint.mk.injEq]
  constructor <;> ring

/-! ## Ends of edges -/

namespace Edge

/-- Where an edge ends, however finely it is drawn. -/
noncomputable def stop : Edge ℝ → Point ℝ
  | move stop | line stop | quadratic _ stop | cubic _ _ stop => stop
  | arc shape => shape.stop
  | corner center rx ry _ last => ellipsePoint center rx ry last
  | loop center rx ry => ellipsePoint center rx ry (-Scalar.turn)

theorem target_eq_stop {flattener : Flattener} (hresolution : 1 ≤ flattener.resolution)
    (start : Point ℝ) (edge : Edge ℝ) : edge.target flattener start = edge.stop := by
  cases edge with
  | corner center rx ry first last =>
    have hsteps : 1 ≤ flattener.cornerSteps := le_max_right _ _
    rw [target, cornerPoints, getLast?_ellipticalRun center rx ry first last hsteps, stop,
      Option.getD_some]
  | loop center rx ry =>
    rw [target, loopPoints, getLast?_ellipticalRun center rx ry _ _ hresolution, stop,
      Option.getD_some]
  | _ => rfl

theorem stop_getLast?_cons (first : Edge ℝ) (edges : List (Edge ℝ)) (start : Point ℝ) :
    ((first :: edges).getLast?.map stop).getD start = (edges.getLast?.map stop).getD first.stop := by
  rw [List.getLast?_cons]
  cases edges.getLast? <;> rfl

/-- The edge is a straight line if it starts at a point. An arc is one if its ends differ and a radius is
zero. -/
def IsStraight (start : Point ℝ) : Edge ℝ → Prop
  | line _ => True
  | arc shape => start ≠ shape.stop ∧ (shape.rx = 0 ∨ shape.ry = 0)
  | _ => False

end Edge

theorem Arc.shape_eq_straight_iff {start : Point ℝ} {arc : Arc ℝ} :
    arc.shape start = .straight ↔ start ≠ arc.stop ∧ (arc.rx = 0 ∨ arc.ry = 0) := by
  rw [shape_eq_ite]
  split_ifs with hends hradius
  · exact iff_of_false nofun fun h => h.1 hends
  · exact iff_of_true rfl ⟨hends, hradius⟩
  · exact iff_of_false nofun fun h => hradius h.2

namespace Edge

/-- A straight edge is drawn as a line, whether it is one or an arc. -/
theorem commands_of_isStraight (flattener : Flattener) (transform : Affine ℝ) {start : Point ℝ}
    {edge : Edge ℝ} (h : edge.IsStraight start) :
    edge.commands flattener transform start =
      strokesTo transform (linePoints flattener start edge.stop) := by
  cases edge with
  | line stop => rfl
  | arc shape =>
    rw [commands, Arc.shape_eq_straight_iff.2 h]
    rfl
  | _ => exact h.elim

/-- Without subdivision that is one stroke. -/
theorem commands_plain (n : ℕ) (transform : Affine ℝ) {start : Point ℝ} {edge : Edge ℝ}
    (h : edge.IsStraight start) :
    edge.commands ⟨n, false⟩ transform start = [.draw (transform.apply edge.stop)] := by
  rw [commands_of_isStraight _ transform h]
  rfl

/-- With subdivision there are strokes to the points that part the way before the one to the end. -/
theorem commands_divided {n : ℕ} (hn : 1 ≤ n) (transform : Affine ℝ) {start : Point ℝ}
    {edge : Edge ℝ} (h : edge.IsStraight start) :
    edge.commands ⟨n, true⟩ transform start =
      ((transform.apply start).partings n (transform.apply edge.stop)).map .draw ++
        [.draw (transform.apply edge.stop)] := by
  have hpoints : linePoints ⟨n, true⟩ start edge.stop =
      (fractions n).map (linearPoint start edge.stop) := rfl
  rw [commands_of_isStraight _ transform h, hpoints, fractions_eq hn, strokesTo, List.map_map,
    List.map_append, List.map_singleton, List.map_map, CanvasPoint.partings, List.map_map]
  simp only [Function.comp_def, Affine.apply_linearPoint, linearPoint_one]

/-- Any other edge is drawn as finely whether lines are subdivided or not. -/
theorem commands_of_not_isStraight (n : ℕ) (transform : Affine ℝ) {start : Point ℝ}
    {edge : Edge ℝ} (h : ¬ edge.IsStraight start) :
    edge.commands ⟨n, true⟩ transform start = edge.commands ⟨n, false⟩ transform start := by
  cases edge with
  | line stop => exact absurd trivial h
  | arc shape =>
    simp only [commands]
    split
    · next hshape => exact absurd (Arc.shape_eq_straight_iff.1 hshape) h
    · rfl
  | _ => rfl

end Edge

/-! ## Where the pen is -/

/-- The commands leave the pen at a point of the canvas. -/
def LeadTo (commands : List (PenCommand ℝ)) (place : CanvasPoint ℝ) : Prop :=
  ∃ command ∈ commands.getLast?, command.point = place

theorem LeadTo.append (first : List (PenCommand ℝ)) {second : List (PenCommand ℝ)}
    {place : CanvasPoint ℝ} (h : LeadTo second place) : LeadTo (first ++ second) place := by
  obtain ⟨command, hlast, hpoint⟩ := h
  refine ⟨command, ?_, hpoint⟩
  rw [List.getLast?_append, Option.mem_def.1 hlast]
  rfl

/-- A curve that is sampled leaves the pen at its end. -/
theorem leadTo_strokesTo {n : ℕ} (hn : 1 ≤ n) (transform : Affine ℝ) {curve : ℝ → Point ℝ}
    {stop : Point ℝ} (hstop : curve 1 = stop) :
    LeadTo (strokesTo transform ((fractions n).map curve)) (transform.apply stop) := by
  refine ⟨.draw (transform.apply stop), ?_, rfl⟩
  rw [strokesTo, List.getLast?_map, List.getLast?_map, getLast?_fractions hn, ← hstop]
  rfl

theorem leadTo_ellipticalRun (transform : Affine ℝ) (center : Point ℝ) (rx ry first last : ℝ)
    {steps : ℕ} (hsteps : 1 ≤ steps) :
    LeadTo (strokesTo transform (ellipticalRun center rx ry first last steps))
      (transform.apply (ellipsePoint center rx ry last)) := by
  have hstop : ellipsePoint center rx ry (first + (last - first) * 1) =
      ellipsePoint center rx ry last := by
    rw [mul_one, add_sub_cancel]
  exact leadTo_strokesTo hsteps transform hstop

/-- The commands of an edge leave the pen at its end, unless there are none and the edge ends where it
starts. -/
theorem Edge.leadTo_commands {flattener : Flattener} (hresolution : 1 ≤ flattener.resolution)
    (transform : Affine ℝ) (start : Point ℝ) (edge : Edge ℝ) :
    (edge.commands flattener transform start = [] ∧ start = edge.stop) ∨
      LeadTo (edge.commands flattener transform start) (transform.apply edge.stop) := by
  have hline : ∀ stop : Point ℝ,
      LeadTo (strokesTo transform (linePoints flattener start stop)) (transform.apply stop) := by
    intro stop
    unfold linePoints
    split
    · exact leadTo_strokesTo hresolution transform (linearPoint_one start stop)
    · exact ⟨_, rfl, rfl⟩
  cases edge with
  | move stop => exact .inr ⟨_, rfl, rfl⟩
  | line stop => exact .inr (hline stop)
  | quadratic control stop =>
    exact .inr (leadTo_strokesTo hresolution transform (quadraticPoint_one start control stop))
  | cubic control₁ control₂ stop =>
    exact .inr (leadTo_strokesTo hresolution transform (cubicPoint_one start control₁ control₂ stop))
  | arc shape =>
    by_cases hends : start = shape.stop
    · refine .inl ⟨?_, hends⟩
      rw [commands, Arc.strokes, Arc.shape_eq_ite, if_pos hends]
    · refine .inr ?_
      by_cases hradius : shape.rx = 0 ∨ shape.ry = 0
      · have hstraight : IsStraight start (.arc shape) := ⟨hends, hradius⟩
        rw [commands_of_isStraight flattener transform hstraight]
        exact hline shape.stop
      · obtain ⟨hrx, hry⟩ := not_or.1 hradius
        refine ⟨.draw (transform.apply shape.stop), ?_, rfl⟩
        simp only [commands]
        rw [Arc.shape_of_ne hends hrx hry]
        exact Arc.getLast?_strokes hends hrx hry transform hresolution
  | corner center rx ry first last =>
    exact .inr (leadTo_ellipticalRun transform center rx ry first last (le_max_right _ _))
  | loop center rx ry => exact .inr (leadTo_ellipticalRun transform center rx ry _ _ hresolution)

/-- Where the edges of an outline end, which is where a next edge starts. -/
noncomputable def Outline.tip (edges : List (Edge ℝ)) : Point ℝ :=
  (edges.getLast?.map Edge.stop).getD .origin

namespace Flattener

variable (flattener : Flattener)

theorem flattenFrom_append_singleton (hresolution : 1 ≤ flattener.resolution) (transform : Affine ℝ)
    (start : Point ℝ) (edges : List (Edge ℝ)) (edge : Edge ℝ) :
    flattener.flattenFrom transform start (edges ++ [edge]) =
      flattener.flattenFrom transform start edges ++
        edge.commands flattener transform ((edges.getLast?.map Edge.stop).getD start) := by
  induction edges generalizing start with
  | nil => exact List.append_nil _
  | cons first edges ih =>
    rw [List.cons_append, flattenFrom, flattenFrom, Edge.target_eq_stop hresolution, ih,
      List.append_assoc, Edge.stop_getLast?_cons]

/-- An edge at the end of an outline starts where the edges before it end. -/
theorem flatten_append_singleton (hresolution : 1 ≤ flattener.resolution) (transform : Affine ℝ)
    (edges : List (Edge ℝ)) (edge : Edge ℝ) :
    flattener.flatten transform (edges ++ [edge]) =
      flattener.flatten transform edges ++
        edge.commands flattener transform (Outline.tip edges) :=
  flattener.flattenFrom_append_singleton hresolution transform .origin edges edge

end Flattener

theorem BeginsWithMove.of_append_singleton {edges : List (Edge ℝ)} {edge : Edge ℝ}
    (h : BeginsWithMove (edges ++ [edge])) :
    BeginsWithMove edges ∧ (edges = [] → ∃ stop, edge = .move stop) := by
  cases edges with
  | nil => exact ⟨.nil, fun _ => h edge rfl⟩
  | cons first edges =>
    obtain ⟨stop, rfl⟩ := h first rfl
    exact ⟨.cons stop edges, nofun⟩

/-- The pen is where the outline has been followed to. -/
theorem Flattener.leadTo_flatten {flattener : Flattener} (hresolution : 1 ≤ flattener.resolution)
    (transform : Affine ℝ) {edges : List (Edge ℝ)} (hmove : BeginsWithMove edges)
    (hne : edges ≠ []) :
    LeadTo (flattener.flatten transform edges) (transform.apply (Outline.tip edges)) := by
  induction edges using List.reverseRecOn with
  | nil => exact absurd rfl hne
  | append_singleton edges edge ih =>
    obtain ⟨hmove, hfirst⟩ := hmove.of_append_singleton
    have htip : Outline.tip (edges ++ [edge]) = edge.stop := by
      rw [Outline.tip, List.getLast?_concat]
      rfl
    rw [flatten_append_singleton flattener hresolution, htip]
    obtain ⟨hnone, hstay⟩ | hlead := edge.leadTo_commands hresolution transform (Outline.tip edges)
    · -- Nothing is drawn of an arc without length, so there are edges before it.
      have hbefore : edges ≠ [] := by
        intro hnil
        obtain ⟨stop, rfl⟩ := hfirst hnil
        cases hnone
      rw [hnone, List.append_nil, ← hstay]
      exact ih hmove hbefore
    · exact hlead.append _

/-! ## The commands with lines subdivided, and without -/

/-- How the commands of an outline with lines subdivided into `n` pieces, `fine`, are related to those
without, `coarse`, edge by edge. Along a straight edge the fine ones lead to the points that part the way
from where the pen is before, and both lead to its end. -/
inductive Subdivides (n : ℕ) (transform : Affine ℝ) :
    List (Edge ℝ) → List (PenCommand ℝ) → List (PenCommand ℝ) → Prop
  | nil : Subdivides n transform [] [] []
  | straight {edges : List (Edge ℝ)} {fine coarse : List (PenCommand ℝ)} {edge : Edge ℝ}
      {place : CanvasPoint ℝ} (h : Subdivides n transform edges fine coarse)
      (hstraight : edge.IsStraight (Outline.tip edges)) (hplace : LeadTo fine place) :
      Subdivides n transform (edges ++ [edge])
        (fine ++ ((place.partings n (transform.apply edge.stop)).map .draw ++
          [.draw (transform.apply edge.stop)]))
        (coarse ++ [.draw (transform.apply edge.stop)])
  | other {edges : List (Edge ℝ)} {fine coarse : List (PenCommand ℝ)} {edge : Edge ℝ}
      (h : Subdivides n transform edges fine coarse)
      (hother : ¬ edge.IsStraight (Outline.tip edges)) :
      Subdivides n transform (edges ++ [edge])
        (fine ++ edge.commands ⟨n, false⟩ transform (Outline.tip edges))
        (coarse ++ edge.commands ⟨n, false⟩ transform (Outline.tip edges))

namespace Subdivides

variable {n : ℕ} {transform : Affine ℝ} {edges : List (Edge ℝ)} {fine coarse : List (PenCommand ℝ)}

/-- Points are only inserted. -/
theorem sublist (h : Subdivides n transform edges fine coarse) : coarse.Sublist fine := by
  induction h with
  | nil => exact .slnil
  | straight _ _ _ ih => exact ih.append (List.sublist_append_right _ _)
  | other _ _ ih => exact ih.append (.refl _)

theorem flatten (hn : 1 ≤ n) (transform : Affine ℝ) (hmove : BeginsWithMove edges) :
    Subdivides n transform edges (Flattener.flatten ⟨n, true⟩ transform edges)
      (Flattener.flatten ⟨n, false⟩ transform edges) := by
  induction edges using List.reverseRecOn with
  | nil => exact .nil
  | append_singleton edges edge ih =>
    obtain ⟨hmove, hfirst⟩ := hmove.of_append_singleton
    rw [Flattener.flatten_append_singleton ⟨n, true⟩ hn,
      Flattener.flatten_append_singleton ⟨n, false⟩ hn]
    by_cases hstraight : edge.IsStraight (Outline.tip edges)
    · -- A straight edge is not the first, so the pen has been put down where it starts.
      have hbefore : edges ≠ [] := by
        intro hnil
        obtain ⟨stop, rfl⟩ := hfirst hnil
        exact hstraight
      rw [Edge.commands_divided hn transform hstraight, Edge.commands_plain n transform hstraight]
      exact (ih hmove).straight hstraight (Flattener.leadTo_flatten hn transform hmove hbefore)
    · rw [Edge.commands_of_not_isStraight n transform hstraight]
      exact (ih hmove).other hstraight

end Subdivides

namespace Flattener

/-- Subdividing lines makes no difference to the faults of a shape. If there is none, it only inserts
points: the commands without it are those with it, of which the last is kept of the strokes along each
straight edge. The others lead to the points that part the way along the edge into equal pieces. -/
theorem recorded_subdivides {n : ℕ} (hn : 1 ≤ n) (kind : ShapeKind) (attributes : List Char)
    (transform : Affine ℝ) :
    (∃ fault, recorded ⟨n, true⟩ kind attributes transform = (.error fault, []) ∧
      recorded ⟨n, false⟩ kind attributes transform = (.error fault, [])) ∨
    ∃ outline fine coarse, (Outline.ofShape (α := ℝ) kind attributes).result = .ok outline ∧
      recorded ⟨n, true⟩ kind attributes transform = (.ok (), fine) ∧
      recorded ⟨n, false⟩ kind attributes transform = (.ok (), coarse) ∧
      Subdivides n transform outline fine coarse ∧ coarse.Sublist fine := by
  rw [recorded_eq, recorded_eq]
  cases houtline : (Outline.ofShape (α := ℝ) kind attributes).result with
  | error fault => exact .inl ⟨fault, rfl, rfl⟩
  | ok outline =>
    have hsubdivides := Subdivides.flatten hn transform (Outline.ofShape_beginsWithMove houtline)
    exact .inr ⟨outline, _, _, rfl, rfl, rfl, hsubdivides, hsubdivides.sublist⟩

/-- A line in three pieces. -/
theorem recorded_subdivides_line :
    1 ≤ 3 ∧ ∃ fine coarse,
      recorded ⟨3, true⟩ .line "x2='6'".toList .identity = (.ok (), fine) ∧
      recorded ⟨3, false⟩ .line "x2='6'".toList .identity = (.ok (), coarse) ∧
      Subdivides 3 .identity [.move .origin, .line ⟨Scalar.ofCount 6, Scalar.ofCount 0⟩]
        fine coarse ∧
      fine.length = 4 ∧ coarse.length = 2 := by
  have hread : (Outline.ofShape (α := ℝ) .line "x2='6'".toList).result =
      .ok [.move .origin, .line ⟨Scalar.ofCount 6, Scalar.ofCount 0⟩] := rfl
  have hrecorded : ∀ subdivideLines : Bool,
      recorded ⟨3, subdivideLines⟩ .line "x2='6'".toList .identity =
        (.ok (), flatten (α := ℝ) ⟨3, subdivideLines⟩ .identity
          [.move .origin, .line ⟨Scalar.ofCount 6, Scalar.ofCount 0⟩]) := by
    intro subdivideLines
    rw [recorded_eq, hread]
  have hthree : 1 ≤ 3 := by decide
  refine ⟨hthree, ?_⟩
  obtain ⟨fault, hfault, -⟩ | ⟨outline, fine, coarse, houtline, hfine, hcoarse, hsubdivides, -⟩ :=
    recorded_subdivides hthree .line "x2='6'".toList .identity
  · rw [hrecorded] at hfault
    cases hfault
  · obtain rfl := Except.ok.inj (hread.symm.trans houtline)
    obtain rfl := (Prod.mk.inj ((hrecorded true).symm.trans hfine)).2
    obtain rfl := (Prod.mk.inj ((hrecorded false).symm.trans hcoarse)).2
    exact ⟨_, _, hfine, hcoarse, hsubdivides, rfl, rfl⟩

end Flattener

end PenPlot
