import PenPlot.Proofs.Exact
import PenPlot.Geometry.Window

/-!
# Fitting windows

Over exact arithmetic a window of positive extent is fitted into a canvas by a stretch that is the same
along both axes, and a shift. The comparison of the aspect ratios picks the axis along which the window
fills the canvas, and that is the one along which the smaller of the two factors is needed. So no case
distinction is left: the factor is the smaller one, and the bands are half of what is left of the canvas
along either axis, which is nothing along the axis that is filled.
-/

namespace PenPlot

open Exact

/-- The point lies in the window, edges included. -/
def Window.Covers (window : Window ℝ) (p : Point ℝ) : Prop :=
  (window.minX ≤ p.x ∧ p.x ≤ window.minX + window.width) ∧
    window.minY ≤ p.y ∧ p.y ≤ window.minY + window.height

namespace ViewBox

/-- The point lies in the view box itself, edges included, without the tolerance. -/
def Covers (box : ViewBox ℝ) (q : CanvasPoint ℝ) : Prop :=
  (box.min.x ≤ q.x ∧ q.x ≤ box.max.x) ∧ box.min.y ≤ q.y ∧ q.y ≤ box.max.y

theorem tolerance_pos : 0 < (tolerance : ℝ) := by
  show 0 < ((1 : ℕ) : ℝ) * 10 ^ (-9 : ℤ)
  positivity

theorem contains_of_covers {box : ViewBox ℝ} {q : CanvasPoint ℝ} (h : box.Covers q) :
    box.contains q = true := by
  obtain ⟨⟨hleft, hright⟩, htop, hbottom⟩ := h
  have htolerance := tolerance_pos
  simp only [contains, Bool.and_eq_true, decide_eq_true_eq]
  exact ⟨⟨⟨by linarith, by linarith⟩, by linarith⟩, by linarith⟩

end ViewBox

/-- All of a canvas. -/
def Size.whole (canvas : Size ℝ) : ViewBox ℝ := ⟨⟨0, 0⟩, ⟨canvas.width, canvas.height⟩⟩

namespace Window

section

variable (window : Window ℝ) (canvas : Size ℝ)

/-- The smaller of the factors with which the window fills the canvas along one axis. -/
noncomputable def factor : ℝ := min (canvas.width / window.width) (canvas.height / window.height)

/-- What the stretched window leaves of the canvas along either axis. -/
noncomputable def spare : Point ℝ :=
  ⟨canvas.width - window.width * window.factor canvas,
    canvas.height - window.height * window.factor canvas⟩

end

variable {window : Window ℝ} {canvas : Size ℝ}

/-- A window is taller than the canvas just if it fills the height with the smaller factor. -/
theorem taller_iff (hwidth : 0 < window.width) (hheight : 0 < window.height)
    (hcanvas : 0 < canvas.height) :
    window.aspectRatio < canvas.aspectRatio ↔
      canvas.height / window.height < canvas.width / window.width := by
  show window.width / window.height < canvas.width / canvas.height ↔ _
  rw [div_lt_div_iff₀ hheight hcanvas, div_lt_div_iff₀ hheight hwidth, mul_comm window.width]

/-- Whichever axis is filled, the window is stretched by the smaller factor and shifted by half
of what it leaves. -/
theorem fit_fst (hwidth : 0 < window.width) (hheight : 0 < window.height)
    (hcanvas : 0 < canvas.height) :
    (window.fit canvas).1 =
      (Affine.translate ((window.spare canvas).x / 2 - window.factor canvas * window.minX)
        ((window.spare canvas).y / 2 - window.factor canvas * window.minY)).comp
        (Affine.scale (window.factor canvas) (window.factor canvas)) := by
  have htaller := taller_iff hwidth hheight hcanvas
  by_cases h : canvas.height / window.height < canvas.width / window.width
  · have hfactor : window.factor canvas = canvas.height / window.height := min_eq_right h.le
    have hband : (window.spare canvas).y / 2 = 0 := by
      rw [spare, hfactor, mul_div_cancel₀ _ hheight.ne', sub_self, zero_div]
    rw [hband, fit, if_pos (htaller.2 h), if_pos (htaller.2 h), spare, hfactor]
    ext <;> simp [Affine.comp, Affine.translate, Affine.scale]
    ring
  · have hfactor : window.factor canvas = canvas.width / window.width := min_eq_left (not_lt.1 h)
    have hband : (window.spare canvas).x / 2 = 0 := by
      rw [spare, hfactor, mul_div_cancel₀ _ hwidth.ne', sub_self, zero_div]
    rw [hband, fit, if_neg (mt htaller.1 h), if_neg (mt htaller.1 h), spare, hfactor]
    ext <;> simp [Affine.comp, Affine.translate, Affine.scale]
    ring

theorem stretch_apply (scale tx ty : ℝ) (p : Point ℝ) :
    ((Affine.translate tx ty).comp (Affine.scale scale scale)).apply p =
      ⟨scale * p.x + tx, scale * p.y + ty⟩ := by
  simp [Affine.comp, Affine.translate, Affine.scale, Affine.apply]

/-- Distances from the corner of the window are stretched, and the bands added. -/
theorem fit_apply (hwidth : 0 < window.width) (hheight : 0 < window.height)
    (hcanvas : 0 < canvas.height) (p : Point ℝ) :
    (window.fit canvas).1.apply p =
      ⟨window.factor canvas * (p.x - window.minX) + (window.spare canvas).x / 2,
        window.factor canvas * (p.y - window.minY) + (window.spare canvas).y / 2⟩ := by
  rw [fit_fst hwidth hheight hcanvas, stretch_apply, CanvasPoint.mk.injEq]
  constructor <;> ring

/-- The view box lies between the bands. -/
theorem fit_snd (hwidth : 0 < window.width) (hheight : 0 < window.height)
    (hcanvas : 0 < canvas.height) :
    (window.fit canvas).2 =
      ⟨⟨(window.spare canvas).x / 2, (window.spare canvas).y / 2⟩,
        ⟨canvas.width - (window.spare canvas).x / 2, canvas.height - (window.spare canvas).y / 2⟩⟩ := by
  have hbox : (window.fit canvas).2 =
      ⟨(window.fit canvas).1.apply ⟨window.minX, window.minY⟩,
        (window.fit canvas).1.apply
          ⟨window.minX + window.width, window.minY + window.height⟩⟩ := rfl
  rw [hbox, fit_apply hwidth hheight hcanvas, fit_apply hwidth hheight hcanvas]
  simp only [spare, ViewBox.mk.injEq, CanvasPoint.mk.injEq]
  refine ⟨⟨?_, ?_⟩, ?_, ?_⟩ <;> ring

/-! ## The factor -/

theorem factor_pos (hwidth : 0 < window.width) (hheight : 0 < window.height)
    (hcanvasWidth : 0 < canvas.width) (hcanvasHeight : 0 < canvas.height) :
    0 < window.factor canvas :=
  lt_min (div_pos hcanvasWidth hwidth) (div_pos hcanvasHeight hheight)

/-- Neither band is negative, and along one axis there is none. -/
theorem half_spare_nonneg (hwidth : 0 < window.width) (hheight : 0 < window.height) :
    0 ≤ (window.spare canvas).x / 2 ∧ 0 ≤ (window.spare canvas).y / 2 ∧
      ((window.spare canvas).x / 2 = 0 ∨ (window.spare canvas).y / 2 = 0) := by
  have hx : window.width * window.factor canvas ≤ canvas.width := by
    have hle : window.factor canvas ≤ canvas.width / window.width := min_le_left _ _
    rwa [le_div_iff₀ hwidth, mul_comm] at hle
  have hy : window.height * window.factor canvas ≤ canvas.height := by
    have hle : window.factor canvas ≤ canvas.height / window.height := min_le_right _ _
    rwa [le_div_iff₀ hheight, mul_comm] at hle
  refine ⟨by simp only [spare]; linarith, by simp only [spare]; linarith, ?_⟩
  obtain hfactor | hfactor := min_choice (canvas.width / window.width) (canvas.height / window.height)
  · left
    rw [spare, factor, hfactor, mul_div_cancel₀ _ hwidth.ne', sub_self, zero_div]
  · right
    rw [spare, factor, hfactor, mul_div_cancel₀ _ hheight.ne', sub_self, zero_div]

/-- A uniform stretch, with whatever shift, that keeps the window on the canvas is by no more than the
factor: two opposite corners tell. -/
theorem le_factor (hwidth : 0 < window.width) (hheight : 0 < window.height) {scale tx ty : ℝ}
    (h : ∀ p, window.Covers p →
      canvas.whole.Covers (((Affine.translate tx ty).comp (Affine.scale scale scale)).apply p)) :
    scale ≤ window.factor canvas := by
  have hnear : window.Covers ⟨window.minX, window.minY⟩ := by
    refine ⟨⟨le_refl _, ?_⟩, le_refl _, ?_⟩ <;> simp only <;> linarith
  have hfar : window.Covers ⟨window.minX + window.width, window.minY + window.height⟩ := by
    refine ⟨⟨?_, le_refl _⟩, ?_, le_refl _⟩ <;> simp only <;> linarith
  have hnear := h _ hnear
  have hfar := h _ hfar
  rw [stretch_apply] at hnear hfar
  obtain ⟨⟨hleft, -⟩, htop, -⟩ := hnear
  obtain ⟨⟨-, hright⟩, -, hbottom⟩ := hfar
  simp only [Size.whole] at hleft htop hright hbottom
  refine le_min ?_ ?_
  · rw [le_div_iff₀ hwidth]
    linarith
  · rw [le_div_iff₀ hheight]
    linarith

/-! ## The view box -/

/-- A stretch and a shift keep the order along an axis. -/
theorem stretch_mem_iff {scale : ℝ} (hscale : 0 < scale) (low extent shift t : ℝ) :
    (shift ≤ scale * (t - low) + shift ∧ scale * (t - low) + shift ≤ scale * extent + shift) ↔
      low ≤ t ∧ t ≤ low + extent := by
  rw [le_add_iff_nonneg_left, add_le_add_iff_right, mul_nonneg_iff_of_pos_left hscale, sub_nonneg,
    mul_le_mul_iff_right₀ hscale, sub_le_iff_le_add']

/-- Just the points of the window go to the view box. -/
theorem covers_fit_iff (hwidth : 0 < window.width) (hheight : 0 < window.height)
    (hcanvasWidth : 0 < canvas.width) (hcanvasHeight : 0 < canvas.height) (p : Point ℝ) :
    (window.fit canvas).2.Covers ((window.fit canvas).1.apply p) ↔ window.Covers p := by
  have hfactor := factor_pos hwidth hheight hcanvasWidth hcanvasHeight
  have hright : canvas.width - (window.spare canvas).x / 2 =
      window.factor canvas * window.width + (window.spare canvas).x / 2 := by
    simp only [spare]
    ring
  have hbottom : canvas.height - (window.spare canvas).y / 2 =
      window.factor canvas * window.height + (window.spare canvas).y / 2 := by
    simp only [spare]
    ring
  rw [fit_snd hwidth hheight hcanvasHeight, fit_apply hwidth hheight hcanvasHeight, hright, hbottom]
  exact and_congr (stretch_mem_iff hfactor _ _ _ _) (stretch_mem_iff hfactor _ _ _ _)

/-- Every point of the canvas is one that the transform leads to. -/
theorem exists_fit_apply (hwidth : 0 < window.width) (hheight : 0 < window.height)
    (hcanvasWidth : 0 < canvas.width) (hcanvasHeight : 0 < canvas.height) (q : CanvasPoint ℝ) :
    ∃ p, (window.fit canvas).1.apply p = q := by
  have hfactor := (factor_pos hwidth hheight hcanvasWidth hcanvasHeight).ne'
  refine ⟨⟨(q.x - (window.spare canvas).x / 2) / window.factor canvas + window.minX,
    (q.y - (window.spare canvas).y / 2) / window.factor canvas + window.minY⟩, ?_⟩
  rw [fit_apply hwidth hheight hcanvasHeight]
  simp only [add_sub_cancel_right, mul_div_cancel₀ _ hfactor, sub_add_cancel]

/-- A window and a canvas of positive extent: the window is stretched by the smaller of the factors with
which it fills the canvas along an axis, and shifted. It goes to the view box as a whole. The view box lies
on the canvas, spans it along one axis and leaves equal bands along the other. What lies in the window is
drawn, and stretched by more, with whatever shift, the window does not stay on the canvas. -/
theorem fit_meets (hwidth : 0 < window.width) (hheight : 0 < window.height)
    (hcanvasWidth : 0 < canvas.width) (hcanvasHeight : 0 < canvas.height) :
    ∃ transform box factor, window.fit canvas = (transform, box) ∧
      factor = min (canvas.width / window.width) (canvas.height / window.height) ∧
      (∃ tx ty : ℝ, transform = (Affine.translate tx ty).comp (Affine.scale factor factor)) ∧
      transform.apply '' {p | window.Covers p} = {q | box.Covers q} ∧
      (∀ q, box.Covers q → canvas.whole.Covers q) ∧
      ((box.min.x = 0 ∧ box.max.x = canvas.width ∧ box.min.y = canvas.height - box.max.y) ∨
        (box.min.y = 0 ∧ box.max.y = canvas.height ∧ box.min.x = canvas.width - box.max.x)) ∧
      (∀ p, window.Covers p → box.contains (transform.apply p) = true) ∧
      ∀ scale tx ty : ℝ,
        (∀ p, window.Covers p →
          canvas.whole.Covers
            (((Affine.translate tx ty).comp (Affine.scale scale scale)).apply p)) →
        scale ≤ factor := by
  have hcovers := covers_fit_iff hwidth hheight hcanvasWidth hcanvasHeight
  obtain ⟨hx, hy, hband⟩ := @half_spare_nonneg window canvas hwidth hheight
  have hbox := fit_snd hwidth hheight hcanvasHeight
  refine ⟨(window.fit canvas).1, (window.fit canvas).2, window.factor canvas, rfl, rfl,
    ⟨_, _, fit_fst hwidth hheight hcanvasHeight⟩, ?_, ?_, ?_, ?_, ?_⟩
  · ext q
    constructor
    · rintro ⟨p, hp, rfl⟩
      exact (hcovers p).2 hp
    · intro hq
      obtain ⟨p, rfl⟩ := exists_fit_apply hwidth hheight hcanvasWidth hcanvasHeight q
      exact ⟨p, (hcovers p).1 hq, rfl⟩
  · intro q hq
    rw [hbox] at hq
    obtain ⟨⟨hleft, hright⟩, htop, hbottom⟩ := hq
    exact ⟨⟨hx.trans hleft, hright.trans (sub_le_self _ hx)⟩,
      hy.trans htop, hbottom.trans (sub_le_self _ hy)⟩
  · rw [hbox]
    obtain hzero | hzero := hband
    · refine .inl ⟨hzero, ?_, ?_⟩
      · simp only [hzero, sub_zero]
      · simp only [sub_sub_cancel]
    · refine .inr ⟨hzero, ?_, ?_⟩
      · simp only [hzero, sub_zero]
      · simp only [sub_sub_cancel]
  · intro p hp
    exact ViewBox.contains_of_covers ((hcovers p).2 hp)
  · intro scale tx ty h
    exact le_factor hwidth hheight h

/-- A window of twice its width in height, on a canvas that is wider than high. -/
theorem fit_meets_tall :
    (0 : ℝ) < 50 ∧ (0 : ℝ) < 100 ∧ (0 : ℝ) < 300 ∧ (0 : ℝ) < 200 ∧
      ∃ transform box, fit (⟨10, 10, 50, 100⟩ : Window ℝ) ⟨300, 200⟩ = (transform, box) ∧
        (∃ tx ty : ℝ, transform = (Affine.translate tx ty).comp (Affine.scale 2 2)) ∧
        transform.apply '' {p | Covers ⟨10, 10, 50, 100⟩ p} = {q | box.Covers q} ∧
        box.contains (transform.apply ⟨60, 110⟩) = true := by
  have hwidth : (0 : ℝ) < 50 := by norm_num
  have hheight : (0 : ℝ) < 100 := by norm_num
  have hcanvasWidth : (0 : ℝ) < 300 := by norm_num
  have hcanvasHeight : (0 : ℝ) < 200 := by norm_num
  obtain ⟨transform, box, factor, hfit, hfactor, hstretch, himage, -, -, hdrawn, -⟩ :=
    @fit_meets ⟨10, 10, 50, 100⟩ ⟨300, 200⟩ hwidth hheight hcanvasWidth hcanvasHeight
  have htwo : factor = 2 := by
    rw [hfactor]
    norm_num
  have hcorner : Covers ⟨10, 10, 50, 100⟩ ⟨60, 110⟩ := by
    refine ⟨⟨?_, ?_⟩, ?_, ?_⟩ <;> norm_num
  rw [htwo] at hstretch
  exact ⟨hwidth, hheight, hcanvasWidth, hcanvasHeight, transform, box, hfit, hstretch, himage,
    hdrawn _ hcorner⟩

end Window

end PenPlot
