import Mathlib
import PenPlot.Plot.TraceFile

/-!
# Magnitudes

A finite value of machine arithmetic is `m * 2 ^ e`, and its magnitude is told by the place of its
leading bit. Rounding moves that place by one at most, so an operation on finite values gives a finite
value as long as no place comes near the largest one of the format. A time that a clock can give is far
below it.
-/

namespace PenPlot

namespace Machine

open Float.Model (Format UnpackedFloat totalExponent)
open Float.Model.UnpackedFloat (Accuracy ExtendedMantissa pack packComponents roundWithAccuracy
  shiftToTargetExponent unpack unpackExponent_packComponents unpackMantissa_packComponents)

/-! ## Leading bits -/

theorem log2_le_iff {n k : Nat} : n.log2 ≤ k ↔ n < 2 ^ (k + 1) := by
  by_cases hn : n = 0
  · rw [hn, Nat.log2_zero]
    exact ⟨fun _ => Nat.two_pow_pos _, fun _ => Nat.zero_le _⟩
  · rw [← Nat.log2_lt hn]
    exact Nat.lt_succ_iff.symm

theorem lt_pow_log2 (n : Nat) : n < 2 ^ (n.log2 + 1) := log2_le_iff.1 (Nat.le_refl _)

theorem log2_shiftLeft_le (n s : Nat) : (n <<< s).log2 ≤ n.log2 + s := by
  rw [log2_le_iff, Nat.shiftLeft_eq, Nat.add_right_comm, Nat.pow_add]
  exact Nat.mul_lt_mul_of_pos_right (lt_pow_log2 n) (Nat.two_pow_pos s)

theorem log2_add_le (m n : Nat) : (m + n).log2 ≤ max m.log2 n.log2 + 1 := by
  have hm : m < 2 ^ (max m.log2 n.log2 + 1) := log2_le_iff.1 (Nat.le_max_left _ _)
  have hn : n < 2 ^ (max m.log2 n.log2 + 1) := log2_le_iff.1 (Nat.le_max_right _ _)
  rw [log2_le_iff, Nat.pow_succ]
  omega

theorem log2_mul_le (m n : Nat) : (m * n).log2 ≤ m.log2 + n.log2 + 1 := by
  rw [log2_le_iff, show m.log2 + n.log2 + 1 + 1 = (m.log2 + 1) + (n.log2 + 1) by omega, Nat.pow_add]
  exact Nat.mul_lt_mul'' (lt_pow_log2 m) (lt_pow_log2 n)

theorem log2_mono {m n : Nat} (h : m ≤ n) : m.log2 ≤ n.log2 :=
  log2_le_iff.2 (Nat.lt_of_le_of_lt h (lt_pow_log2 n))

/-- Dropping `s` bits takes the leading bit down by as many places, as long as it stays. -/
theorem log2_div_add_le (n s : Nat) : (n / 2 ^ s).log2 + s ≤ max n.log2 s := by
  by_cases hs : s ≤ n.log2
  · have hdrop : (n / 2 ^ s).log2 ≤ n.log2 - s := by
      rw [log2_le_iff, Nat.div_lt_iff_lt_mul (Nat.two_pow_pos s), ← Nat.pow_add]
      rw [show n.log2 - s + 1 + s = n.log2 + 1 by omega]
      exact lt_pow_log2 n
    omega
  · have hlt : n < 2 ^ s :=
      Nat.lt_of_lt_of_le (lt_pow_log2 n) (Nat.pow_le_pow_right Nat.two_pos (by omega))
    have hzero : n / 2 ^ s = 0 := Nat.div_eq_of_lt hlt
    rw [hzero, Nat.log2_zero]
    omega

/-! ## Rounding -/

theorem mantissa_shiftRight (extended : ExtendedMantissa) (s : Nat) :
    (extended >>> s).mantissa = extended.mantissa / 2 ^ s := by
  induction s with
  | zero => exact (Nat.div_one _).symm
  | succ s ih =>
    show (extended >>> s).mantissa / 2 = _
    rw [ih, Nat.div_div_eq_div_mul, Nat.pow_succ]

theorem roundedMantissa_le (extended : ExtendedMantissa) :
    extended.roundedMantissa ≤ extended.mantissa + 1 := by
  obtain ⟨mantissa, roundBit, stickyBit⟩ := extended
  cases roundBit <;> cases stickyBit <;>
    simp only [ExtendedMantissa.roundedMantissa, ExtendedMantissa.accuracy,
      Accuracy.roundToNearestEven] <;> omega

theorem mantissa_ofMantissaAndAccuracy (m : Nat) (accuracy : Accuracy) :
    (ExtendedMantissa.ofMantissaAndAccuracy m accuracy).mantissa = m := by
  rcases accuracy with _ | (_ | _ | _) <;> rfl

/-- How many bits are dropped to bring a value into the format. -/
def droppedBits (m : Nat) (e : Int) : Nat :=
  (Format.binary64.targetExponent (totalExponent m e) - e).toNat

theorem shiftToTargetExponent_eq (m : Nat) (e : Int) (accuracy : Accuracy) :
    (shiftToTargetExponent Format.binary64 m e accuracy).1.mantissa = m / 2 ^ droppedBits m e ∧
      (shiftToTargetExponent Format.binary64 m e accuracy).2 = e + droppedBits m e := by
  refine ⟨?_, rfl⟩
  show (ExtendedMantissa.ofMantissaAndAccuracy m accuracy >>> droppedBits m e).mantissa = _
  rw [mantissa_shiftRight, mantissa_ofMantissaAndAccuracy]

theorem droppedBits_le (m : Nat) (e : Int) :
    e + droppedBits m e ≤ max (totalExponent m e - 1) (-1074) := by
  have hmin : Format.binary64.minExponent = -1074 := rfl
  simp only [droppedBits, Format.targetExponent, Format.mantissaBits, hmin, totalExponent]
  omega

/-- A finite value less than `2 ^ k` and more than `-2 ^ k`. -/
def IsBelow (k : Int) : UnpackedFloat → Prop
  | .zero _ => True
  | .finite _ m e _ => totalExponent m e ≤ k
  | .infinity _ => False
  | .notANumber => False

theorem isFinite_of_isBelow {k : Int} {value : UnpackedFloat} (h : IsBelow k value) :
    value.isFinite = true := by
  cases value with
  | zero => rfl
  | finite => rfl
  | infinity => exact h.elim
  | notANumber => exact h.elim

theorem IsBelow.mono {j k : Int} {value : UnpackedFloat} (h : IsBelow j value) (hjk : j ≤ k) :
    IsBelow k value := by
  cases value with
  | zero => trivial
  | finite => exact Int.le_trans h hjk
  | infinity => exact h
  | notANumber => exact h

/-- Rounding moves the leading bit by one place at most. -/
theorem isBelow_roundWithAccuracy (sign : UnpackedFloat.Sign) {m : Nat} {e k : Int}
    (accuracy : Accuracy) (h : totalExponent m e ≤ k) (hk : -1000 ≤ k) :
    IsBelow (k + 1) (roundWithAccuracy Format.binary64 sign m e accuracy) := by
  obtain ⟨hfirst, hexponent⟩ := shiftToTargetExponent_eq m e accuracy
  rw [roundWithAccuracy]
  dsimp only
  generalize shiftToTargetExponent Format.binary64 m e accuracy = first at hfirst hexponent
  obtain ⟨extended, e₁⟩ := first
  dsimp only at hfirst hexponent ⊢
  obtain ⟨hsecond, hexponent₂⟩ := shiftToTargetExponent_eq extended.roundedMantissa e₁ .exact
  generalize shiftToTargetExponent Format.binary64 extended.roundedMantissa e₁ .exact = second
    at hsecond hexponent₂
  obtain ⟨last, e₂⟩ := second
  dsimp only at hsecond hexponent₂ ⊢
  split
  · trivial
  · show totalExponent last.mantissa e₂ ≤ k + 1
    have hone : Nat.log2 1 = 0 := rfl
    have hcarry := log2_add_le extended.mantissa 1
    have hrounded := log2_mono (roundedMantissa_le extended)
    have hd₁ := droppedBits_le m e
    have hd₂ := droppedBits_le extended.roundedMantissa e₁
    have hl₁ := log2_div_add_le m (droppedBits m e)
    have hl₂ := log2_div_add_le extended.roundedMantissa (droppedBits extended.roundedMantissa e₁)
    rw [← hfirst] at hl₁
    rw [← hsecond] at hl₂
    simp only [totalExponent] at *
    omega

theorem isBelow_round (sign : UnpackedFloat.Sign) {m : Nat} {e k : Int} (h : totalExponent m e ≤ k)
    (hk : -1000 ≤ k) : IsBelow (k + 1) (UnpackedFloat.round Format.binary64 sign m e) := by
  refine isBelow_roundWithAccuracy sign .exact ?_ hk
  have hshift := log2_shiftLeft_le m
    (e - Format.binary64.targetExponent (totalExponent m e)).toNat
  simp only [totalExponent] at *
  omega

theorem isBelow_normalize {m : Int} {e k : Int} (zero : UnpackedFloat.Sign)
    (h : totalExponent m.natAbs e ≤ k) (hk : -1000 ≤ k) :
    IsBelow (k + 1) (UnpackedFloat.normalize Format.binary64 m e zero) := by
  rw [UnpackedFloat.normalize]
  split
  · rw [show (-m).toNat = m.natAbs by grind]
    exact isBelow_round _ h hk
  · trivial
  · rw [show m.toNat = m.natAbs by grind]
    exact isBelow_round _ h hk

/-! ## Storing -/

theorem isBelow_unpack_packComponents (sign : UnpackedFloat.Sign) (exponent : BitVec 11)
    (mantissa : BitVec 52) {k : Int} (hexponent : exponent ≠ -1#11)
    (h : (exponent.toNat : Int) - 1022 ≤ k) :
    IsBelow k (unpack Format.binary64 (packComponents Format.binary64 sign exponent mantissa)) := by
  have hbias : (Format.binary64.exponentBias : Int) = 1023 := rfl
  rw [unpack]
  simp only [unpackExponent_packComponents, unpackMantissa_packComponents, hexponent, if_false]
  split
  next hzero =>
    split
    · trivial
    · have hbits : mantissa.toNat.log2 ≤ 51 := log2_le_iff.2 mantissa.isLt
      simp only [IsBelow, totalExponent, hbias, hzero] at *
      omega
  next =>
    have hbits : (1#1 ++ mantissa).toNat.log2 ≤ 52 := log2_le_iff.2 (1#1 ++ mantissa).isLt
    simp only [IsBelow, totalExponent, hbias]
    omega

/-- A value that is stored keeps its place, unless that is out of the range of the format. -/
theorem isBelow_unpack_pack {k : Int} {value : UnpackedFloat} (h : IsBelow k value) (hk : -1000 ≤ k)
    (hrange : k ≤ 971) : IsBelow k (unpack Format.binary64 (pack Format.binary64 value)) := by
  cases value with
  | infinity => exact h.elim
  | notANumber => exact h.elim
  | zero sign =>
    refine isBelow_unpack_packComponents sign 0 0 (by decide) ?_
    show (0 : Int) - 1022 ≤ k
    omega
  | finite sign m e hm =>
    simp only [IsBelow, totalExponent] at h
    -- The stored exponent, which is below the one of the infinite values.
    obtain ⟨biased, hbiased⟩ : ∃ biased : Nat, (e + (Format.binary64.exponentBias : Int) +
        (Format.binary64.mantissaBitsWithoutImplicit : Int)).toNat = biased := ⟨_, rfl⟩
    have heq : biased = (e + 1023 + 52).toNat := hbiased.symm
    have hfits : ¬ 2 ^ Format.binary64.exponentBits ≤ biased + 1 := by
      show ¬ 2048 ≤ biased + 1
      omega
    simp only [pack, hbiased, if_neg hfits]
    split
    · next hnormal =>
      have hstored : (BitVec.ofNat 11 biased).toNat = biased := by
        rw [BitVec.toNat_ofNat, Nat.mod_eq_of_lt (by omega)]
      have hbits : m.log2 + 1 = 53 := hnormal
      refine isBelow_unpack_packComponents sign _ _ ?_ ?_
      · intro hones
        rw [hones] at hstored
        have hall : (-1#11 : BitVec 11).toNat = 2047 := rfl
        omega
      · rw [hstored]
        omega
    · refine isBelow_unpack_packComponents sign 0 _ (by decide) ?_
      show (0 : Int) - 1022 ≤ k
      omega

/-! ## Operations -/

theorem isBelow_toFloat (n : UInt64) : IsBelow 65 n.toFloat.toModel.unpack := by
  have hbits : n.toNat.log2 ≤ 63 := log2_le_iff.2 n.toNat_lt
  refine isBelow_unpack_pack (isBelow_normalize (k := 64) .positive ?_ (by decide)) (by decide)
    (by decide)
  simp only [totalExponent, Int.natAbs_natCast]
  omega

theorem isBelow_toFloat32 (n : UInt32) : IsBelow 33 n.toFloat.toModel.unpack := by
  have hbits : n.toNat.log2 ≤ 31 := log2_le_iff.2 n.toNat_lt
  refine isBelow_unpack_pack (isBelow_normalize (k := 32) .positive ?_ (by decide)) (by decide)
    (by decide)
  simp only [totalExponent, Int.natAbs_natCast]
  omega

theorem natAbs_apply_add_le (s t : UnpackedFloat.Sign) (m n : Nat) :
    (s.apply m + t.apply n).natAbs ≤ m + n := by
  cases s <;> cases t <;> simp only [UnpackedFloat.Sign.apply] <;> omega

theorem isBelow_add {x y : Float} {k : Int} (hx : IsBelow k x.toModel.unpack)
    (hy : IsBelow k y.toModel.unpack) (hk : -1000 ≤ k) (hrange : k + 2 ≤ 971) :
    IsBelow (k + 2) (x + y).toModel.unpack := by
  refine isBelow_unpack_pack ?_ (by omega) hrange
  generalize x.toModel.unpack = first at hx
  generalize y.toModel.unpack = second at hy
  match first, second with
  | .infinity _, _ => exact hx.elim
  | .notANumber, _ => exact hx.elim
  | _, .infinity _ => exact hy.elim
  | _, .notANumber => exact hy.elim
  | .zero s, .zero t =>
    rw [UnpackedFloat.add]
    split <;> trivial
  | .zero _, .finite .. => exact hy.mono (by omega)
  | .finite .., .zero _ => exact hx.mono (by omega)
  | .finite s₁ m₁ e₁ _, .finite s₂ m₂ e₂ _ =>
    -- Both mantissas are brought to the smaller exponent and added there.
    rw [UnpackedFloat.add]
    rw [show k + 2 = k + 1 + 1 by omega]
    refine isBelow_normalize .positive ?_ (by omega)
    have hs₁ := log2_shiftLeft_le m₁ (e₁ - min e₁ e₂).toNat
    have hs₂ := log2_shiftLeft_le m₂ (e₂ - min e₁ e₂).toNat
    have hsum := log2_add_le (m₁ <<< (e₁ - min e₁ e₂).toNat) (m₂ <<< (e₂ - min e₁ e₂).toNat)
    have hsigned := log2_mono (natAbs_apply_add_le s₁ s₂ (m₁ <<< (e₁ - min e₁ e₂).toNat)
      (m₂ <<< (e₂ - min e₁ e₂).toNat))
    simp only [IsBelow, totalExponent] at *
    omega

theorem isBelow_mul {x y : Float} {j k : Int} (hx : IsBelow j x.toModel.unpack)
    (hy : IsBelow k y.toModel.unpack) (hjk : -1000 ≤ j + k) (hrange : j + k + 1 ≤ 971) :
    IsBelow (j + k + 1) (x * y).toModel.unpack := by
  refine isBelow_unpack_pack ?_ (by omega) hrange
  generalize x.toModel.unpack = first at hx
  generalize y.toModel.unpack = second at hy
  match first, second with
  | .infinity _, _ => exact hx.elim
  | .notANumber, _ => exact hx.elim
  | _, .infinity _ => exact hy.elim
  | _, .notANumber => exact hy.elim
  | .zero s, .zero t => trivial
  | .zero s, .finite .. => trivial
  | .finite .., .zero _ => trivial
  | .finite s₁ m₁ e₁ _, .finite s₂ m₂ e₂ _ =>
    refine isBelow_roundWithAccuracy _ _ ?_ hjk
    have hproduct := log2_mul_le m₁ m₂
    simp only [IsBelow, totalExponent] at *
    omega

theorem isBelow_div {x y : Float} {k e : Int} {m : Nat} {sign : UnpackedFloat.Sign} {hm : 0 < m}
    (hx : IsBelow k x.toModel.unpack) (hy : y.toModel.unpack = .finite sign m e hm)
    (hk : -1000 ≤ k - e) (hrange : k - e + 1 ≤ 971) :
    IsBelow (k - e + 1) (x / y).toModel.unpack := by
  refine isBelow_unpack_pack ?_ (by omega) hrange
  rw [hy]
  generalize x.toModel.unpack = first at hx
  match first with
  | .infinity _ => exact hx.elim
  | .notANumber => exact hx.elim
  | .zero s => trivial
  | .finite s₁ m₁ e₁ _ =>
    refine isBelow_roundWithAccuracy _ _ ?_ hk
    have htarget : min (e₁ - e) (Format.binary64.targetExponent
        (totalExponent m₁ e₁ - totalExponent m e)) ≤ e₁ - e := Int.min_le_left _ _
    generalize min (e₁ - e) (Format.binary64.targetExponent
        (totalExponent m₁ e₁ - totalExponent m e)) = target at htarget ⊢
    have hshift := log2_shiftLeft_le m₁ (e₁ - e - target).toNat
    have hquotient := log2_mono (Nat.div_le_self (m₁ <<< (e₁ - e - target).toNat) m)
    simp only [IsBelow, totalExponent] at *
    omega

end Machine

/-- A time in milliseconds is a number, however long it is. -/
theorem TimeSpan.isFinite_milliseconds (span : TimeSpan) :
    span.milliseconds.toModel.unpack.isFinite = true := by
  have hbillion : (1000000000 : Float).toModel.unpack =
    .finite .positive 8388608000000000 (-23) (by decide) := rfl
  have hthousand : Machine.IsBelow 10 (1000 : Float).toModel.unpack := by
    show (_ : Int) ≤ 10
    decide
  have hfraction := Machine.isBelow_div (Machine.isBelow_toFloat32 span.nanoseconds) hbillion
    (by decide) (by decide)
  have hseconds := Machine.isBelow_add (Machine.isBelow_toFloat span.seconds)
    (hfraction.mono (by decide)) (by decide) (by decide)
  exact Machine.isFinite_of_isBelow (Machine.isBelow_mul hseconds hthousand (by decide) (by decide))

end PenPlot
