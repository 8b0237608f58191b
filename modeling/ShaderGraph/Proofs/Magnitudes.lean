import Mathlib
import ShaderGraph.Proofs.Compositions

/-!
# Magnitudes of floats

Which results of arithmetic are finite. A value is rounded to a finite float if it is below the largest
one, so a finite float may be halved, and it may be scaled by a factor below one. A sum of squares is
finite only if its terms are.
-/

namespace ShaderGraph.Magnitude

open Float.Model (Format UnpackedFloat totalExponent)
open Float.Model.UnpackedFloat

variable {f g : UnpackedFloat} {n k : Nat}

/-! ## Packing -/

/-- A float with a value that can be packed. -/
def Packable : UnpackedFloat → Prop
  | .finite _ _ e _ => e ≤ 104
  | .zero _ => True
  | .infinity _ | .notANumber => False

theorem isFinite_unpack (b : BitVec Format.binary32.numBits) :
    (unpack .binary32 b).isFinite = true ↔ unpackExponent b ≠ -1#8 := by
  unfold unpack
  dsimp only
  split
  · next h => 
    split <;> simp [UnpackedFloat.isFinite, h]
  · next h =>
    simp only [h, ne_eq, not_false_eq_true, iff_true]
    split
    · split <;> rfl
    · rfl

theorem finite_pack (h : Packable f) : (Float32.Model.pack f).isFinite := by
  refine (isFinite_unpack _).mpr ?_
  show unpackExponent (UnpackedFloat.pack .binary32 f) ≠ -1#8
  cases f with
  | infinity | notANumber => cases h
  | zero s => simp [UnpackedFloat.pack, packedZero]
  | finite s m e hm =>
    have he : e ≤ 104 := h
    have hbias : (Format.binary32.exponentBias : Int) = 127 := rfl
    simp only [UnpackedFloat.pack, hbias]
    rw [if_neg (by simp; omega)]
    split
    · simp only [unpackExponent_packComponents, ne_eq, ← BitVec.toNat_inj]
      simp
      omega
    · simp

/-- The values that a float can have. -/
def Regular : UnpackedFloat → Prop
  | .finite _ m e _ => m < 2 ^ 24 ∧ -149 ≤ e ∧ e ≤ 104
  | .zero _ => True
  | .infinity _ | .notANumber => False

theorem regular_unpack {b : BitVec Format.binary32.numBits} (h : (unpack .binary32 b).isFinite) :
    Regular (unpack .binary32 b) := by
  have hexp := (isFinite_unpack b).mp h
  have hbias : ((Format.binary32.exponentBias : Nat) : Int) = 127 := rfl
  have hlt : (unpackExponent b).toNat < 256 := BitVec.isLt _
  have hne : (unpackExponent b).toNat ≠ 255 := fun heq => hexp (BitVec.eq_of_toNat_eq heq)
  have hm : (unpackMantissa b).toNat < 2 ^ 23 := BitVec.isLt _
  unfold UnpackedFloat.unpack
  dsimp only
  rw [if_neg hexp]
  split
  · next hzero =>
    have hexp : (unpackExponent b).toNat = 0 := congrArg BitVec.toNat hzero
    split
    · trivial
    · simp only [Regular, hbias]
      omega
  · next hzero =>
    have hpos : (unpackExponent b).toNat ≠ 0 := fun heq => hzero (BitVec.eq_of_toNat_eq heq)
    have hfull : (1#1 ++ unpackMantissa b).toNat < 2 ^ 24 := BitVec.isLt _
    simp only [Regular, hbias]
    omega

/-! ## Rounding -/

theorem mantissa_shift (em : ExtendedMantissa) (k : Nat) : (em >>> k).mantissa = em.mantissa / 2 ^ k := by
  induction k with
  | zero => exact (Nat.div_one _).symm
  | succ k ih =>
    show (em >>> k).mantissa / 2 = _
    rw [ih, Nat.div_div_eq_div_mul, Nat.pow_succ]

theorem mantissa_ofMantissaAndAccuracy (m : Nat) (a : Accuracy) :
    (ExtendedMantissa.ofMantissaAndAccuracy m a).mantissa = m := by
  cases a with
  | exact => rfl
  | inexact o => cases o <;> rfl

theorem roundedMantissa_le (em : ExtendedMantissa) : em.roundedMantissa ≤ em.mantissa + 1 := by
  obtain ⟨m, r, s⟩ := em
  have hmod := Nat.mod_lt m (show 2 > 0 by decide)
  cases r <;> cases s <;>
    simp only [ExtendedMantissa.roundedMantissa, ExtendedMantissa.accuracy, Accuracy.roundToNearestEven] <;> omega

theorem targetExponent_eq (t : Int) : Format.binary32.targetExponent t = max (t - 24) (-149) := rfl

theorem log2_le (h : n < 2 ^ (k + 1)) : n.log2 ≤ k := by
  by_cases hn : n = 0
  · simp [hn]
  · exact Nat.le_of_lt_succ ((Nat.log2_lt hn).mpr h)

/-- A value below the largest float is rounded to a finite one. -/
theorem packable_roundWithAccuracy (s : Sign) {m : Nat} {e : Int} (a : Accuracy) (he : e + k = 104)
    (hm : m < (2 ^ 24 - 1) * 2 ^ k) : Packable (roundWithAccuracy .binary32 s m e a) := by
  have hbits : m.log2 ≤ 23 + k := by
    refine log2_le (Nat.lt_of_lt_of_le hm ?_)
    rw [show 23 + k + 1 = 24 + k by omega, Nat.pow_add]
    exact Nat.mul_le_mul_right _ (by decide)
  -- the first shift leaves 24 bits, and all of them only at the greatest exponent
  generalize hj : (Format.binary32.targetExponent (totalExponent m e) - e).toNat = j
  rw [targetExponent_eq, totalExponent] at hj
  have hshifted : m / 2 ^ j < 2 ^ 24 := by
    rw [Nat.div_lt_iff_lt_mul (Nat.two_pow_pos j), ← Nat.pow_add]
    exact Nat.lt_log2_self.trans_le (Nat.pow_le_pow_right (by decide) (by omega))
  have hgreatest (h : j = k) : m / 2 ^ j < 2 ^ 24 - 1 := by
    rw [h]
    exact (Nat.div_lt_iff_lt_mul (Nat.two_pow_pos k)).mpr hm
  unfold roundWithAccuracy shiftToTargetExponent shiftToExponent
  dsimp only
  rw [targetExponent_eq, totalExponent, hj]
  generalize hr : (ExtendedMantissa.ofMantissaAndAccuracy m a >>> j).roundedMantissa = r
  have hround : r ≤ m / 2 ^ j + 1 := by
    have h := roundedMantissa_le (ExtendedMantissa.ofMantissaAndAccuracy m a >>> j)
    rwa [mantissa_shift, mantissa_ofMantissaAndAccuracy, hr] at h
  split
  · trivial
  · simp only [Packable, targetExponent_eq, totalExponent]
    by_cases h : j = k
    · have hlog : r.log2 ≤ 23 := log2_le (by have := hgreatest h; omega)
      omega
    · have hlog : r.log2 ≤ 24 := log2_le (by omega)
      omega

/-! ## Arithmetic -/

variable {x : Float32}

theorem regular_of_finite (h : Number.finite x) : Regular x.toModel.unpack := regular_unpack h

theorem finite_of_acceptable (h : Shape.acceptable x) : Number.finite x := by
  obtain ⟨hpos, hinf⟩ := Bool.and_eq_true_iff.mp h
  have hpos : Float32.lt 0 x := of_decide_eq_true hpos
  have hpos : UnpackedFloat.lt (Float32.toModel 0).unpack x.toModel.unpack := of_decide_eq_true hpos
  have hinf : (!x.toModel.unpack.isInf) = true := hinf
  show x.toModel.unpack.isFinite
  cases hu : x.toModel.unpack with
  | infinity s => simp [hu, UnpackedFloat.isInf] at hinf
  | notANumber =>
    rw [hu] at hpos
    exact absurd hpos (by decide)
  | zero | finite => rfl

theorem finite_half (h : Number.finite x) : Number.finite (x / 2) := by
  have htwo : (Float32.toModel 2).unpack = .finite .positive (2 ^ 23) (-22) (by decide) := rfl
  have hreg := regular_of_finite h
  show (Float32.Model.pack (.div .binary32 x.toModel.unpack (Float32.toModel 2).unpack)).isFinite
  refine finite_pack ?_
  rw [htwo]
  cases hu : x.toModel.unpack with
  | infinity | notANumber => simp [hu, Regular] at hreg
  | zero => trivial
  | finite s m e hm =>
    rw [hu] at hreg
    obtain ⟨hlt, hlow, hhigh⟩ := hreg
    have hbits : m.log2 ≤ 23 := log2_le hlt
    have htotal : totalExponent (2 ^ 23) (-22) = 2 := by decide
    simp only [UnpackedFloat.div, divCore, htotal, targetExponent_eq]
    generalize ht : min (e - -22) (max (totalExponent m e - 2 - 24) (-149)) = t
    rw [totalExponent] at ht
    refine packable_roundWithAccuracy (k := (104 - t).toNat) _ _ (by omega) ?_
    rw [Nat.div_lt_iff_lt_mul (by decide), Nat.shiftLeft_eq, Nat.mul_assoc, ← Nat.pow_add]
    have hshift : (e - -22 - t).toNat < (104 - t).toNat + 23 := by omega
    calc m * 2 ^ (e - -22 - t).toNat
      _ ≤ (2 ^ 24 - 1) * 2 ^ (e - -22 - t).toNat := Nat.mul_le_mul_right _ (Nat.le_sub_one_of_lt hlt)
      _ < (2 ^ 24 - 1) * 2 ^ ((104 - t).toNat + 23) :=
        Nat.mul_lt_mul_of_pos_left (Nat.pow_lt_pow_right (by decide) hshift) (by decide)

theorem finite_scaled {c : Float32} {s : Sign} (hn : 0 < n) (hc : c.toModel.unpack = .finite s n (-24) hn)
    (h : Number.finite x) : Number.finite (c * x) := by
  have hreg := regular_of_finite h
  have hfactor : Regular c.toModel.unpack := regular_of_finite (show c.toModel.unpack.isFinite by rw [hc]; rfl)
  rw [hc] at hfactor
  show (Float32.Model.pack (.mul .binary32 c.toModel.unpack x.toModel.unpack)).isFinite
  refine finite_pack ?_
  rw [hc]
  cases hu : x.toModel.unpack with
  | infinity | notANumber => simp [hu, Regular] at hreg
  | zero => trivial
  | finite s' m e hm =>
    rw [hu] at hreg
    obtain ⟨hlt, -, hhigh⟩ := hreg
    refine packable_roundWithAccuracy (k := (128 - e).toNat) _ _ (by omega) ?_
    calc n * m
      _ ≤ (2 ^ 24 - 1) * m := Nat.mul_le_mul_right _ (Nat.le_sub_one_of_lt hfactor.1)
      _ < (2 ^ 24 - 1) * 2 ^ 24 := Nat.mul_lt_mul_of_pos_left hlt (by decide)
      _ ≤ (2 ^ 24 - 1) * 2 ^ (128 - e).toNat :=
        Nat.mul_le_mul_left _ (Nat.pow_le_pow_right (by decide) (by omega))

theorem isFinite_of_pack (h : (Float32.Model.pack f).isFinite) : f.isFinite := by
  cases f with
  | infinity s => cases s <;> exact absurd h (by decide)
  | notANumber => exact absurd h (by decide)
  | zero | finite => rfl

theorem isFinite_of_add (h : (UnpackedFloat.add .binary32 f g).isFinite) : f.isFinite ∧ g.isFinite := by
  cases f with
  | notANumber => cases h
  | infinity s =>
    cases g with
    | infinity t => cases s <;> cases t <;> cases h
    | _ => cases h
  | zero | finite =>
    cases g with
    | infinity | notANumber => cases h
    | zero | finite => exact ⟨rfl, rfl⟩

theorem isFinite_of_mul (h : (UnpackedFloat.mul .binary32 f g).isFinite) : f.isFinite ∧ g.isFinite := by
  cases f with
  | infinity | notANumber => cases g <;> cases h
  | zero | finite =>
    cases g with
    | infinity | notANumber => cases h
    | zero | finite => exact ⟨rfl, rfl⟩

theorem finite_of_square {a : Point} (h : Number.finite a.square) : Number.finite a.x ∧ Number.finite a.y := by
  obtain ⟨hx, hy⟩ := isFinite_of_add (isFinite_of_pack h)
  exact ⟨(isFinite_of_mul (isFinite_of_pack hx)).1, (isFinite_of_mul (isFinite_of_pack hy)).1⟩

end ShaderGraph.Magnitude
