import Mathlib.Algebra.Order.Field.Basic
import Mathlib.Algebra.Order.Field.Power
import Mathlib.Tactic.Linarith
import Mathlib.Tactic.Ring
import Mathlib.Tactic.FieldSimp
import ShaderGraph.Decimal.Numeral

/-!
# Rounding decimals

The size of a binary value and that of a decimal are rationals. A decimal is read as the nearest of the
finite values, and as the one with the even mantissa where two are equally near. Main statement: the
shortest decimal of a value is read as that value and as no other one.
-/

namespace ShaderGraph.Decimal

variable {v w : Float32} {n : Bool} {b c : Binary}

def Scaled.value (d : Scaled) : ℚ := d.digits * 10 ^ d.exponent

namespace Binary

/-- The size that it stands for. -/
def value (b : Binary) : ℚ := b.m * 2 ^ b.q

/-- A decimal is in the interval of the value. -/
def Takes (b : Binary) (x : ℚ) : Prop :=
  if b.m % 2 = 0 then b.lower * 2 ^ (b.q - 2) ≤ x ∧ x ≤ b.upper * 2 ^ (b.q - 2)
  else b.lower * 2 ^ (b.q - 2) < x ∧ x < b.upper * 2 ^ (b.q - 2)

variable {x : ℚ}

/-! ## The shortest decimal -/

theorem zpow_eq_div {a : ℕ} (ha : a ≠ 0) (n : ℤ) :
    (a : ℚ) ^ n = ((Nat.pow a n.toNat : ℕ) : ℚ) / ((Nat.pow a (-n).toNat : ℕ) : ℚ) := by
  have ha : (a : ℚ) ≠ 0 := Nat.cast_ne_zero.mpr ha
  simp only [Nat.pow_eq, Nat.cast_pow, ← zpow_natCast]
  rw [← zpow_sub₀ ha]
  congr 1
  omega

/-- Comparing products of integers compares the numbers. -/
theorem tens_le_twos {d y : ℕ} {p : ℤ} :
    (d * b.tens p ≤ y * b.twos p ↔ (d : ℚ) * 10 ^ p ≤ y * 2 ^ (b.q - 2)) ∧
    (y * b.twos p ≤ d * b.tens p ↔ (y : ℚ) * 2 ^ (b.q - 2) ≤ d * 10 ^ p) := by
  have hten := zpow_eq_div (a := 10) (by decide) p
  have htwo := zpow_eq_div (a := 2) (by decide) (b.q - 2)
  rw [Nat.cast_ofNat] at hten htwo
  have hneg : -(b.q - 2) = 2 - b.q := by ring
  have hpos1 : (0 : ℚ) < (Nat.pow 10 (-p).toNat : ℕ) := Nat.cast_pos.mpr (Nat.pow_pos (by decide))
  have hpos2 : (0 : ℚ) < (Nat.pow 2 (2 - b.q).toNat : ℕ) := Nat.cast_pos.mpr (Nat.pow_pos (by decide))
  rw [hten, htwo, hneg, mul_div_assoc', mul_div_assoc', div_le_div_iff₀ hpos1 hpos2,
    div_le_div_iff₀ hpos2 hpos1, tens, twos, ← Nat.cast_le (α := ℚ), ← Nat.cast_le (α := ℚ)]
  push_cast
  constructor <;> constructor <;> intro h <;> linarith

theorem readsBack_iff {d : ℕ} {p : ℤ} : b.readsBack d p = true ↔ b.Takes (d * 10 ^ p) := by
  unfold readsBack Takes
  dsimp only
  split
  · rw [Bool.and_eq_true, decide_eq_true_iff, decide_eq_true_iff, tens_le_twos.1, tens_le_twos.2]
  · rw [Bool.and_eq_true, decide_eq_true_iff, decide_eq_true_iff, ← not_le, ← not_le, tens_le_twos.1,
      tens_le_twos.2, not_le, not_le]

theorem readsBack_of_multiple {d : ℕ} {p : ℤ} (h : b.multiple? p = some d) : b.readsBack d p := by
  unfold multiple? at h
  grind

theorem readsBack_of_search {n : ℕ} {p : ℤ} {d : Scaled} (h : b.search n p = some d) :
    b.readsBack d.digits d.exponent := by
  induction n generalizing p with
  | zero => cases h
  | succ n ih =>
    rw [search] at h
    split at h
    · next hm =>
      cases h
      exact readsBack_of_multiple hm
    · exact ih h

theorem value_exact : b.exact.value = b.value := by
  unfold exact
  split
  · next hq =>
    obtain ⟨n, hn⟩ := Int.eq_ofNat_of_zero_le hq
    simp [Scaled.value, value, hn]
  · next hq =>
    obtain ⟨n, hn⟩ := Int.eq_ofNat_of_zero_le (by omega : 0 ≤ -b.q)
    have hq : b.q = -(n : ℤ) := by omega
    have hfive : (10 : ℚ) ^ n = 2 ^ n * 5 ^ n := by rw [← mul_pow]; norm_num
    have hne : (5 : ℚ) ^ n ≠ 0 := pow_ne_zero _ (by norm_num)
    simp only [Scaled.value, value, hq, neg_neg, Int.toNat_natCast, Nat.pow_eq, Nat.cast_mul, Nat.cast_pow,
      Nat.cast_ofNat, zpow_neg, zpow_natCast, hfive]
    field_simp

theorem value_eq_quarters : b.value = 4 * b.m * 2 ^ (b.q - 2) := by
  have htwo : (2 : ℚ) ^ b.q = 2 ^ (b.q - 2) * 4 := by
    rw [zpow_sub₀ (by norm_num)]
    norm_num
  rw [value, htwo]
  ring

theorem takes_value : b.Takes b.value := by
  have hpos : (0 : ℚ) < 2 ^ (b.q - 2) := zpow_pos (by norm_num) _
  have hlower : (b.lower : ℚ) ≤ 4 * b.m := by exact_mod_cast (by unfold lower; split <;> omega : b.lower ≤ 4 * b.m)
  have hupper : 4 * (b.m : ℚ) < b.upper := by exact_mod_cast (by unfold upper; omega : 4 * b.m < b.upper)
  rw [value_eq_quarters]
  unfold Takes
  split
  · exact ⟨mul_le_mul_of_nonneg_right hlower hpos.le, mul_le_mul_of_nonneg_right hupper.le hpos.le⟩
  · next hodd =>
    have hlower : (b.lower : ℚ) < 4 * b.m := by
      exact_mod_cast (by unfold lower; split <;> omega : b.lower < 4 * b.m)
    exact ⟨mul_lt_mul_of_pos_right hlower hpos, mul_lt_mul_of_pos_right hupper hpos⟩

theorem takes_shortest : b.Takes b.shortest.value := by
  unfold shortest
  cases h : b.search (b.top - min b.q 0 + 1).toNat b.top with
  | none =>
    rw [Option.getD_none, value_exact]
    exact takes_value
  | some d =>
    exact readsBack_iff.mp (readsBack_of_search h)

/-! ## Neighbours -/

/-- The sizes of single precision. -/
structure IsSingle (b : Binary) : Prop where
  lt : b.m < 2 ^ 24
  low : -149 ≤ b.q
  high : b.q ≤ 104
  normal : -149 < b.q → 2 ^ 23 ≤ b.m
  narrow : b.narrowBelow = true ↔ b.m = 2 ^ 23 ∧ -149 < b.q

/-- How far the next smaller value is. -/
def gap (b : Binary) : ℚ := if b.narrowBelow then 2 ^ (b.q - 1) else 2 ^ b.q

/-- The value as a multiple of a smaller power of two. -/
theorem value_eq_mul {p : ℤ} (h : p ≤ b.q) : b.value = ((b.m * 2 ^ (b.q - p).toNat : ℕ) : ℚ) * 2 ^ p := by
  have hpow : ((2 : ℚ) ^ (b.q - p).toNat) = 2 ^ (b.q - p) := by
    rw [← zpow_natCast, Int.toNat_of_nonneg (by omega)]
  rw [value, Nat.cast_mul, Nat.cast_pow, Nat.cast_ofNat, hpow, mul_assoc, ← zpow_add₀ (by norm_num), Int.sub_add_cancel]

theorem two_zpow_pred (q : ℤ) : (2 : ℚ) ^ q = 2 * 2 ^ (q - 1) := by
  rw [zpow_sub_one₀ (by norm_num)]
  ring

/-- No value is nearer than the neighbours. -/
theorem gap_spec (hb : b.IsSingle) (hc : c.IsSingle) (hne : c.value ≠ b.value) :
    c.value ≤ b.value - b.gap ∨ b.value + 2 ^ b.q ≤ c.value := by
  have hpos : (0 : ℚ) < 2 ^ b.q := zpow_pos (by norm_num) _
  rcases lt_or_ge c.q b.q with hlt | hle
  · left
    have hpred : (0 : ℚ) < 2 ^ (b.q - 1) := zpow_pos (by norm_num) _
    have hpow : (2 : ℚ) ^ c.q ≤ 2 ^ (b.q - 1) := zpow_le_zpow_right₀ (by norm_num) (by omega)
    have hm : (c.m : ℚ) ≤ 2 ^ 24 - 1 := by
      have hlt : (c.m : ℚ) + 1 ≤ 2 ^ 24 := by exact_mod_cast hc.lt
      linarith
    have hmax : c.value ≤ (2 ^ 24 - 1) * 2 ^ (b.q - 1) := mul_le_mul hm hpow (zpow_pos (by norm_num) _).le (by norm_num)
    have hlow := hc.low
    have hnormal := hb.normal (by omega)
    refine hmax.trans ?_
    unfold value gap
    split
    · next hnarrow =>
      rw [(hb.narrow.mp hnarrow).1, two_zpow_pred b.q]
      push_cast
      linarith
    · next hnarrow =>
      have hne : b.m ≠ 2 ^ 23 := fun heq => hnarrow (hb.narrow.mpr ⟨heq, by omega⟩)
      have hm : (2 : ℚ) ^ 23 + 1 ≤ b.m := by exact_mod_cast (by omega : 2 ^ 23 + 1 ≤ b.m)
      rw [two_zpow_pred b.q]
      nlinarith
  · rw [value_eq_mul hle] at hne ⊢
    generalize c.m * 2 ^ (c.q - b.q).toNat = n at hne ⊢
    have hgap : b.gap ≤ 2 ^ b.q := by
      unfold gap
      split
      · exact zpow_le_zpow_right₀ (by norm_num) (by omega)
      · exact le_refl _
    unfold value at hne ⊢
    rcases lt_trichotomy n b.m with hn | rfl | hn
    · left
      have hn : (n : ℚ) + 1 ≤ b.m := by exact_mod_cast hn
      nlinarith
    · exact absurd rfl hne
    · right
      have hn : (b.m : ℚ) + 1 ≤ n := by exact_mod_cast hn
      nlinarith

theorem odd_of_value {k : ℕ} {p : ℤ} (hc : c.IsSingle) (hvalue : c.value = k * 2 ^ p) (hodd : k % 2 = 1)
    (hbig : c.q < p → 2 ^ 23 ≤ k) : c.m % 2 = 1 := by
  have hpos (p : ℤ) : (0 : ℚ) < 2 ^ p := zpow_pos (by norm_num) _
  rcases lt_or_ge c.q p with hlt | hle
  · have hk : (k : ℚ) * 2 ^ p = ((k * 2 ^ (p - c.q).toNat : ℕ) : ℚ) * 2 ^ c.q :=
      value_eq_mul (b := ⟨k, p, false⟩) hlt.le
    have hm : c.m = k * 2 ^ (p - c.q).toNat := by
      have heq := hvalue.trans hk
      exact_mod_cast mul_right_cancel₀ (hpos c.q).ne' heq
    have hpow : 2 ^ 1 ≤ 2 ^ (p - c.q).toNat := Nat.pow_le_pow_right (by decide) (by omega)
    have hlow := Nat.mul_le_mul (hbig hlt) hpow
    have hhigh := hc.lt
    omega
  · rw [value_eq_mul hle] at hvalue
    have hm : c.m * 2 ^ (c.q - p).toNat = k := by exact_mod_cast mul_right_cancel₀ (hpos p).ne' hvalue
    rw [← hm, Nat.mul_mod] at hodd
    rcases Nat.mod_two_eq_zero_or_one c.m with heven | hodd'
    · simp [heven] at hodd
    · exact hodd'

theorem odd_of_neighbour (hb : b.IsSingle) (hc : c.IsSingle) (heven : b.m % 2 = 0)
    (hvalue : c.value = b.value - b.gap ∨ c.value = b.value + 2 ^ b.q) : c.m % 2 = 1 := by
  have hlow := hc.low
  rcases hvalue with hvalue | hvalue
  · unfold gap at hvalue
    split at hvalue
    · next hnarrow =>
      refine odd_of_value (k := 2 ^ 24 - 1) (p := b.q - 1) hc ?_ (by norm_num) (by norm_num)
      rw [hvalue, value, (hb.narrow.mp hnarrow).1, two_zpow_pred b.q]
      push_cast
      ring
    · next hnarrow =>
      have hm : b.m ≠ 0 := by
        intro hzero
        have hnonneg : 0 ≤ c.value := mul_nonneg (Nat.cast_nonneg _) (zpow_pos (by norm_num) _).le
        have hpos : (0 : ℚ) < 2 ^ b.q := zpow_pos (by norm_num) _
        rw [hvalue, value, hzero] at hnonneg
        push_cast at hnonneg
        linarith
      obtain ⟨k, hk⟩ := Nat.exists_eq_succ_of_ne_zero hm
      refine odd_of_value (k := k) (p := b.q) hc ?_ (by omega) fun hlt => ?_
      · rw [hvalue, value, hk]
        push_cast
        ring
      · have hnormal := hb.normal (by omega)
        have hne : b.m ≠ 2 ^ 23 := fun heq => hnarrow (hb.narrow.mpr ⟨heq, by omega⟩)
        omega
  · refine odd_of_value (k := b.m + 1) (p := b.q) hc ?_ (by omega) fun hlt => ?_
    · rw [hvalue, value]
      push_cast
      ring
    · have hnormal := hb.normal (by omega)
      omega

theorem not_lt_of_value (hb : b.IsSingle) (hc : c.IsSingle) (h : b.value = c.value) : ¬ c.q < b.q := by
  intro hlt
  rw [value_eq_mul hlt.le, value] at h
  have hpos : (0 : ℚ) < 2 ^ c.q := zpow_pos (by norm_num) _
  have hm : b.m * 2 ^ (b.q - c.q).toNat = c.m := by exact_mod_cast mul_right_cancel₀ hpos.ne' h
  have hpow : 2 ^ 1 ≤ 2 ^ (b.q - c.q).toNat := Nat.pow_le_pow_right (by decide) (by omega)
  have hlow := hc.low
  have hle := Nat.mul_le_mul (hb.normal (by omega)) hpow
  have hhigh := hc.lt
  omega

/-- In single precision the size tells the mantissa and the exponent. -/
theorem eq_of_value (hb : b.IsSingle) (hc : c.IsSingle) (h : b.value = c.value) : b.m = c.m ∧ b.q = c.q := by
  have hq : b.q = c.q := le_antisymm (not_lt.mp (not_lt_of_value hb hc h)) (not_lt.mp (not_lt_of_value hc hb h.symm))
  have hpos : (0 : ℚ) < 2 ^ c.q := zpow_pos (by norm_num) _
  rw [value, value, hq] at h
  exact ⟨by exact_mod_cast mul_right_cancel₀ hpos.ne' h, hq⟩

/-! ## The nearest value -/

theorem two_zpow_quarter (q : ℤ) : (2 : ℚ) ^ (q - 1) = 2 * 2 ^ (q - 2) := by
  rw [two_zpow_pred (q - 1), sub_sub]
  rfl

theorem lower_ge (b : Binary) : b.value - b.gap / 2 ≤ b.lower * 2 ^ (b.q - 2) := by
  have hpos : (0 : ℚ) < 2 ^ (b.q - 2) := zpow_pos (by norm_num) _
  have hsub (k : ℕ) : (4 * b.m : ℚ) * 2 ^ (b.q - 2) ≤ (((4 * b.m - k : ℕ) : ℚ) + k) * 2 ^ (b.q - 2) :=
    mul_le_mul_of_nonneg_right (by exact_mod_cast le_tsub_add) hpos.le
  rw [value, gap, lower, two_zpow_pred b.q, two_zpow_quarter]
  split
  · have hsub := hsub 1
    rw [Nat.cast_one] at hsub
    linarith
  · have hsub := hsub 2
    rw [Nat.cast_ofNat] at hsub
    linarith

theorem upper_eq (b : Binary) : (b.upper : ℚ) * 2 ^ (b.q - 2) = b.value + 2 ^ b.q / 2 := by
  rw [value, upper, two_zpow_pred b.q, two_zpow_quarter]
  push_cast
  ring

theorem gap_pos (b : Binary) : 0 < b.gap := by
  unfold gap
  split <;> exact zpow_pos (by norm_num) _

/-- What is in the interval is nearest to the value. If another one is as near, that is a neighbour, and the
mantissa is even. -/
theorem nearest (hb : b.IsSingle) (hc : c.IsSingle) (hx : b.Takes x) (hne : c.value ≠ b.value) :
    |b.value - x| ≤ |c.value - x| ∧ (|c.value - x| = |b.value - x| →
      b.m % 2 = 0 ∧ (c.value = b.value - b.gap ∨ c.value = b.value + 2 ^ b.q)) := by
  have hlower := lower_ge b
  have hupper := upper_eq b
  have hgap := gap_pos b
  have hpos : (0 : ℚ) < 2 ^ b.q := zpow_pos (by norm_num) _
  unfold Takes at hx
  split at hx
  · next heven =>
    obtain ⟨hlo, hhi⟩ := hx
    rcases gap_spec hb hc hne with hle | hle
    · rw [abs_of_neg (by linarith : c.value - x < 0)]
      refine ⟨abs_le.mpr ⟨by linarith, by linarith⟩, fun htie => ⟨heven, .inl ?_⟩⟩
      rcases abs_cases (b.value - x) with ⟨habs, -⟩ | ⟨habs, -⟩ <;> rw [habs] at htie
      · linarith
      · exact absurd (by linarith) hne
    · rw [abs_of_pos (by linarith : 0 < c.value - x)]
      refine ⟨abs_le.mpr ⟨by linarith, by linarith⟩, fun htie => ⟨heven, .inr ?_⟩⟩
      rcases abs_cases (b.value - x) with ⟨habs, -⟩ | ⟨habs, -⟩ <;> rw [habs] at htie
      · exact absurd (by linarith) hne
      · linarith
  · -- the ends do not belong to the interval, so nothing is as near
    obtain ⟨hlo, hhi⟩ := hx
    have hlt : |b.value - x| < |c.value - x| := by
      rcases gap_spec hb hc hne with hle | hle
      · rw [abs_of_neg (by linarith : c.value - x < 0)]
        exact abs_lt.mpr ⟨by linarith, by linarith⟩
      · rw [abs_of_pos (by linarith : 0 < c.value - x)]
        exact abs_lt.mpr ⟨by linarith, by linarith⟩
    exact ⟨hlt.le, fun htie => absurd htie hlt.ne'⟩

/-- The first decimal that is too large for a value. -/
def limit : ℚ := (2 ^ 25 - 1) * 2 ^ 103

theorem lt_limit (hb : b.IsSingle) (hx : b.Takes x) : x < limit := by
  have hpow : (2 : ℚ) ^ (b.q - 2) ≤ 2 ^ (102 : ℤ) := zpow_le_zpow_right₀ (by norm_num) (by have := hb.high; omega)
  have hlimit : limit = (2 ^ 26 - 2) * 2 ^ (102 : ℤ) := by norm_num [limit]
  have hle {k : ℚ} (hk : (b.upper : ℚ) ≤ k) : b.upper * 2 ^ (b.q - 2) ≤ k * 2 ^ (102 : ℤ) :=
    mul_le_mul hk hpow (zpow_pos (by norm_num) _).le ((Nat.cast_nonneg _).trans hk)
  have hlt := hb.lt
  unfold Takes at hx
  rw [hlimit]
  split at hx
  · next heven =>
    have hm : (b.upper : ℚ) ≤ 2 ^ 26 - 6 := by
      rw [le_sub_iff_add_le]
      exact_mod_cast (by unfold upper; omega : b.upper + 6 ≤ 2 ^ 26)
    exact (hx.2.trans (hle hm)).trans_lt (by norm_num)
  · have hm : (b.upper : ℚ) ≤ 2 ^ 26 - 2 := by
      rw [le_sub_iff_add_le]
      exact_mod_cast (by unfold upper; omega : b.upper + 2 ≤ 2 ^ 26)
    exact hx.2.trans_le (hle hm)

end Binary

/-! ## Reading -/

/-- Reading a decimal of a sign and a size gives the value: it has the sign, no finite value is nearer, and if
another one is as near, this has the even mantissa. -/
def Reads (negative : Bool) (x : ℚ) (v : Float32) : Prop :=
  x < Binary.limit ∧ ∃ b, readSingle v = .finite negative b ∧ ∀ w n c, readSingle w = .finite n c →
    |b.value - x| ≤ |c.value - x| ∧ (|c.value - x| = |b.value - x| → c.value ≠ b.value → b.m % 2 = 0)

theorem readSingle_cases (h : readSingle v = .finite n b) :
    ∃ fraction exponent : ℕ, fraction < 2 ^ 23 ∧ exponent < 255 ∧
      v.toBits.toNat = n.toNat * 2 ^ 31 + exponent * 2 ^ 23 + fraction ∧
      (exponent = 0 ∧ b = ⟨fraction, -149, false⟩ ∨
        0 < exponent ∧ b = ⟨fraction + 2 ^ 23, exponent - 150, fraction == 0 && exponent > 1⟩) := by
  have hlt : v.toBits.toNat < 2 ^ 32 := v.toBits.toNat_lt
  simp only [readSingle, Reading.ofBits, Nat.pow_eq] at h
  generalize v.toBits.toNat = bits at h hlt
  refine ⟨bits % 2 ^ 23, bits / 2 ^ 23 % 2 ^ 8, Nat.mod_lt _ (by decide), ?_⟩
  have hsign (hn : (bits / 2 ^ 31 % 2 == 1) = n) :
      bits = n.toNat * 2 ^ 31 + bits / 2 ^ 23 % 2 ^ 8 * 2 ^ 23 + bits % 2 ^ 23 := by
    cases n <;> simp at hn ⊢ <;> omega
  split at h
  · split at h <;> cases h
  · split at h
    · next hzero =>
      injection h with hn hb
      refine ⟨by omega, hsign hn, .inl ⟨hzero, ?_⟩⟩
      rw [← hb]
      rfl
    · next hzero =>
      injection h with hn hb
      refine ⟨by omega, hsign hn, .inr ⟨Nat.pos_of_ne_zero hzero, ?_⟩⟩
      rw [← hb]
      rfl

theorem readSingle_finite (h : readSingle v = .finite n b) : b.IsSingle := by
  obtain ⟨fraction, exponent, hfraction, hexponent, -, ⟨-, rfl⟩ | ⟨hpos, rfl⟩⟩ := readSingle_cases h
  · exact ⟨by dsimp only; omega, le_refl _, by simp, by simp, by simp⟩
  · exact ⟨by dsimp only; omega, by dsimp only; omega, by dsimp only; omega, by simp, by simp; omega⟩

theorem eq_of_readSingle (hv : readSingle v = .finite n b) (hw : readSingle w = .finite n c) (hm : b.m = c.m)
    (hq : b.q = c.q) : v = w := by
  obtain ⟨f, e, hf, he, hbits, hb⟩ := readSingle_cases hv
  obtain ⟨f', e', hf', he', hbits', hc⟩ := readSingle_cases hw
  have hnat : v.toBits.toNat = w.toBits.toNat := by
    rcases hb with ⟨rfl, rfl⟩ | ⟨hpos, rfl⟩ <;> rcases hc with ⟨rfl, rfl⟩ | ⟨hpos', rfl⟩ <;>
      dsimp only at hm hq <;> omega
  obtain ⟨⟨x, hx⟩⟩ := v
  obtain ⟨⟨y, hy⟩⟩ := w
  obtain rfl : x = y := UInt32.toNat_inj.mp hnat
  rfl

/-- The shortest decimal of a value is read as the value only. -/
theorem reads_shortest (h : readSingle v = .finite n b) : Reads n b.shortest.value w ↔ w = v := by
  have hb := readSingle_finite h
  have hx := b.takes_shortest
  constructor
  · rintro ⟨-, c, hw, hnearest⟩
    have hc := readSingle_finite hw
    by_cases hne : c.value = b.value
    · obtain ⟨hm, hq⟩ := Binary.eq_of_value hc hb hne
      exact eq_of_readSingle hw h hm hq
    · -- both are as near, so they are neighbours with even mantissas
      obtain ⟨hle, htie⟩ := Binary.nearest hb hc hx hne
      obtain ⟨hle', htie'⟩ := hnearest v n b h
      obtain ⟨heven, hneighbour⟩ := htie (le_antisymm hle' hle)
      have hodd := Binary.odd_of_neighbour hb hc heven hneighbour
      rw [htie' (le_antisymm hle hle') (Ne.symm hne)] at hodd
      cases hodd
  · rintro rfl
    refine ⟨Binary.lt_limit hb hx, b, h, fun u n c hu => ?_⟩
    by_cases hne : c.value = b.value
    · rw [hne]
      exact ⟨le_refl _, fun _ h => absurd rfl h⟩
    · obtain ⟨hle, htie⟩ := Binary.nearest hb (readSingle_finite hu) hx hne
      exact ⟨hle, fun h _ => (htie h).1⟩

end ShaderGraph.Decimal
