import Mathlib.Data.Nat.Digits.Defs
import ShaderGraph.Glsl.Literal
import ShaderGraph.Glsl.NameHash

/-!
# Hashes that differ

Mixing a word loses nothing: each of its rounds can be undone. A hash therefore tells apart seeds, and
byte strings of one length that differ in one block. Strings of at most one block are filled up with zero
bytes, so those without such bytes are told apart whatever their lengths.
-/

namespace ShaderGraph.Glsl

open Function List

variable {a b : List UInt8}

/-! ## Mixing -/

theorem xor_shiftRight_injective {k : UInt64} (hk : 0 < k.toNat % 64) : Injective fun x : UInt64 => x ^^^ (x >>> k) := by
  intro x y h
  -- The difference of the two is its own shift, so it is zero.
  have hshift : x ^^^ y = (x ^^^ y) >>> k := by
    have hzero := UInt64.xor_eq_zero_iff.mpr h
    rw [UInt64.shiftRight_xor, ← UInt64.xor_eq_zero_iff, ← hzero]
    dsimp only
    ac_rfl
  have hnat := congrArg UInt64.toNat hshift
  rw [UInt64.toNat_shiftRight, Nat.shiftRight_eq_div_pow] at hnat
  refine UInt64.xor_eq_zero_iff.mp (UInt64.toNat_inj.mp (?_ : _ = 0))
  by_contra hne
  exact absurd hnat (Nat.div_lt_self (Nat.pos_of_ne_zero hne) (Nat.one_lt_two_pow hk.ne')).ne'

theorem mul_injective {c d : UInt64} (h : c * d = 1) : Injective fun x : UInt64 => x * c := by
  intro x y hxy
  have := congrArg (· * d) hxy
  simpa only [UInt64.mul_assoc, h, UInt64.mul_one] using this

theorem stir_injective : Injective stir := by
  have h₁ := xor_shiftRight_injective (k := 30) (by decide)
  have h₂ := mul_injective (c := 0xbf58476d1ce4e5b9) (d := 0x96de1b173f119089) (by decide)
  have h₃ := xor_shiftRight_injective (k := 27) (by decide)
  have h₄ := mul_injective (c := 0x94d049bb133111eb) (d := 0x319642b2d24d8ec3) (by decide)
  have h₅ := xor_shiftRight_injective (k := 31) (by decide)
  exact h₅.comp (h₄.comp (h₃.comp (h₂.comp h₁)))

/-! ## Words -/

theorem lt_of_mem_bytes : ∀ d ∈ a.map UInt8.toNat, d < 256 := by
  intro d hd
  obtain ⟨x, -, rfl⟩ := mem_map.mp hd
  exact x.toNat_lt

theorem toNat_wordOf (h : a.length ≤ 8) : (wordOf a).toNat = Nat.ofDigits 256 (a.map UInt8.toNat) := by
  induction a with
  | nil => rfl
  | cons x a ih =>
    have ha : a.length < 8 := h
    have hlt : (wordOf a).toNat < 256 ^ a.length := by
      rw [ih ha.le]
      exact (Nat.ofDigits_lt_base_pow_length (by decide) lt_of_mem_bytes).trans_eq (by rw [length_map])
    have hle : 256 ^ a.length * 256 ≤ 2 ^ 64 := by
      rw [← Nat.pow_succ]
      exact (Nat.pow_le_pow_right (by decide) ha).trans (by decide)
    have hfit : (wordOf a).toNat <<< 8 < 2 ^ 64 := by
      rw [Nat.shiftLeft_eq]
      omega
    rw [wordOf, UInt64.toNat_or, UInt64.toNat_shiftLeft, UInt8.toNat_toUInt64,
      show (8 : UInt64).toNat % 64 = 8 from rfl, Nat.mod_eq_of_lt hfit, Nat.or_comm,
      ← Nat.shiftLeft_add_eq_or_of_lt x.toNat_lt, Nat.shiftLeft_eq, map_cons, Nat.ofDigits_cons, ih ha.le]
    omega

theorem map_toNat_inj (h : a.map UInt8.toNat = b.map UInt8.toNat) : a = b :=
  map_inj_right (fun _ _ => UInt8.toNat_inj.mp) |>.mp h

theorem wordOf_inj_of_length (hlen : a.length = b.length) (ha : a.length ≤ 8) (h : wordOf a = wordOf b) : a = b := by
  have h := congrArg UInt64.toNat h
  rw [toNat_wordOf ha, toNat_wordOf (hlen ▸ ha)] at h
  exact map_toNat_inj (Nat.ofDigits_inj_of_len_eq (by decide) (by simpa using hlen) lt_of_mem_bytes lt_of_mem_bytes h)

/-- A byte string of one block at most, in which no byte can be taken for one that was filled in. -/
structure Brief (a : List UInt8) : Prop where
  ne_nil : a ≠ []
  length : a.length ≤ 8
  nonzero : 0 ∉ a

theorem Brief.digits (h : Brief a) : Nat.digits 256 (wordOf a).toNat = a.map UInt8.toNat := by
  rw [toNat_wordOf h.length]
  refine Nat.digits_ofDigits 256 (by decide) _ lt_of_mem_bytes fun hne hlast => h.nonzero ?_
  rw [getLast_map] at hlast
  have hzero : a.getLast h.ne_nil = 0 := UInt8.toNat_inj.mp hlast
  exact hzero ▸ getLast_mem h.ne_nil

theorem Brief.wordOf_inj (ha : Brief a) (hb : Brief b) (h : wordOf a = wordOf b) : a = b :=
  map_toNat_inj (by rw [← ha.digits, ← hb.digits, h])

/-! ## Blocks -/

theorem stir_xor_injective (w : UInt64) : Injective fun seed => stir (seed ^^^ w) :=
  stir_injective.comp fun _ _ => (UInt64.xor_left_inj w).mp

theorem stir_xor_inj {seed v w : UInt64} (h : stir (seed ^^^ v) = stir (seed ^^^ w)) : v = w :=
  (UInt64.xor_right_inj seed).mp (stir_injective h)

/-- The first block goes into the seed of what follows it. -/
theorem hashBytes_block (h : a ≠ []) :
    hashBytes a = hashBytes (a.drop 8) ∘ fun seed => stir (seed ^^^ wordOf (a.take 8)) := by
  rcases a with _ | ⟨_, _ | ⟨_, _ | ⟨_, _ | ⟨_, _ | ⟨_, _ | ⟨_, _ | ⟨_, _ | ⟨_, rest⟩⟩⟩⟩⟩⟩⟩⟩
  · exact absurd rfl h
  all_goals rfl

theorem hashBytes_short (hne : a ≠ []) (h : a.length ≤ 8) (seed : UInt64) :
    hashBytes a seed = stir (seed ^^^ wordOf a) := by
  rw [hashBytes_block hne, drop_of_length_le h, take_of_length_le h]
  rfl

theorem hashBytes_injective (a : List UInt8) : Injective (hashBytes a) := by
  by_cases h : a = []
  · subst h
    exact injective_id
  · rw [hashBytes_block h]
    exact (hashBytes_injective (a.drop 8)).comp (stir_xor_injective _)
termination_by a.length
decreasing_by
  have := length_pos_iff.mpr h
  rw [length_drop]
  omega

/-- Whole blocks go into the seed of what follows them. -/
theorem hashBytes_append {p : List UInt8} (h : 8 ∣ p.length) (a : List UInt8) (seed : UInt64) :
    hashBytes (p ++ a) seed = hashBytes a (hashBytes p seed) := by
  obtain ⟨k, hk⟩ := h
  induction k generalizing p seed with
  | zero =>
    rw [length_eq_zero_iff.mp hk]
    rfl
  | succ k ih =>
    have hle : 8 ≤ p.length := by omega
    have hne : p ≠ [] := length_pos_iff.mp (by omega)
    rw [hashBytes_block hne, hashBytes_block (append_ne_nil_of_left_ne_nil hne a), drop_append_of_le_length hle,
      take_append_of_le_length hle]
    exact ih _ (by rw [length_drop]; omega)

/-- What follows the two is the same after their first blocks, and of these the words differ. -/
theorem hashBytes_first_ne (hlen : a.length = b.length) (hle : a.length ≤ 8) (hne : a ≠ b) (rest : List UInt8)
    (seed : UInt64) : hashBytes (a ++ rest) seed ≠ hashBytes (b ++ rest) seed := by
  intro heq
  have ha : a ≠ [] := fun h => hne (by rw [h, length_eq_zero_iff.mp (hlen.symm.trans (length_eq_zero_iff.mpr h))])
  have hb : b ≠ [] := length_pos_iff.mp (hlen ▸ length_pos_iff.mpr ha)
  have hle' : b.length ≤ 8 := hlen ▸ hle
  rw [hashBytes_block (append_ne_nil_of_left_ne_nil ha rest), hashBytes_block (append_ne_nil_of_left_ne_nil hb rest),
    drop_append, drop_append, take_append, take_append, drop_of_length_le hle, drop_of_length_le hle',
    take_of_length_le hle, take_of_length_le hle', hlen] at heq
  have hword := stir_xor_inj (hashBytes_injective _ heq)
  have hblock := wordOf_inj_of_length (by simp only [length_append, hlen])
    (by rw [length_append, length_take]; omega) hword
  exact hne (append_cancel_right hblock)

/-- What hashes tell apart from any seed: short byte strings without zero bytes, and strings of one length
that differ in one block, which follows the whole blocks of `p`; and the seeds, for any byte string. -/
theorem hashBytes_separates (seed : UInt64) (a b : List UInt8) :
    (Brief a → Brief b → hashBytes a seed = hashBytes b seed → a = b) ∧
    (∀ p rest, 8 ∣ p.length → a.length = b.length → a.length ≤ 8 → a ≠ b →
      hashBytes (p ++ (a ++ rest)) seed ≠ hashBytes (p ++ (b ++ rest)) seed) ∧
    ∀ seed', hashBytes a seed = hashBytes a seed' → seed = seed' := by
  refine ⟨fun ha hb heq => ?_, fun p rest hp hlen hle hne => ?_, fun seed' h => hashBytes_injective a h⟩
  · rw [hashBytes_short ha.ne_nil ha.length, hashBytes_short hb.ne_nil hb.length] at heq
    exact ha.wordOf_inj hb (stir_xor_inj heq)
  · rw [hashBytes_append hp, hashBytes_append hp]
    exact hashBytes_first_ne hlen hle hne rest _

/-- A string and a longer one, two that differ in their second block, and two seeds. -/
theorem names_separated :
    hashBytes (bytes "uniform") 0 ≠ hashBytes (bytes "uniform1") 0 ∧
    hashBytes (bytes "uniform10") 0 ≠ hashBytes (bytes "uniform12") 0 ∧
    hashBytes (bytes "uniform10") 0 ≠ hashBytes (bytes "uniform10") 1 := by
  have hbrief : Brief (bytes "uniform") := ⟨by decide, by decide, by decide⟩
  have hbrief' : Brief (bytes "uniform1") := ⟨by decide, by decide, by decide⟩
  have hblock := (hashBytes_separates 0 (bytes "0") (bytes "2")).2.1 (bytes "uniform1") [] (by decide) rfl
    (by decide) (by decide)
  refine ⟨fun h => ?_, hblock, fun h => ?_⟩
  · exact absurd ((hashBytes_separates ..).1 hbrief hbrief' h) (by decide)
  · exact absurd ((hashBytes_separates _ _ []).2.2 1 h) (by decide)

end ShaderGraph.Glsl
