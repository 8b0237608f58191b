import Mathlib.Data.List.Basic
import ShaderGraph.Graph.Eval

/-!
# Names of generated variables

A generated variable is a base and a number: `Numbered k v` says that `v` is the variable with
number `k`. Every base that evaluation uses ends in a letter, so a name has one number only,
and names of resources and literals are never names of generated variables.
-/

namespace ShaderGraph

open List

variable {b x v r : String} {k j : Nat} {c : Char}

/-- The bases that evaluation makes names of declared variables from. -/
def IsBase (b : String) : Prop :=
  b ∈ ["uv", "nuv", "res", "accum", "funcArg"] ∨ (∃ stem, b = stem ++ "Val") ∨
    ∃ stem, b = stem ++ "Value"

/-- The variable with number `k`, whatever its base. -/
def Numbered (k : Nat) (v : String) : Prop := ∃ b, IsBase b ∧ v = b ++ toString k

/-- The names of uniforms, attributes and varyings. -/
def IsResource (r : String) : Prop :=
  ∃ id : NodeId, r = uniformName id ∨ r = "attribute" ++ toString id ∨ r = Step.varyingName id

/-! ## Bases -/

theorem isBase_val (stem : String) : IsBase (stem ++ "Val") := .inr (.inl ⟨stem, rfl⟩)

theorem isBase_value (stem : String) : IsBase (stem ++ "Value") := .inr (.inr ⟨stem, rfl⟩)

theorem isBase_coordinate (k : Coordinate) : IsBase k.name := by
  cases k with
  | uv => exact .inl (by decide)
  | nuv => exact .inl (by decide)
  | fragX => exact isBase_val "x"
  | fragY => exact isBase_val "y"

theorem isBase_constant (k : Constant) : IsBase k.base := by
  cases k with
  | vec2 => exact isBase_val "vec2"
  | vec3 => exact isBase_val "vec3"
  | mat4 => exact isBase_val "mat"

/-- The letters that bases end in. -/
def baseEnds : List Char := ['v', 's', 'm', 'g', 'l', 'e']

theorem IsBase.getLast_mem (h : IsBase b) : ∃ c ∈ baseEnds, b.toList.getLast? = some c := by
  obtain h | ⟨stem, rfl⟩ | ⟨stem, rfl⟩ := h
  · simp only [mem_cons, not_mem_nil, or_false] at h
    obtain rfl | rfl | rfl | rfl | rfl := h
    · exact ⟨'v', by decide, by decide⟩
    · exact ⟨'v', by decide, by decide⟩
    · exact ⟨'s', by decide, by decide⟩
    · exact ⟨'m', by decide, by decide⟩
    · exact ⟨'g', by decide, by decide⟩
  · exact ⟨'l', by decide, by simp⟩
  · exact ⟨'e', by decide, by simp⟩

/-! ## A name and its number -/

/-- Two texts that end in digits agree before and in the digits. -/
theorem append_digits_inj {xs ys ds es : List Char} (hd : ∀ c ∈ ds, c.isDigit)
    (he : ∀ c ∈ es, c.isDigit) (hx : ∃ c, xs.getLast? = some c ∧ ¬ c.isDigit)
    (hy : ∃ c, ys.getLast? = some c ∧ ¬ c.isDigit) (h : xs ++ ds = ys ++ es) :
    xs = ys ∧ ds = es := by
  -- what one text has more than the other before the digits consists of digits
  have hnil {zs as : List Char} (hz : ∃ c, (zs ++ as).getLast? = some c ∧ ¬ c.isDigit)
      (ha : ∀ c ∈ as, c.isDigit) : as = [] := by
    obtain ⟨c, hc, hcd⟩ := hz
    rcases eq_nil_or_concat as with rfl | ⟨init, a, rfl⟩
    · rfl
    · simp only [getLast?_append, getLast?_singleton, Option.some_or, Option.some.injEq, concat_eq_append] at hc
      exact absurd (ha a (by simp)) (hc ▸ hcd)
  obtain ⟨as, rfl, rfl⟩ | ⟨as, rfl, rfl⟩ := append_eq_append_iff.mp h
  · simp [hnil hy fun c hc => hd c (mem_append_left _ hc)]
  · simp [hnil hx fun c hc => he c (mem_append_left _ hc)]

theorem toList_numeral (k : Nat) : (toString k).toList = Nat.toDigits 10 k := by
  rw [Nat.toString_eq_repr, Nat.toList_repr]

theorem numeral_isDigit (h : c ∈ (toString k).toList) : c.isDigit := by
  rw [toList_numeral] at h
  exact Nat.isDigit_of_mem_toDigits (by decide) (by decide) h

theorem numeral_inj (h : (toString j).toList = (toString k).toList) : j = k := by
  rw [toList_numeral, toList_numeral] at h
  rw [← Nat.ofDigitChars_ten_toDigits (n := j), h, Nat.ofDigitChars_ten_toDigits]

theorem uniformName_inj {i j : NodeId} (h : uniformName i = uniformName j) : i = j := by
  have h := congrArg String.toList h
  simp only [uniformName, String.toList_append] at h
  exact numeral_inj (append_cancel_left h)

theorem not_isDigit_of_mem_baseEnds (h : c ∈ baseEnds) : ¬ c.isDigit := by
  have hall : baseEnds.all fun c => !c.isDigit := by decide
  simpa using all_eq_true.mp hall c h

theorem IsBase.ends (h : IsBase b) : ∃ c, b.toList.getLast? = some c ∧ ¬ c.isDigit := by
  obtain ⟨c, hc, hl⟩ := h.getLast_mem
  exact ⟨c, hl, not_isDigit_of_mem_baseEnds hc⟩

/-- A text and a number after it are read off the whole. -/
theorem append_numeral_inj (hb : ∃ c, b.toList.getLast? = some c ∧ ¬ c.isDigit)
    (hx : ∃ c, x.toList.getLast? = some c ∧ ¬ c.isDigit) (h : b ++ toString k = x ++ toString j) :
    b = x ∧ k = j := by
  have h' : b.toList ++ (toString k).toList = x.toList ++ (toString j).toList := by
    rw [← String.toList_append, ← String.toList_append, h]
  obtain ⟨h1, h2⟩ := append_digits_inj (fun _ => numeral_isDigit) (fun _ => numeral_isDigit) hb hx h'
  exact ⟨String.toList_injective h1, numeral_inj h2⟩

theorem Numbered.unique (hj : Numbered j v) (hk : Numbered k v) : j = k := by
  obtain ⟨b, hb, rfl⟩ := hj
  obtain ⟨x, hx, h⟩ := hk
  exact (append_numeral_inj hb.ends hx.ends h).2

theorem Numbered.ne_empty (h : Numbered k v) : v ≠ "" := by
  obtain ⟨b, hb, rfl⟩ := h
  intro h
  have := congrArg String.toList h
  rw [String.toList_append, toList_numeral] at this
  simp [Nat.toDigits_ne_nil] at this

/-! ## Names that are not generated -/

/-- A text that ends in a number after a letter of another kind is no generated name. -/
theorem not_numbered_of_ends (c : Char) (hx : x.toList.getLast? = some c) (hd : ¬ c.isDigit) (hb : ¬ IsBase x) :
    ¬ Numbered k (x ++ toString j) := by
  rintro ⟨b, hb', h⟩
  obtain ⟨rfl, -⟩ := append_numeral_inj hb'.ends ⟨c, hx, hd⟩ h.symm
  exact hb hb'

theorem not_isBase_resource : ∀ x ∈ ["uniform", "attribute", "varying"], ¬ IsBase x := by
  have hall : ∀ x ∈ ["uniform", "attribute", "varying"], x ∉ ["uv", "nuv", "res", "accum", "funcArg"] ∧
      ¬ "Val".toList <:+ x.toList ∧ ¬ "Value".toList <:+ x.toList := by decide
  intro x hx hb
  obtain ⟨hlisted, hval, hvalue⟩ := hall x hx
  obtain h | ⟨stem, rfl⟩ | ⟨stem, rfl⟩ := hb
  · exact hlisted h
  · exact hval (String.toList_append ▸ suffix_append ..)
  · exact hvalue (String.toList_append ▸ suffix_append ..)

theorem IsResource.not_numbered (h : IsResource r) (k : Nat) : ¬ Numbered k r := by
  obtain ⟨id, rfl | rfl | rfl⟩ := h
  · exact not_numbered_of_ends 'm' (by decide) (by decide) (not_isBase_resource _ (by simp))
  · exact not_numbered_of_ends 'e' (by decide) (by decide) (not_isBase_resource _ (by simp))
  · exact not_numbered_of_ends 'g' (by decide) (by decide) (not_isBase_resource _ (by simp))

theorem IsResource.ne_empty (h : IsResource r) : r ≠ "" := by
  obtain ⟨id, rfl | rfl | rfl⟩ := h
  all_goals exact fun h => absurd (String.append_eq_empty_iff.mp h).1 (by decide)

theorem append_ne_append {p q : String} (h : p.toList.head? ≠ q.toList.head?) (hp : p.toList ≠ [])
    (hq : q.toList ≠ []) (x y : String) : p ++ x ≠ q ++ y := by
  intro he
  have hhead := congrArg (·.toList.head?) he
  rw [String.toList_append, String.toList_append, head?_append_of_ne_nil _ hp,
    head?_append_of_ne_nil _ hq] at hhead
  exact h hhead

/-! ## Literals -/

/-- A text whose last digits follow a letter that no base ends in, or that has no last digits. -/
structure EndsForeign (v : String) : Prop where
  split : ∃ xs ds c, v.toList = xs ++ ds ∧ (∀ d ∈ ds, d.isDigit) ∧ xs.getLast? = some c ∧
    ¬ c.isDigit ∧ (ds = [] ∨ c ∉ baseEnds)

theorem EndsForeign.not_numbered (h : EndsForeign v) (k : Nat) : ¬ Numbered k v := by
  obtain ⟨xs, ds, c, hv, hds, hxs, hc, hor⟩ := h.split
  rintro ⟨b, hb, rfl⟩
  rw [String.toList_append] at hv
  obtain ⟨rfl, hk⟩ := append_digits_inj (fun _ => numeral_isDigit) hds hb.ends ⟨c, hxs, hc⟩ hv
  rcases hor with rfl | hor
  · rw [toList_numeral] at hk
    exact Nat.toDigits_ne_nil hk
  · obtain ⟨d, hd, hl⟩ := hb.getLast_mem
    rw [hxs, Option.some.injEq] at hl
    exact hor (hl ▸ hd)

theorem EndsForeign.ne_empty (h : EndsForeign v) : v ≠ "" := by
  obtain ⟨xs, ds, c, hv, -, hxs, -, -⟩ := h.split
  rintro rfl
  have hnil : xs = [] := (append_eq_nil_iff.mp hv.symm).1
  rw [hnil] at hxs
  cases hxs

open Decimal

theorem isDigit_padded {n : Nat} (h : c ∈ List.replicate k '0' ++ Nat.toDigits 10 n) : c.isDigit := by
  rcases mem_append.mp h with h | h
  · rw [eq_of_mem_replicate h]
    decide
  · exact Nat.isDigit_of_mem_toDigits (by decide) (by decide) h

theorem exponentText_some (e : Int) : ∃ ds, (Numeral.exponentText (some e)).toList =
    'e' :: (if e < 0 then '-' else '+') :: ds ∧
      ds ≠ [] ∧ (∀ c ∈ ds, c.isDigit) ∧ Nat.ofDigitChars 10 ds 0 = e.natAbs := by
  refine ⟨List.replicate (2 - (Nat.toDigits 10 e.natAbs).length) '0' ++ Nat.toDigits 10 e.natAbs, ?_, ?_, ?_, ?_⟩
  · by_cases he : e < 0 <;> simp [Numeral.exponentText, he]
  · exact append_ne_nil_of_right_ne_nil _ Nat.toDigits_ne_nil
  · exact fun _ => isDigit_padded
  · simp [Nat.ofDigitChars_append]

theorem fraction_isDigit (negative : Bool) (d : Scaled) :
    ∀ c ∈ (Numeral.ofScaled negative d).fraction, c.isDigit := by
  have hds : ∀ c ∈ Nat.toDigits 10 d.digits, c.isDigit := fun c hc =>
    Nat.isDigit_of_mem_toDigits (by decide) (by decide) hc
  intro c hc
  unfold Numeral.ofScaled at hc
  dsimp only at hc
  split at hc
  · cases hc
  · split at hc
    · split at hc
      · exact isDigit_padded hc
      · exact hds c (mem_of_mem_drop hc)
    · exact hds c (mem_of_mem_drop hc)

theorem pointed_endsForeign (n : Numeral) (hn : ∀ c ∈ n.fraction, c.isDigit) :
    EndsForeign n.pointed := by
  have hfrac : ∀ c ∈ (if n.fraction.isEmpty then ['0'] else n.fraction), c.isDigit := by
    intro c hc
    split at hc
    · rw [mem_singleton.mp hc]
      decide
    · exact hn c hc
  cases he : n.exponent with
  | none =>
    refine ⟨(Numeral.signText n.negative).toList ++ n.whole ++ ['.'], _, '.', ?_, hfrac, ?_, ?_, ?_⟩
    · simp [Numeral.pointed, Numeral.exponentText, he]
    · simp
    · decide
    · exact .inr (by decide)
  | some e =>
    obtain ⟨ds, htext, -, hdigits, -⟩ := exponentText_some e
    refine ⟨(Numeral.signText n.negative).toList ++ n.whole ++ ['.'] ++
      (if n.fraction.isEmpty then ['0'] else n.fraction) ++ ['e', if e < 0 then '-' else '+'], ds,
      if e < 0 then '-' else '+', ?_, hdigits, ?_, ?_, ?_⟩
    · simp [Numeral.pointed, he, htext]
    · rw [getLast?_append]
      rfl
    · split <;> decide
    · right
      split <;> decide

theorem literal_endsForeign (v : Float32) : EndsForeign (Glsl.literal v) := by
  unfold Glsl.literal Decimal.Reading.text
  split
  · exact ⟨"NaN".toList, [], 'N', by simp, by simp, by decide, by decide, .inl rfl⟩
  · split
    · exact ⟨"-Inf".toList, [], 'f', by simp, by simp, by decide, by decide, .inl rfl⟩
    · exact ⟨"+Inf".toList, [], 'f', by simp, by simp, by decide, by decide, .inl rfl⟩
  · exact pointed_endsForeign _ (fraction_isDigit _ _)

theorem Atom.text_endsForeign {a : Atom} (h : ∀ r, a ≠ .name r) : EndsForeign a.text := by
  cases a with
  | name r => exact absurd rfl (h r)
  | float v => exact literal_endsForeign v
  | bool b =>
    cases b
    · exact ⟨"false".toList, [], 'e', by simp [Atom.text], by simp, by decide, by decide, .inl rfl⟩
    · exact ⟨"true".toList, [], 'e', by simp [Atom.text], by simp, by decide, by decide, .inl rfl⟩

end ShaderGraph
