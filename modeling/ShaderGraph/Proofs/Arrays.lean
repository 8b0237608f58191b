import Mathlib.Data.List.Forall2
import ShaderGraph.Viewer.Params

/-!
# Arrays of parameters

An array stands for the numbers that its elements are. What is asked of an element is only that it
stands for one number, and so does an array of one number: `IsOne` says what is let through, and
`Boxed` which arrays are accepted although an element of theirs is no number.
-/

namespace ShaderGraph.Viewer

open List

open Toml (Value)

/-- A value that is a number itself. -/
inductive IsNumber : Value → Float32 → Prop where
  | float (x : Float) : IsNumber (.float x) x.toFloat32
  | integer (n : Int) : IsNumber (.integer n) (Number.ofInt n)
  | bool (b : Bool) : IsNumber (.bool b) (if b then 1 else 0)

/-- What a value that is no array may stand for: a number, or the channels of a color. -/
inductive IsPlain : Value → List Float32 → Prop where
  | number {v : Value} {x : Float32} (h : IsNumber v x) : IsPlain v [x]
  | color {name : String} {hex : UInt32} (h : namedColor? name = some hex) :
    IsPlain (.string name) [(hexChannels hex).1, (hexChannels hex).2.1, (hexChannels hex).2.2]

/-- A number in any depth of arrays of one element. -/
inductive IsOne : Value → Float32 → Prop where
  | number {v : Value} {x : Float32} (h : IsNumber v x) : IsOne v x
  | array {v : Value} {x : Float32} (h : IsOne v x) : IsOne (.array [v]) x

/-- Every element stands for one number, and some element is an array. -/
def Boxed (vs : List Value) : Prop := (∃ xs, Forall₂ IsOne vs xs) ∧ ∃ us, .array us ∈ vs

variable {v : Value} {vs : List Value} {x : Float32} {xs : List Float32}

/-! ## What is accepted -/

theorem paramValues_plain_iff (hv : ∀ us, v ≠ .array us) : paramValues v = .ok xs ↔ IsPlain v xs := by
  constructor
  · intro h
    cases v with
    | float y =>
      cases h
      exact .number (.float y)
    | integer n =>
      cases h
      exact .number (.integer n)
    | bool b =>
      cases h
      exact .number (.bool b)
    | string name =>
      rw [paramValues] at h
      cases hc : namedColor? name with
      | none => simp [hc] at h
      | some hex =>
        rw [hc] at h
        cases h
        exact .color hc
    | array us => exact absurd rfl (hv us)
    | moment | table => cases h
  · rintro (h | hc)
    · cases h <;> rfl
    · rw [paramValues, hc]

theorem isOne_iff_plain (hv : ∀ us, v ≠ .array us) : IsOne v x ↔ IsPlain v [x] := by
  constructor
  · rintro (h | h)
    · exact .number h
    · exact absurd rfl (hv _)
  · rintro ⟨h⟩
    exact .number h

theorem elementValues_cons_iff : elementValues (v :: vs) = .ok xs ↔
    ∃ x ys, paramValues v = .ok [x] ∧ elementValues vs = .ok ys ∧ x :: ys = xs := by
  rw [elementValues]
  rcases paramValues v with e | (_ | ⟨x, _ | ⟨y, ys⟩⟩)
  · simp [bind, Except.bind]
  · simp [bind, Except.bind, throw, throwThe, MonadExceptOf.throw]
  · cases elementValues vs <;> simp [bind, Except.bind, pure, Except.pure]
  · simp [bind, Except.bind, throw, throwThe, MonadExceptOf.throw]

-- The recursion is that of the value tree: an array of one element stands for what the element does.
mutual

theorem paramValues_one_iff : (v : Value) → (x : Float32) → (paramValues v = .ok [x] ↔ IsOne v x)
  | .array vs, x => by
    rw [paramValues, elementValues_iff vs]
    constructor
    · rintro (_ | ⟨h, _ | _⟩)
      exact .array h
    · rintro (⟨⟨⟩⟩ | h)
      exact .cons h .nil
  | .float _, x | .integer _, x | .bool _, x | .string _, x | .moment _, x | .table, x => by
    rw [paramValues_plain_iff (by simp), isOne_iff_plain (by simp)]

theorem elementValues_iff : (vs : List Value) → (xs : List Float32) →
    (elementValues vs = .ok xs ↔ Forall₂ IsOne vs xs)
  | [], xs => by
    rw [elementValues, forall₂_nil_left_iff, Except.ok.injEq, eq_comm]
  | v :: vs, xs => by
    simp only [elementValues_cons_iff, paramValues_one_iff v, elementValues_iff vs, forall₂_cons_left_iff,
      eq_comm (a := xs)]

end

/-! ## Numbers and boxes -/

theorem IsOne.isNumber (h : IsOne v x) (hv : ∀ us, v ≠ .array us) : IsNumber v x := by
  cases h with
  | number h => exact h
  | array => exact absurd rfl (hv _)

theorem forall₂_isNumber_iff : Forall₂ IsNumber vs xs ↔ Forall₂ IsOne vs xs ∧ ∀ us, .array us ∉ vs := by
  induction vs generalizing xs with
  | nil => simp
  | cons v vs ih =>
    simp only [forall₂_cons_left_iff, ih, mem_cons, not_or, forall_and]
    constructor
    · rintro ⟨x, ys, hx, ⟨hys, hnot⟩, rfl⟩
      refine ⟨⟨x, ys, .number hx, hys, rfl⟩, ?_, hnot⟩
      rintro us rfl
      cases hx
    · rintro ⟨⟨x, ys, hx, hys, rfl⟩, hv, hnot⟩
      exact ⟨x, ys, hx.isNumber fun us heq => hv us heq.symm, ⟨hys, hnot⟩, rfl⟩

theorem paramValues_iff : paramValues v = .ok xs ↔ IsPlain v xs ∨ ∃ vs, v = .array vs ∧ Forall₂ IsOne vs xs := by
  cases v with
  | array vs =>
    rw [paramValues, elementValues_iff]
    constructor
    · exact fun h => .inr ⟨vs, rfl, h⟩
    · rintro (h | ⟨_, ⟨⟩, h⟩)
      · cases h with
        | number h => cases h
      · exact h
  | _ => simp [paramValues_plain_iff]

/-- A value is accepted for the number or the color that it is, and an array for one number of each element, in
their order. Those numbers are the elements themselves exactly unless the array is boxed. -/
theorem arrays_hold_numbers_unless_boxed (v : Value) (vs : List Value) :
    (∀ xs, paramValues v = .ok xs ↔ IsPlain v xs ∨ ∃ us, v = .array us ∧ Forall₂ IsOne us xs) ∧
    ((∀ xs, paramValues (.array vs) = .ok xs ↔ Forall₂ IsNumber vs xs) ↔ ¬ Boxed vs) := by
  refine ⟨fun xs => paramValues_iff, ?_⟩
  simp only [paramValues, elementValues_iff, forall₂_isNumber_iff, Boxed]
  constructor
  · rintro h ⟨⟨xs, hxs⟩, us, hus⟩
    exact ((h xs).mp hxs).2 us hus
  · intro h xs
    exact ⟨fun hxs => ⟨hxs, fun us hus => h ⟨⟨xs, hxs⟩, us, hus⟩⟩, And.left⟩

/-- An array of an array of one number is accepted for the number. -/
theorem nested_array_accepted : ¬ ∀ xs, paramValues (.array [.array [.integer 1]]) = .ok xs ↔
    Forall₂ IsNumber [.array [.integer 1]] xs := by
  intro h
  have hone : Forall₂ IsOne [.array [.integer 1]] [Number.ofInt 1] := .cons (.array (.number (.integer 1))) .nil
  have hnum := (h _).mp ((elementValues_iff ..).mpr hone)
  cases hnum with
  | cons hv _ => cases hv

end ShaderGraph.Viewer
