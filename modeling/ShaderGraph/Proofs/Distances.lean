import Mathlib.Algebra.Order.Field.Basic
import ShaderGraph.Proofs.Definitions
import ShaderGraph.Proofs.Layouts

/-!
# Distances

What a composition denotes over an ordered field, given the distances from its parts. A valuation reads
literals and leaves the cosine, the sine and the square root open; floats and vectors of two components
are computed with component by component. The body of a composition has the value that the composition
denotes.
-/

namespace ShaderGraph

open List

universe u

/-- A float or a vector of two components. -/
inductive Quantity (K : Type u) where
  | float (x : K)
  | vec2 (x y : K)

namespace Quantity

variable {K : Type u}

/-- Component by component, a float standing for all components. -/
@[simp] def zip (f : K → K → K) : Quantity K → Quantity K → Quantity K
  | float x, float y => float (f x y)
  | float x, vec2 a b => vec2 (f x a) (f x b)
  | vec2 a b, float x => vec2 (f a x) (f b x)
  | vec2 a b, vec2 c d => vec2 (f a c) (f b d)

@[simp] def map (f : K → K) : Quantity K → Quantity K
  | float x => float (f x)
  | vec2 x y => vec2 (f x) (f y)

@[simp] def x : Quantity K → K
  | float x | vec2 x _ => x

@[simp] def y : Quantity K → K
  | float y | vec2 _ y => y

end Quantity

/-- How literals are read and which functions the language has. What no shape uses is taken from
another interpretation, as are the values of uniforms and coordinates. -/
structure Valuation (K : Type u) [Field K] where
  rest : Interpretation (Quantity K)
  literal : Float32 → K
  literal_neg_one : literal (-1) = -1
  cos : K → K
  sin : K → K
  sqrt : K → K

namespace Valuation

variable {K : Type u} [Field K] [LinearOrder K] (R : Valuation K)

def norm (x y : K) : K := R.sqrt (x * x + y * y)

def clamp (x lo hi : K) : K := min (max x lo) hi

def mix (a b t : K) : K := a * (1 - t) + b * t

def sign (x : K) : K := if 0 < x then 1 else if x < 0 then -1 else 0

@[simp] def operation : Operator → List (Quantity K) → Quantity K
  | .add, a :: as => as.foldl (.zip (· + ·)) a
  | .sub, a :: as => as.foldl (.zip (· - ·)) a
  | .mult, a :: as => as.foldl (.zip (· * ·)) a
  | .div, a :: as => as.foldl (.zip (· / ·)) a
  | op, as => R.rest.operation op as

@[simp] def builtin : Builtin → List (Quantity K) → Quantity K
  | .cos, [a] => a.map R.cos
  | .sin, [a] => a.map R.sin
  | .abs, [a] => a.map (|·|)
  | .sign, [a] => a.map sign
  | .min, [a, b] => a.zip min b
  | .max, [a, b] => a.zip max b
  | .clamp, [.float x, .float lo, .float hi] => .float (clamp x lo hi)
  | .mix, [.float a, .float b, .float t] => .float (mix a b t)
  | .length, [.vec2 x y] => .float (R.norm x y)
  | .dot, [.vec2 a b, .vec2 c d] => .float (a * c + b * d)
  | f, as => R.rest.call f.name as

def call (name : String) (as : List (Quantity K)) : Quantity K :=
  match Builtin.ofName? name, name, as with
  | some f, _, as => R.builtin f as
  | none, "vec2", [.float x, .float y] => .vec2 x y
  | none, name, as => R.rest.call name as

@[simp] def field : String → Quantity K → Quantity K
  | "x", .vec2 x _ => .float x
  | "y", .vec2 _ y => .float y
  | fields, a => R.rest.field fields a

@[simp] def literals : GlType → List Float32 → Quantity K
  | .vec2, [x, y] => .vec2 (R.literal x) (R.literal y)
  | type, vs => R.rest.literals type vs

def interpretation : Interpretation (Quantity K) :=
  { R.rest with
    float := fun v => .float (R.literal v)
    operation := R.operation
    call := R.call
    literals := R.literals
    field := R.field }

/-- The language over the field, with functions that are defined. -/
def calling (call : String → List (Quantity K) → Quantity K) : Interpretation (Quantity K) :=
  { R.interpretation with call }

section
variable (call : String → List (Quantity K) → Quantity K)

@[simp] theorem calling_float (v : Float32) : (R.calling call).float v = .float (R.literal v) := rfl

@[simp] theorem calling_resource (name : String) : (R.calling call).resource name = R.rest.resource name := rfl

@[simp] theorem calling_operation (op : Operator) (as : List (Quantity K)) :
    (R.calling call).operation op as = R.operation op as := rfl

@[simp] theorem calling_call : (R.calling call).call = call := rfl

@[simp] theorem calling_literals (type : GlType) (vs : List Float32) :
    (R.calling call).literals type vs = R.literals type vs := rfl

@[simp] theorem calling_field (fields : String) (a : Quantity K) :
    (R.calling call).field fields a = R.field fields a := rfl

end

@[simp] theorem call_builtin (f : Builtin) (as : List (Quantity K)) : R.call f.name as = R.builtin f as := by
  cases f <;> rfl

@[simp] theorem call_vec2 (x y : K) : R.call "vec2" [.float x, .float y] = .vec2 x y := rfl

@[simp] def given : Node → Quantity K
  | .uniform _ u => R.rest.resource u.name
  | _ => .float 0

/-- The uniform of the composition has a value of its type. -/
def Fits : Composition → Prop
  | .translate _ n => ∃ x y, R.given n = .vec2 x y
  | .scale _ n | .rotate _ n => ∃ x, R.given n = .float x
  | _ => True

end Valuation

namespace Composition

variable {K : Type u} [Field K] [LinearOrder K]

/-- The distance at a position, given the distances from shapes. -/
def distance (R : Valuation K) (dist : Shape → K → K → K) : Composition → K → K → K
  | circle r, x, y => R.norm x y - R.literal r
  | rectangle w h, x, y =>
    let dx := |x| - R.literal (w / 2)
    let dy := |y| - R.literal (h / 2)
    R.norm (max dx (R.literal 0)) (max dy (R.literal 0)) + min (max dx dy) (R.literal 0)
  | line a b width, x, y =>
    let px := x - R.literal a.x
    let py := y - R.literal a.y
    let bx := R.literal (a.along b).x
    let bY := R.literal (a.along b).y
    let h := Valuation.clamp ((px * bx + py * bY) / R.literal (a.along b).square) (R.literal 0) (R.literal 1)
    R.norm (px - bx * h) (py - bY * h) - R.literal (width / 2)
  | hexagon s, x, y =>
    let kx := R.literal (-0.8660254037844386467637)
    let ky := R.literal 0.5
    let m := min (kx * |x| + ky * |y|) (R.literal 0)
    let qx := |x| - R.literal 2 * m * kx
    let qy := |y| - R.literal 2 * m * ky
    let rx := qx - Valuation.clamp qx (R.literal (-0.577350269 * s)) (R.literal (0.577350269 * s))
    let ry := qy - R.literal s
    R.norm rx ry * Valuation.sign ry
  | union ss, x, y => (ss.map (dist · x y)).min?.getD 0
  | intersection s t, x, y => max (dist s x y) (dist t x y)
  | difference s t, x, y => max (dist s x y) (- dist t x y)
  | smoothUnion k s t, x, y =>
    let d := dist s x y
    let e := dist t x y
    let h := Valuation.clamp (R.literal 0.5 + R.literal 0.5 * (e - d) / R.literal k) (R.literal 0) (R.literal 1)
    Valuation.mix e d h - R.literal k * h * (R.literal 1 - h)
  | annulus s t, x, y => |dist s x y| - R.literal (t / 2)
  | translate s n, x, y => dist s (x - (R.given n).x) (y - (R.given n).y)
  | scale s n, x, y => (R.given n).x * dist s (x / (R.given n).x) (y / (R.given n).x)
  | rotate s n, x, y =>
    let c := R.cos (R.given n).x
    let sn := R.sin (R.given n).x
    dist s (c * x + sn * y) (c * y - sn * x)

end Composition

/-! ## Values of bodies -/

section
variable {K : Type u} [Field K] [LinearOrder K]

/-- Calls of functions of the language have their values, and those of shapes are distances. -/
structure Measures (R : Valuation K) (dist : Shape → K → K → K) (ss : List Shape)
    (call : String → List (Quantity K) → Quantity K) : Prop where
  builtin : ∀ f : Builtin, call f.name = R.call f.name
  vec2 : call "vec2" = R.call "vec2"
  shape : ∀ s ∈ ss, ∃ id name body, s = ⟨.defun id name body⟩ ∧
    ∀ x y, call name [.vec2 x y] = .float (dist s x y)

variable {R : Valuation K} {dist : Shape → K → K → K} {call : String → List (Quantity K) → Quantity K}
  {c : Composition} {ss : List Shape}

theorem Measures.distanceNode (h : Measures R dist ss call) {s : Shape} (hs : s ∈ ss) (b : NodeId) (x y : K) :
    (s.distanceNode b).valueAt (R.calling call) (.vec2 x y) = .float (dist s x y) := by
  obtain ⟨id, name, body, rfl, hcall⟩ := h.shape s hs
  exact hcall x y

theorem Measures.distancesAt (h : Measures R dist ss call) (b : NodeId) (x y : K) :
    (Shape.distancesAt ss b).map (Node.valueAt (R.calling call) (.vec2 x y)) =
      (ss.map (dist · x y)).map .float := by
  induction ss generalizing b with
  | nil => rfl
  | cons s ss ih =>
    have hrest : Measures R dist ss call := { h with shape := fun t ht => h.shape t (mem_cons_of_mem _ ht) }
    rw [Shape.distancesAt, map_cons, h.distanceNode mem_cons_self, ih hrest, map_cons,
      map_cons]

/-- The least of distances is their minimum. -/
theorem Measures.least (h : Measures R dist ss call) {q : Quantity K} {d : Node} {es : List Node} {v : K}
    {vs : List K} (hd : d.valueAt (R.calling call) q = .float v)
    (hes : es.map (Node.valueAt (R.calling call) q) = vs.map .float) (b : NodeId) :
    ((Shape.leastNodes d es b).getLastD d).valueAt (R.calling call) q =
      .float (vs.foldl min v) := by
  induction es generalizing d v vs b with
  | nil =>
    obtain rfl := map_eq_nil_iff.mp hes.symm
    exact hd
  | cons e es ih =>
    obtain ⟨w, ws, rfl, he, hes⟩ := map_eq_cons_iff.mp hes.symm
    rw [Shape.leastNodes, getLastD_cons, foldl_cons]
    refine ih ?_ hes.symm (b + 1)
    simp [Node.valueAt, Node.valuesAt, h.builtin, hd, ← he]

/-- The body of a composition has the value that the composition denotes. -/
theorem Composition.value_body (hc : c.Accepted) (hfits : R.Fits c) (h : Measures R dist c.parts call)
    (b : NodeId) (x y : K) : (c.body b).valueAt (R.calling call) (.vec2 x y) =
      .float (c.distance R dist x y) := by
  cases c with
  | circle | rectangle | line | hexagon =>
    simp [body, nodes, distance, Node.valueAt, Node.valuesAt, Node.position, Constant.type, Constant.values,
      Constructed.type, GlType.name, h.builtin, h.vec2]
  | union ss =>
    obtain ⟨s, t, ss, rfl⟩ := two_of_accepted hc
    have hs := h.distanceNode mem_cons_self b x y
    have hrest : Measures R dist (t :: ss) call :=
      { h with shape := fun u hu => h.shape u (mem_cons_of_mem _ hu) }
    rw [union_body, h.least hs (hrest.distancesAt (b + 2) x y)]
    rfl
  | intersection s t | difference s t | smoothUnion k s t =>
    have hs := h.distanceNode mem_cons_self b x y
    have ht := h.distanceNode (mem_cons_of_mem _ mem_cons_self) (b + 2) x y
    simp [body, nodes, distance, Node.valueAt, Node.valuesAt, h.builtin, hs, ht, R.literal_neg_one]
  | annulus s t =>
    have hs := h.distanceNode mem_cons_self b x y
    simp [body, nodes, distance, Node.valueAt, Node.valuesAt, h.builtin, hs]
  | translate s n =>
    obtain ⟨i, name, sbody, rfl, hs⟩ := h.shape s mem_cons_self
    obtain ⟨j, u, rfl, -⟩ : Node.IsUniform .vec2 n := hc
    obtain ⟨ox, oy, ho⟩ : ∃ ox oy, R.rest.resource u.name = .vec2 ox oy := hfits
    simp [body, nodes, distance, Node.valueAt, Node.valuesAt, Node.position, hs, ho]
  | scale s n | rotate s n =>
    obtain ⟨i, name, sbody, rfl, hs⟩ := h.shape s mem_cons_self
    obtain ⟨j, u, rfl, -⟩ : Node.IsUniform .float n := hc
    obtain ⟨a, ha⟩ : ∃ a, R.rest.resource u.name = .float a := hfits
    simp [body, nodes, distance, Node.valueAt, Node.valuesAt, Node.position, Constructed.type, GlType.name,
      h.builtin, h.vec2, hs, ha, mul_comm]

end

end ShaderGraph
