import Mathlib.LinearAlgebra.CrossProduct
import ShaderGraph.Proofs.Compositions
import ShaderGraph.Proofs.Meaning
import ShaderGraph.Proofs.Rounding

/-!
# Cameras

The graphs of camera matrices, interpreted over a field: vectors of three components with
componentwise arithmetic, dot and cross products, and matrices of four columns. A view moves the eye to
the origin and the target onto the axis behind it. A perspective divides by the distance and takes the
near and the far plane to the ends of the depth range.
-/

namespace ShaderGraph

open List Build

variable {F : Type}

/-! ## Values over a field -/

inductive Spatial (F : Type) where
  | scalar (x : F)
  | vector (v : Fin 3 → F)
  | matrix (m : Matrix (Fin 4) (Fin 4) F)

namespace Spatial

/-- Applies an operation to components; a scalar goes with every component of a vector. -/
def zip (f : F → F → F) : Spatial F → Spatial F → Option (Spatial F)
  | scalar x, scalar y => some (scalar (f x y))
  | scalar x, vector v => some (vector fun i => f x (v i))
  | vector u, scalar y => some (vector fun i => f (u i) y)
  | vector u, vector v => some (vector fun i => f (u i) (v i))
  | _, _ => none

def scalar? : Spatial F → Option F
  | scalar x => some x
  | _ => none

def field? : String → Spatial F → Option (Spatial F)
  | "x", vector v => some (scalar (v 0))
  | "y", vector v => some (scalar (v 1))
  | "z", vector v => some (scalar (v 2))
  | _, _ => none

end Spatial

variable [Field F]

/-- The matrix of sixteen scalars, read column by column. -/
def ofColumns (xs : List F) : Matrix (Fin 4) (Fin 4) F := .of fun r c => xs.getD (4 * c + r) 0

def Operator.compute : Operator → Option (F → F → F)
  | add => some (· + ·)
  | sub => some (· - ·)
  | mult => some (· * ·)
  | div => some (· / ·)
  | _ => none

/-- The number that a literal stands for. -/
def rational (v : Float32) : ℚ :=
  match Decimal.readSingle v with
  | .finite negative b => if negative then -b.value else b.value
  | _ => 0

/-- What a field does not settle: the tangent, and the factor by which a vector is normalized. -/
structure Space (F : Type) where
  tan : F → F
  factor : (Fin 3 → F) → F

namespace Space

def call? (S : Space F) : String → List (Spatial F) → Option (Spatial F)
  | "tan", [.scalar x] => some (.scalar (S.tan x))
  | "normalize", [.vector v] => some (.vector (S.factor v • v))
  | "cross", [.vector u, .vector v] => some (.vector (crossProduct u v))
  | "dot", [.vector u, .vector v] => some (.scalar (dotProduct u v))
  | "mat4", qs => (qs.mapM Spatial.scalar?).map fun xs => .matrix (ofColumns xs)
  | _, _ => none

/-- An interpretation with the operations of a field, and `base` for all else. -/
def interpret (S : Space F) (base : Interpretation (Spatial F)) : Interpretation (Spatial F) :=
  { base with
    float := fun v => .scalar (rational v : F)
    operation := fun op qs =>
      (do (← qs.tail?).foldlM (Spatial.zip (← op.compute)) (← qs.head?)).getD (base.operation op qs)
    call := fun f qs => (S.call? f qs).getD (base.call f qs)
    field := fun fields q => (q.field? fields).getD (base.field fields q) }

end Space

theorem rational_eq (v : Float32) (negative : Bool) (b : Decimal.Binary)
    (h : Decimal.readSingle v = .finite negative b) : rational v = if negative then -b.value else b.value := by
  rw [rational, h]

theorem rational_zero : rational 0 = 0 := by
  rw [rational_eq 0 false ⟨0, -149, false⟩ (by decide +kernel)]
  norm_num [Decimal.Binary.value]

theorem rational_one : rational 1 = 1 := by
  rw [rational_eq 1 false ⟨8388608, -23, true⟩ (by decide +kernel)]
  norm_num [Decimal.Binary.value]

theorem rational_two : rational 2 = 2 := by
  rw [rational_eq 2 false ⟨8388608, -22, true⟩ (by decide +kernel)]
  norm_num [Decimal.Binary.value]

theorem rational_neg_one : rational (-1) = -1 := by
  rw [rational_eq (-1) true ⟨8388608, -23, true⟩ (by decide +kernel)]
  norm_num [Decimal.Binary.value]

variable {S : Space F} {base : Interpretation (Spatial F)} {w : Workspace}

theorem Space.float_interpret (v : Float32) : (S.interpret base).float v = .scalar (rational v : F) := rfl

theorem Build.run_node (make : NodeId → Node) (w : Workspace) :
    (node make).run w = (make w.nextId, { w with nextId := w.nextId + 1 }) := rfl

/-! ## Shared components -/

/-- The swizzles that are shared under the id of one of the nodes are of that node. -/
def Workspace.Shares (w : Workspace) (ns : List Node) : Prop :=
  ∀ n ∈ ns, ∀ fields sw, w.swizzles.lookup (n.id, fields) = some sw → ∃ id, sw = .swizzle id n fields

variable {ns : List Node} {n x y z eye target up : Node}

theorem Build.run_swizzle (hw : w.Shares ns) (hns : (ns.map Node.id).Nodup) (hn : n ∈ ns) (ha : n.isAbsent = false)
    (fields : String) : ∃ id w', (swizzle n fields).run w = (.swizzle id n fields, w') ∧ w'.Shares ns := by
  cases h : w.swizzles.lookup (n.id, fields) with
  | some sw =>
    obtain ⟨id, rfl⟩ := hw n hn fields sw h
    exact ⟨id, w, run_swizzle_known fields _ ha h, hw⟩
  | none =>
    refine ⟨_, _, run_swizzle_new fields ha h, fun m hm fields' sw hsw => ?_⟩
    rw [lookup_cons] at hsw
    split at hsw
    · next heq =>
      obtain ⟨hid, rfl⟩ := Prod.mk.inj (beq_iff_eq.mp heq)
      obtain rfl := inj_on_of_nodup_map hns hm hn hid
      exact ⟨_, (Option.some.inj hsw).symm⟩
    · exact hw m hm fields' sw hsw

/-- Three axes of which each swizzle is told apart. -/
structure Workspace.Axes (w : Workspace) (x y z : Node) : Prop where
  shares : w.Shares [x, y, z]
  ids : ([x, y, z].map Node.id).Nodup
  present : ∀ n ∈ [x, y, z], n.isAbsent = false

theorem Workspace.Axes.column (h : w.Axes x y z) (last : Node) (fields : String) :
    ∃ i j k w', (axisColumn x y z last fields).run w =
      ([.swizzle i x fields, .swizzle j y fields, .swizzle k z fields, last], w') ∧ w'.Axes x y z := by
  have hx : x ∈ [x, y, z] := by simp
  have hy : y ∈ [x, y, z] := by simp
  have hz : z ∈ [x, y, z] := by simp
  obtain ⟨i, w1, h1, hw1⟩ := run_swizzle h.shares h.ids hx (h.present x hx) fields
  obtain ⟨j, w2, h2, hw2⟩ := run_swizzle hw1 h.ids hy (h.present y hy) fields
  obtain ⟨k, w3, h3, hw3⟩ := run_swizzle hw2 h.ids hz (h.present z hz) fields
  refine ⟨i, j, k, w3, ?_, hw3, h.ids, h.present⟩
  rw [axisColumn, run_bind, h1, run_bind, h2, run_bind, h3]
  rfl

/-! ## Views -/

/-- The matrix with the given axes, for an eye at `e`. -/
def axesMatrix (vx vy vz e : Fin 3 → F) : Matrix (Fin 4) (Fin 4) F := ofColumns
  [vx 0, vy 0, vz 0, 0, vx 1, vy 1, vz 1, 0, vx 2, vy 2, vz 2, 0,
    -1 * dotProduct vx e, -1 * dotProduct vy e, -1 * dotProduct vz e, 1]

def point (v : Fin 3 → F) : Fin 4 → F := ![v 0, v 1, v 2, 1]

theorem axesMatrix_mulVec (vx vy vz e v : Fin 3 → F) : (axesMatrix vx vy vz e).mulVec (point v) =
    ![dotProduct vx (v - e), dotProduct vy (v - e), dotProduct vz (v - e), 1] := by
  ext r
  fin_cases r <;>
    simp [axesMatrix, ofColumns, point, Matrix.mulVec, dotProduct, Fin.sum_univ_succ] <;> ring

theorem Workspace.Axes.denote_toAxes {e vx vy vz : Fin 3 → F} (h : w.Axes x y z)
    (hx : x.denote (S.interpret base) = some (.vec3, .vector vx))
    (hy : y.denote (S.interpret base) = some (.vec3, .vector vy))
    (hz : z.denote (S.interpret base) = some (.vec3, .vector vz))
    (heye : eye.denote (S.interpret base) = some (.vec3, .vector e)) :
    ((toAxes x y z eye).run w).1.denote (S.interpret base) = some (.mat4, .matrix (axesMatrix vx vy vz e)) := by
  have hw : ({ w with nextId := w.nextId + 1 + 1 } : Workspace).Axes x y z := ⟨h.shares, h.ids, h.present⟩
  obtain ⟨i, j, k, w1, h1, hw1⟩ := hw.column (.float w.nextId 0) "x"
  obtain ⟨i', j', k', w2, h2, hw2⟩ := hw1.column (.float w.nextId 0) "y"
  obtain ⟨i'', j'', k'', w3, h3, -⟩ := hw2.column (.float w.nextId 0) "z"
  simp only [toAxes, run_bind, float, run_node, h1, h2, h3, Build.mult, builtin, operator, construct, cons_append,
    nil_append, Node.denote, Node.denoteAll, hx, hy, hz, heye, Space.float_interpret, rational_zero, rational_one,
    rational_neg_one, Rat.cast_zero, Rat.cast_one, Rat.cast_neg]
  rfl

theorem Workspace.Ready.axes (hw : w.Ready) (hz : z.id = w.nextId + 1) (hx : x.id = w.nextId + 3)
    (hy : y.id = w.nextId + 4) (ha : ∀ n ∈ [x, y, z], n.isAbsent = false) :
    ({ w with nextId := w.nextId + 1 + 1 + 1 + 1 + 1 } : Workspace).Axes x y z where
  shares := by
    intro n hn fields sw hsw
    have hid : w.nextId ≤ n.id := by
      simp only [mem_cons, not_mem_nil, or_false] at hn
      rcases hn with rfl | rfl | rfl <;> simp [hx, hy, hz]
    rw [hw.lookup hid] at hsw
    cases hsw
  ids := by simp [hx, hy, hz]
  present := ha

/-- The axes of a camera at `e` that looks at `t`: to the right, upwards and backwards. -/
def Space.backward (S : Space F) (e t : Fin 3 → F) : Fin 3 → F := S.factor (e - t) • (e - t)

def Space.rightward (S : Space F) (e t u : Fin 3 → F) : Fin 3 → F :=
  S.factor (crossProduct u (S.backward e t)) • crossProduct u (S.backward e t)

def Space.upward (S : Space F) (e t u : Fin 3 → F) : Fin 3 → F :=
  crossProduct (S.backward e t) (S.rightward e t u)

theorem denote_view {e t u : Fin 3 → F} (hw : w.Ready)
    (heye : eye.denote (S.interpret base) = some (.vec3, .vector e))
    (htarget : target.denote (S.interpret base) = some (.vec3, .vector t))
    (hup : up.denote (S.interpret base) = some (.vec3, .vector u)) :
    ((view eye target up).run w).1.denote (S.interpret base) = some (.mat4, .matrix
      (axesMatrix (S.rightward e t u) (S.upward e t u) (S.backward e t) e)) := by
  simp only [view, run_bind, run_node, builtin, Build.sub, operator]
  refine Workspace.Axes.denote_toAxes (hw.axes rfl rfl rfl (by simp [Node.isAbsent])) ?_ ?_ ?_ heye
  all_goals
    simp only [Node.denote, Node.denoteAll, heye, htarget, hup]
    rfl

theorem rightward_dotProduct (S : Space F) (e t u : Fin 3 → F) : dotProduct (S.rightward e t u) (t - e) = 0 := by
  rw [Space.rightward, Space.backward, map_smul, smul_dotProduct, smul_dotProduct, dotProduct_comm, ← neg_sub e t,
    neg_dotProduct, dot_cross_self, neg_zero, smul_zero, smul_zero]

theorem upward_dotProduct (S : Space F) (e t u : Fin 3 → F) : dotProduct (S.upward e t u) (t - e) = 0 := by
  rw [Space.upward, Space.backward, map_smul, LinearMap.smul_apply, smul_dotProduct, dotProduct_comm, ← neg_sub e t,
    neg_dotProduct, dot_self_cross, neg_zero, smul_zero]

/-! ## Perspectives -/

def perspectiveMatrix (S : Space F) (φ a n f : F) : Matrix (Fin 4) (Fin 4) F := ofColumns
  [1 / S.tan (φ / 2) / a, 0, 0, 0, 0, 1 / S.tan (φ / 2), 0, 0, 0, 0, (f + n) / (n - f), -1,
    0, 0, 2 * f * n / (n - f), 0]

theorem denote_perspective {fov aspect near far : Node} {φ a n f : F}
    (hfov : fov.denote (S.interpret base) = some (.float, .scalar φ))
    (haspect : aspect.denote (S.interpret base) = some (.float, .scalar a))
    (hnear : near.denote (S.interpret base) = some (.float, .scalar n))
    (hfar : far.denote (S.interpret base) = some (.float, .scalar f)) (w : Workspace) :
    ((perspective fov aspect near far).run w).1.denote (S.interpret base) =
      some (.mat4, .matrix (perspectiveMatrix S φ a n f)) := by
  simp only [perspective, run_bind, float, run_node, Build.add, Build.sub, Build.mult, Build.div, builtin, operator,
    construct, Node.denote, Node.denoteAll, hfov, haspect, hnear, hfar, Space.float_interpret, rational_zero,
    rational_one, rational_two, rational_neg_one, Rat.cast_zero, Rat.cast_one, Rat.cast_neg, Rat.cast_ofNat]
  rfl

theorem perspectiveMatrix_mulVec (S : Space F) (φ a n f x y z : F) :
    (perspectiveMatrix S φ a n f).mulVec ![x, y, z, 1] =
      ![1 / S.tan (φ / 2) / a * x, 1 / S.tan (φ / 2) * y, ((f + n) * z + 2 * f * n) / (n - f), -z] := by
  ext r
  fin_cases r <;>
    simp [perspectiveMatrix, ofColumns, Matrix.mulVec, dotProduct, Fin.sum_univ_succ]
  ring

/-- A view takes the eye to the origin and the target to the axis that it looks along. A perspective divides by
the depth, and takes the near plane to one end of the depth range and the far plane to the other. -/
theorem cameras_project (S : Space F) (base : Interpretation (Spatial F)) (hw : w.Ready) :
    (∀ (eye target up : Node) (e t u : Fin 3 → F), eye.denote (S.interpret base) = some (.vec3, .vector e) →
      target.denote (S.interpret base) = some (.vec3, .vector t) →
      up.denote (S.interpret base) = some (.vec3, .vector u) →
      ∃ m, ((view eye target up).run w).1.denote (S.interpret base) = some (.mat4, .matrix m) ∧
        m.mulVec (point e) = ![0, 0, 0, 1] ∧
        m.mulVec (point t) 0 = 0 ∧ m.mulVec (point t) 1 = 0 ∧ m.mulVec (point t) 3 = 1) ∧
    ∀ (fov aspect near far : Node) (φ a n f : F), fov.denote (S.interpret base) = some (.float, .scalar φ) →
      aspect.denote (S.interpret base) = some (.float, .scalar a) →
      near.denote (S.interpret base) = some (.float, .scalar n) →
      far.denote (S.interpret base) = some (.float, .scalar f) → n ≠ 0 → f ≠ 0 → n - f ≠ 0 →
      ∃ m, ((perspective fov aspect near far).run w).1.denote (S.interpret base) = some (.mat4, .matrix m) ∧
        (∀ x y z, m.mulVec ![x, y, z, 1] 3 = -z) ∧
        (∀ x y, m.mulVec ![x, y, -n, 1] 2 / m.mulVec ![x, y, -n, 1] 3 = -1) ∧
        ∀ x y, m.mulVec ![x, y, -f, 1] 2 / m.mulVec ![x, y, -f, 1] 3 = 1 := by
  constructor
  · intro eye target up e t u heye htarget hup
    refine ⟨_, denote_view hw heye htarget hup, ?_⟩
    simp only [axesMatrix_mulVec, sub_self, dotProduct_zero, rightward_dotProduct, upward_dotProduct]
    exact ⟨trivial, rfl, rfl, rfl⟩
  · intro fov aspect near far φ a n f hfov haspect hnear hfar hn hf hnf
    refine ⟨_, denote_perspective hfov haspect hnear hfar w, ?_⟩
    simp only [perspectiveMatrix_mulVec]
    refine ⟨fun x y z => rfl, fun x y => ?_, fun x y => ?_⟩
    · show ((f + n) * -n + 2 * f * n) / (n - f) / - -n = -1
      field_simp
      ring
    · show ((f + n) * -f + 2 * f * n) / (n - f) / - -f = 1
      field_simp
      ring

/-- Uniforms for an eye, a target, an upward direction, and the two planes. -/
def scene : Interpretation (Spatial ℚ) where
  float _ := .scalar 0
  bool _ := .scalar 0
  resource name := ([("uniform1", .vector ![0, 3, 4]), ("uniform2", .vector ![1, 1, 2]),
    ("uniform3", .vector ![0, 1, 0]), ("uniform4", .scalar 1)].lookup name).getD (.scalar 10)
  coordinate _ := .scalar 0
  resolution := .scalar 0
  operation _ _ := .scalar 0
  call _ _ := .scalar 0
  literals _ _ := .scalar 0
  field _ _ := .scalar 0
  select _ _ _ := .scalar 0
  convert _ q := q

theorem scene_cameras_project :
    (∃ m, ((view (.uniform 1 ⟨1, .vec3, none, none⟩) (.uniform 2 ⟨2, .vec3, none, none⟩)
      (.uniform 3 ⟨3, .vec3, none, none⟩)).run {}).1.denote (Space.interpret ⟨id, fun _ => 2⟩ scene) =
        some (.mat4, .matrix m) ∧ m.mulVec (point ![0, 3, 4]) = ![0, 0, 0, 1] ∧ m.mulVec (point ![1, 1, 2]) 0 = 0) ∧
    ∃ m, ((perspective (.uniform 5 ⟨5, .float, none, none⟩) (.uniform 6 ⟨6, .float, none, none⟩)
      (.uniform 4 ⟨4, .float, none, none⟩) (.uniform 7 ⟨7, .float, none, none⟩)).run {}).1.denote
        (Space.interpret ⟨id, fun _ => 2⟩ scene) = some (.mat4, .matrix m) ∧
      m.mulVec ![0, 0, -10, 1] 2 / m.mulVec ![0, 0, -10, 1] 3 = 1 := by
  obtain ⟨hview, hperspective⟩ := cameras_project ⟨id, fun _ => 2⟩ scene
    (w := {}) (fun _ h => absurd h not_mem_nil)
  obtain ⟨m, hm, heye, htarget, -⟩ := hview (.uniform 1 ⟨1, .vec3, none, none⟩) (.uniform 2 ⟨2, .vec3, none, none⟩)
    (.uniform 3 ⟨3, .vec3, none, none⟩) ![0, 3, 4] ![1, 1, 2] ![0, 1, 0] rfl rfl rfl
  obtain ⟨p, hp, -, -, hfar⟩ := hperspective (.uniform 5 ⟨5, .float, none, none⟩) (.uniform 6 ⟨6, .float, none, none⟩)
    (.uniform 4 ⟨4, .float, none, none⟩) (.uniform 7 ⟨7, .float, none, none⟩) 10 10 1 10 rfl rfl rfl rfl
    (by norm_num) (by norm_num) (by norm_num)
  exact ⟨⟨m, hm, heye, htarget⟩, p, hp, hfar 0 0⟩

end ShaderGraph
