import ShaderGraph.Proofs.Positional
import ShaderGraph.Shape.Basic

/-!
# Compositions of shapes

A shape is made of literals, of uniforms and of shapes made before. `Composition` names the ways to
make one, and `Composition.nodes` lists the nodes that its body is made of, in the order of their ids.
Drawing an accepted composition makes exactly these nodes under the next free ids, and a function of
the next number.
-/

namespace ShaderGraph

open List

variable {w : Workspace} {i : NodeId} {n : Node} {d : Drawing} {combinator : String} {x : Build Shape}

def Node.IsUniform (type : GlType) (n : Node) : Prop :=
  ∃ id u, n = .uniform id u ∧ u.type = type ∧ u.misfit = none

/-- How a shape is made. -/
inductive Composition where
  | circle (radius : Float32)
  | rectangle (x y : Float32)
  | line (a b : Point) (width : Float32)
  | hexagon (side : Float32)
  | union (shapes : List Shape)
  | intersection (a b : Shape)
  | difference (a b : Shape)
  | smoothUnion (k : Float32) (a b : Shape)
  | annulus (s : Shape) (thickness : Float32)
  | translate (s : Shape) (offset : Node)
  | scale (s : Shape) (factor : Node)
  | rotate (s : Shape) (angle : Node)

def Point.along (a b : Point) : Point := ⟨b.x - a.x, b.y - a.y⟩

def Point.square (a : Point) : Float32 := a.x * a.x + a.y * a.y

namespace Composition

open Shape (acceptable)

def draw : Composition → Draw Shape
  | circle r => Shape.circle r
  | rectangle x y => Shape.rectangle x y
  | line a b w => Shape.line a b w
  | hexagon s => Shape.hexagon s
  | union ss => Shape.union ss
  | intersection a b => Shape.intersection a b
  | difference a b => Shape.difference a b
  | smoothUnion k a b => Shape.smoothUnion k a b
  | annulus s t => Shape.annulus s t
  | translate s n => Shape.translate s n
  | scale s n => Shape.scale s n
  | rotate s n => Shape.rotate s n

def parts : Composition → List Shape
  | circle _ | rectangle .. | line .. | hexagon _ => []
  | union ss => ss
  | intersection a b | difference a b | smoothUnion _ a b => [a, b]
  | annulus s _ | translate s _ | scale s _ | rotate s _ => [s]

def given : Composition → List Node
  | translate s n | scale s n | rotate s n => [s.fn, n]
  | c => c.parts.map (·.fn)

/-- Dimensions are accepted, there are shapes to unite, and nodes are uniforms of the right type. -/
def Accepted : Composition → Prop
  | circle r => acceptable r
  | rectangle x y => acceptable x ∧ acceptable y
  | line a b w => acceptable w ∧ ¬ (a.along b).square < Shape.leastSquare
  | hexagon s => acceptable s
  | union ss => 2 ≤ ss.length
  | intersection .. | difference .. => True
  | smoothUnion k _ _ => acceptable k
  | annulus _ t => acceptable t
  | translate _ n => n.IsUniform .vec2
  | scale _ n | rotate _ n => n.IsUniform .float

/-- The dimensions are accepted, and there are shapes to unite. -/
def Sized : Composition → Prop
  | translate .. | scale .. | rotate .. => True
  | c => c.Accepted

def kind : Composition → String
  | circle _ => "circle"
  | rectangle .. => "rect"
  | line .. => "line"
  | hexagon _ => "hex"
  | union _ => "union"
  | intersection .. => "intersect"
  | difference .. => "diff"
  | smoothUnion .. => "smoothUnion"
  | annulus .. => "annulus"
  | translate .. => "translate"
  | scale .. => "scale"
  | rotate .. => "rotate"

end Composition

/-! ## Nodes -/

def Node.position (id : NodeId) : Node := .argument id "p" 0 .vec2

/-- The distance from a shape at the position, whose node comes right before. -/
def Shape.distanceNode (s : Shape) (id : NodeId) : Node := .call (id + 1) s.fn [.position id]

/-- The distances from shapes, each after its position. -/
def Shape.distanceNodes : List Shape → NodeId → List Node
  | [], _ => []
  | s :: ss, b => .position b :: s.distanceNode b :: distanceNodes ss (b + 2)

def Shape.distancesAt : List Shape → NodeId → List Node
  | [], _ => []
  | s :: ss, b => s.distanceNode b :: distancesAt ss (b + 2)

/-- The nodes that narrow a distance down to the least one. -/
def Shape.leastNodes (d : Node) : List Node → NodeId → List Node
  | [], _ => []
  | e :: es, b => .builtin b .min [d, e] :: leastNodes (.builtin b .min [d, e]) es (b + 1)

namespace Composition

/-- The nodes of the body from the id `b` on, in the order of their ids. -/
def nodes : Composition → NodeId → List Node
  | circle r, b =>
    let p := .position b
    let d := .builtin (b + 1) .length [p]
    let r := .float (b + 2) r
    [p, d, r, .operator (b + 3) .sub [d, r]]
  | rectangle x y, b =>
    let p := .position b
    let q := .builtin (b + 1) .abs [p]
    let corner := .constant (b + 2) (.vec2 (x / 2) (y / 2))
    let d := .operator (b + 3) .sub [q, corner]
    let zero := .float (b + 4) 0
    let beyond := .builtin (b + 5) .max [d, zero]
    let outside := .builtin (b + 6) .length [beyond]
    let dx := .swizzle (b + 7) d "x"
    let dy := .swizzle (b + 8) d "y"
    let m := .builtin (b + 9) .max [dx, dy]
    let zero' := .float (b + 10) 0
    let inside := .builtin (b + 11) .min [m, zero']
    [p, q, corner, d, zero, beyond, outside, dx, dy, m, zero', inside,
      .operator (b + 12) .add [outside, inside]]
  | line e f w, b =>
    let along := .constant b (.vec2 (e.along f).x (e.along f).y)
    let p := .position (b + 1)
    let start := .constant (b + 2) (.vec2 e.x e.y)
    let pa := .operator (b + 3) .sub [p, start]
    let dot := .builtin (b + 4) .dot [pa, along]
    let square := .float (b + 5) (e.along f).square
    let t := .operator (b + 6) .div [dot, square]
    let zero := .float (b + 7) 0
    let one := .float (b + 8) 1
    let h := .builtin (b + 9) .clamp [t, zero, one]
    let near := .operator (b + 10) .mult [along, h]
    let away := .operator (b + 11) .sub [pa, near]
    let d := .builtin (b + 12) .length [away]
    let half := .float (b + 13) (w / 2)
    [along, p, start, pa, dot, square, t, zero, one, h, near, away, d, half,
      .operator (b + 14) .sub [d, half]]
  | hexagon s, b =>
    let k := .constant b (.vec2 (-0.8660254037844386467637) 0.5)
    let p := .position (b + 1)
    let q := .builtin (b + 2) .abs [p]
    let two := .float (b + 3) 2
    let dot := .builtin (b + 4) .dot [k, q]
    let zero := .float (b + 5) 0
    let m := .builtin (b + 6) .min [dot, zero]
    let fold := .operator (b + 7) .mult [two, m, k]
    let q' := .operator (b + 8) .sub [q, fold]
    let x := .swizzle (b + 9) q' "x"
    let lo := .float (b + 10) (-0.577350269 * s)
    let hi := .float (b + 11) (0.577350269 * s)
    let x' := .builtin (b + 12) .clamp [x, lo, hi]
    let side := .float (b + 13) s
    let edge := .construct (b + 14) .vec2 [x', side]
    let q'' := .operator (b + 15) .sub [q', edge]
    let away := .builtin (b + 16) .length [q'']
    let y := .swizzle (b + 17) q'' "y"
    let sign := .builtin (b + 18) .sign [y]
    [k, p, q, two, dot, zero, m, fold, q', x, lo, hi, x', side, edge, q'', away, y, sign,
      .operator (b + 19) .mult [away, sign]]
  | union [], _ => []
  | union (s :: ss), b =>
    Shape.distanceNodes (s :: ss) b ++
      Shape.leastNodes (s.distanceNode b) (Shape.distancesAt ss (b + 2)) (b + 2 * (ss.length + 1))
  | intersection s t, b =>
    let d := s.distanceNode b
    let e := t.distanceNode (b + 2)
    [.position b, d, .position (b + 2), e, .builtin (b + 4) .max [d, e]]
  | difference s t, b =>
    let d := s.distanceNode b
    let e := t.distanceNode (b + 2)
    let minus := .float (b + 4) (-1)
    let outside := .operator (b + 5) .mult [e, minus]
    [.position b, d, .position (b + 2), e, minus, outside, .builtin (b + 6) .max [d, outside]]
  | smoothUnion k s t, b =>
    let d := s.distanceNode b
    let e := t.distanceNode (b + 2)
    let start := .float (b + 4) 0.5
    let half := .float (b + 5) 0.5
    let apart := .operator (b + 6) .sub [e, d]
    let m := .operator (b + 7) .mult [half, apart]
    let width := .float (b + 8) k
    let q := .operator (b + 9) .div [m, width]
    let share := .operator (b + 10) .add [start, q]
    let zero := .float (b + 11) 0
    let one := .float (b + 12) 1
    let h := .builtin (b + 13) .clamp [share, zero, one]
    let k' := .float (b + 14) k
    let one' := .float (b + 15) 1
    let rest := .operator (b + 16) .sub [one', h]
    let blend := .operator (b + 17) .mult [k', h, rest]
    let mix := .builtin (b + 18) .mix [e, d, h]
    [.position b, d, .position (b + 2), e, start, half, apart, m, width, q, share, zero, one, h, k', one',
      rest, blend, mix, .operator (b + 19) .sub [mix, blend]]
  | annulus s t, b =>
    let d := s.distanceNode b
    let inner := .builtin (b + 2) .abs [d]
    let half := .float (b + 3) (t / 2)
    [.position b, d, inner, half, .operator (b + 4) .sub [inner, half]]
  | translate s n, b =>
    let p := .position b
    let q := .operator (b + 1) .sub [p, n]
    [p, q, .call (b + 2) s.fn [q]]
  | scale s n, b =>
    let p := .position b
    let q := .operator (b + 1) .div [p, n]
    let d := .call (b + 2) s.fn [q]
    [p, q, d, .operator (b + 3) .mult [d, n]]
  | rotate s n, b =>
    let c := .builtin b .cos [n]
    let sn := .builtin (b + 1) .sin [n]
    let p := .position (b + 2)
    let px := .swizzle (b + 3) p "x"
    let x1 := .operator (b + 4) .mult [c, px]
    let py := .swizzle (b + 5) p "y"
    let x2 := .operator (b + 6) .mult [sn, py]
    let x := .operator (b + 7) .add [x1, x2]
    let y1 := .operator (b + 8) .mult [c, py]
    let y2 := .operator (b + 9) .mult [sn, px]
    let y := .operator (b + 10) .sub [y1, y2]
    let q := .construct (b + 11) .vec2 [x, y]
    [c, sn, p, px, x1, py, x2, x, y1, y2, y, q, .call (b + 12) s.fn [q]]

def body (c : Composition) (b : NodeId) : Node := (c.nodes b).getLastD .absent

def size (c : Composition) : Nat := (c.nodes 0).length

def shape (c : Composition) (b : NodeId) (number : Nat) : Shape :=
  ⟨.defun (b + c.size) (c.kind ++ toString number) (c.body b)⟩

end Composition

/-! ## Runs of builders -/

/-- Every swizzle that is shared is one of a node that is made. -/
def Workspace.Ready (w : Workspace) : Prop := ∀ p ∈ w.swizzles, p.1.1 < w.nextId

theorem Workspace.Ready.lookup (h : w.Ready) (hi : w.nextId ≤ i) (fields : String) :
    w.swizzles.lookup (i, fields) = none := by
  rw [lookup_eq_none_iff]
  intro p hp
  have hlt := h p hp
  rw [bne_iff_ne]
  intro heq
  rw [← heq] at hlt
  exact Nat.not_lt.mpr hi hlt

theorem Workspace.Ready.grow {w' : Workspace} (h : w.Ready) (new : List ((NodeId × String) × Node))
    (hs : w'.swizzles = new ++ w.swizzles) (hle : w.nextId ≤ w'.nextId) (hnew : ∀ p ∈ new, p.1.1 < w'.nextId) :
    w'.Ready := by
  intro p hp
  rw [hs] at hp
  rcases mem_append.mp hp with hp | hp
  · exact hnew p hp
  · exact (h p hp).trans_le hle

theorem lookup_of_ne {j : NodeId} {fields fields' : String} (h : fields ≠ fields') (sw : Node)
    (l : List ((NodeId × String) × Node)) :
    List.lookup (i, fields) (((j, fields'), sw) :: l) = l.lookup (i, fields) := by
  have hne : ((i, fields) == (j, fields')) = false := beq_eq_false_iff_ne.mpr fun heq => h (Prod.mk.inj heq).2
  rw [lookup_cons, hne]

namespace Build

theorem run_bind {α β : Type} (x : Build α) (f : α → Build β) (w : Workspace) :
    (x >>= f).run w = (f (x.run w).1).run (x.run w).2 := rfl

theorem run_swizzle_new (fields : String) (hn : n.isAbsent = false)
    (h : w.swizzles.lookup (n.id, fields) = none) :
    (swizzle n fields).run w = (.swizzle w.nextId n fields, { w with
      nextId := w.nextId + 1
      swizzles := ((n.id, fields), .swizzle w.nextId n fields) :: w.swizzles }) := by
  have hget : (get : Build Workspace).run w = (w, w) := rfl
  unfold swizzle
  rw [hn, if_neg Bool.false_ne_true, run_bind, hget]
  dsimp only
  rw [h]
  rfl

theorem run_swizzle_known (fields : String) (sw : Node) (hn : n.isAbsent = false)
    (h : w.swizzles.lookup (n.id, fields) = some sw) : (swizzle n fields).run w = (sw, w) := by
  have hget : (get : Build Workspace).run w = (w, w) := rfl
  unfold swizzle
  rw [hn, if_neg Bool.false_ne_true, run_bind, hget]
  dsimp only
  rw [h]
  rfl

end Build

namespace Draw

theorem run_build {α : Type} {x : Build α} {a : α} (h : x.run d.work = (a, w)) :
    (build x).run.run d = (.ok a, { d with work := w }) := by
  have hrun : (build x).run.run d = (.ok (x.run d.work).1, { d with work := (x.run d.work).2 }) := rfl
  rw [hrun, h]

theorem run_bind {α β : Type} {x : Draw α} {a : α} {d' : Drawing} (h : x.run.run d = (.ok a, d'))
    (f : α → Draw β) : (x >>= f).run.run d = (f a).run.run d' := by
  simp only [ExceptT.run_bind, StateT.run_bind, h]
  rfl

theorem require_eq {operands : List Node} (h : ∀ n ∈ operands, n.isAbsent = false) :
    require combinator operands = pure () := by
  refine if_neg ?_
  rw [any_eq_true]
  rintro ⟨n, hn, habsent⟩
  exact Bool.false_ne_true ((h n hn).symm.trans habsent)

end Draw

/-! ## Drawing a composition -/

namespace Composition

variable {c : Composition}

/-- The builder makes the nodes of the composition under the next free ids, and a function of the next
number. -/
def MadeBy (c : Composition) (x : Build Shape) : Prop :=
  ∀ w : Workspace, w.Ready → ∃ w', x.run w = (c.shape w.nextId (w.shapes + 1), w') ∧
    w'.nextId = w.nextId + c.size + 1 ∧ w'.shapes = w.shapes + 1 ∧ w'.Ready

def DrawnBy (c : Composition) (x : Draw Shape) : Prop :=
  ∀ d : Drawing, d.work.Ready → ∃ w', x.run.run d =
      (.ok (c.shape d.work.nextId (d.work.shapes + 1)), { d with work := w' }) ∧
    w'.nextId = d.work.nextId + c.size + 1 ∧ w'.shapes = d.work.shapes + 1 ∧ w'.Ready

theorem MadeBy.of_run
    (h : ∀ w : Workspace, x.run w = (c.shape w.nextId (w.shapes + 1), { w with
      nextId := w.nextId + c.size + 1
      shapes := w.shapes + 1 })) : c.MadeBy x := by
  intro w hw
  exact ⟨_, h w, rfl, rfl, hw.grow [] rfl (Nat.le_add_right w.nextId (c.size + 1)) fun _ hp => by cases hp⟩

theorem MadeBy.drawnBy (h : c.MadeBy x) {y : Draw Shape} (hy : y = Draw.build x) : c.DrawnBy y := by
  intro d hd
  obtain ⟨w', hrun, hw'⟩ := h d.work hd
  exact ⟨w', hy ▸ Draw.run_build hrun, hw'⟩

theorem MadeBy.drawnBy_require (h : c.MadeBy x) (hrequire : Draw.require combinator c.given = pure ()) :
    c.DrawnBy (Draw.require combinator c.given >>= fun _ => Draw.build x) :=
  h.drawnBy (by rw [hrequire, pure_bind])

theorem rectangle_madeBy (x y : Float32) : (rectangle x y).MadeBy (Shape.rectangleBody x y) := by
  intro w hw
  have hnone := hw.lookup (Nat.le_add_right w.nextId 3)
  have hlt : w.nextId + 3 < w.nextId + 14 := Nat.add_lt_add_left (by decide) _
  unfold Shape.rectangleBody
  simp only [Build.run_bind]
  rw [Build.run_swizzle_new "x" rfl, Build.run_swizzle_new "y" rfl]
  · exact ⟨_, rfl, rfl, rfl, hw.grow [_, _] rfl (Nat.le_add_right w.nextId 14)
      (forall_mem_cons.mpr ⟨hlt, forall_mem_singleton.mpr hlt⟩)⟩
  · exact (lookup_of_ne (by decide) _ _).trans (hnone "y")
  · exact hnone "x"

theorem hexagon_madeBy (side : Float32) : (hexagon side).MadeBy (Shape.hexagonBody side) := by
  intro w hw
  have hx : w.nextId + 8 < w.nextId + 21 := Nat.add_lt_add_left (by decide) _
  have hy : w.nextId + 15 < w.nextId + 21 := Nat.add_lt_add_left (by decide) _
  unfold Shape.hexagonBody
  simp only [Build.run_bind]
  rw [Build.run_swizzle_new "x" rfl, Build.run_swizzle_new "y" rfl]
  · exact ⟨_, rfl, rfl, rfl, hw.grow [_, _] rfl (Nat.le_add_right w.nextId 21)
      (forall_mem_cons.mpr ⟨hy, forall_mem_singleton.mpr hx⟩)⟩
  · exact (lookup_of_ne (by decide) _ _).trans (hw.lookup (Nat.le_add_right w.nextId 15) "y")
  · exact hw.lookup (Nat.le_add_right w.nextId 8) "x"

theorem rotate_drawnBy {s : Shape} {angle : Node}
    (hrequire : Draw.require "Rotate" [s.fn, angle] = pure ()) :
    (rotate s angle).DrawnBy (Shape.rotate s angle) := by
  unfold Shape.rotate
  rw [hrequire, pure_bind]
  refine MadeBy.drawnBy (fun w hw => ?_) rfl
  have hnone := hw.lookup (Nat.le_add_right w.nextId 2)
  have hlt : w.nextId + 2 < w.nextId + 14 := Nat.add_lt_add_left (by decide) _
  simp only [Build.run_bind]
  rw [Build.run_swizzle_new "x" rfl, Build.run_swizzle_new "y" rfl,
    Build.run_swizzle_known "y" (.swizzle (w.nextId + 5) (.position (w.nextId + 2)) "y") rfl,
    Build.run_swizzle_known "x" (.swizzle (w.nextId + 3) (.position (w.nextId + 2)) "x") rfl]
  · exact ⟨_, rfl, rfl, rfl, hw.grow [_, _] rfl (Nat.le_add_right w.nextId 14)
      (forall_mem_cons.mpr ⟨hlt, forall_mem_singleton.mpr hlt⟩)⟩
  · exact (lookup_of_ne (by decide) _ _).trans lookup_cons_self
  · exact lookup_cons_self
  · exact (lookup_of_ne (by decide) _ _).trans (hnone "y")
  · exact hnone "x"

end Composition

/-! ### Unions -/

namespace Shape

theorem length_distanceNodes (ss : List Shape) (b : NodeId) : (distanceNodes ss b).length = 2 * ss.length := by
  induction ss generalizing b with
  | nil => rfl
  | cons s ss ih => simp [distanceNodes, ih, Nat.mul_succ]

theorem length_distancesAt (ss : List Shape) (b : NodeId) : (distancesAt ss b).length = ss.length := by
  induction ss generalizing b with
  | nil => rfl
  | cons s ss ih => simp [distancesAt, ih]

theorem length_leastNodes (d : Node) (es : List Node) (b : NodeId) :
    (leastNodes d es b).length = es.length := by
  induction es generalizing d b with
  | nil => rfl
  | cons e es ih => simp [leastNodes, ih]

theorem distances_run (ss : List Shape) (h : ∀ s ∈ ss, s.fn.isAbsent = false) (d : Drawing) :
    (distances ss).run.run d = (.ok (distancesAt ss d.work.nextId),
      { d with work := { d.work with nextId := d.work.nextId + 2 * ss.length } }) := by
  induction ss generalizing d with
  | nil => rfl
  | cons s ss ih =>
    obtain ⟨hs, hss⟩ := forall_mem_cons.mp h
    have hrequire : Draw.require "Union" [s.fn] = pure () :=
      Draw.require_eq (forall_mem_singleton.mpr hs)
    have hhere : (Draw.build (Build.distanceHere s)).run.run d =
        (.ok (s.distanceNode d.work.nextId), { d with work := { d.work with nextId := d.work.nextId + 2 } }) :=
      rfl
    have hlen (b : Nat) : b + 2 + 2 * ss.length = b + 2 * (ss.length + 1) := by omega
    rw [distances, hrequire, pure_bind, Draw.run_bind hhere, Draw.run_bind (ih hss _)]
    simp only [hlen]
    rfl

theorem least_run (d : Node) (es : List Node) (w : Workspace) : (least d es).run w =
    ((leastNodes d es w.nextId).getLastD d, { w with nextId := w.nextId + es.length }) := by
  induction es generalizing d w with
  | nil => rfl
  | cons e es ih =>
    have hmin : (Build.min d e).run w = (.builtin w.nextId .min [d, e], { w with nextId := w.nextId + 1 }) := rfl
    have hlen (b : Nat) : b + 1 + es.length = b + (es.length + 1) := by omega
    rw [least, Build.run_bind, hmin, ih, leastNodes, getLastD_cons]
    simp only [hlen]
    rfl

theorem newUnion_run (d : Node) (es : List Node) (w : Workspace) :
    (do Build.newShape "union" (← least d es) : Build Shape).run w =
      (⟨.defun (w.nextId + es.length) ("union" ++ toString (w.shapes + 1))
        ((leastNodes d es w.nextId).getLastD d)⟩,
        { w with nextId := w.nextId + es.length + 1, shapes := w.shapes + 1 }) := by
  rw [Build.run_bind, least_run]
  rfl

end Shape

namespace Composition

variable {c : Composition}

theorem union_size (s : Shape) (ss : List Shape) :
    (union (s :: ss)).size = 2 * (ss.length + 1) + ss.length := by
  rw [size, nodes, length_append, Shape.length_distanceNodes, Shape.length_leastNodes,
    Shape.length_distancesAt, length_cons]

theorem union_body (s t : Shape) (ss : List Shape) (b : NodeId) :
    (union (s :: t :: ss)).body b = (Shape.leastNodes (s.distanceNode b)
      (Shape.distancesAt (t :: ss) (b + 2)) (b + 2 * (ss.length + 2))).getLastD (s.distanceNode b) := by
  simp only [body, nodes, Shape.distancesAt, Shape.leastNodes, length_cons,
    getLastD_eq_getLast?, getLast?_append_cons, getLast?_cons, Option.getD_some]

theorem union_drawnBy {ss : List Shape} (h : 2 ≤ ss.length) (hss : ∀ s ∈ ss, s.fn.isAbsent = false) :
    (union ss).DrawnBy (Shape.union ss) := by
  obtain _ | ⟨s, _ | ⟨t, ss⟩⟩ := ss
  · cases h
  · simp at h
  · intro d hd
    have hbuild := Shape.newUnion_run (s.distanceNode d.work.nextId)
      (Shape.distancesAt (t :: ss) (d.work.nextId + 2))
      { d.work with nextId := d.work.nextId + 2 * (ss.length + 2) }
    have hrun : (Shape.union (s :: t :: ss)).run.run d = _ :=
      (Draw.run_bind (Shape.distances_run _ hss d) _).trans (Draw.run_build hbuild)
    have hsize (b : Nat) : b + (2 * (ss.length + 1 + 1) + (ss.length + 1)) =
      b + 2 * (ss.length + 2) + (ss.length + 1) := by omega
    have hle (b : Nat) : b ≤ b + 2 * (ss.length + 2) + (ss.length + 1) + 1 := by omega
    simp only [Shape.length_distancesAt, length_cons] at hrun
    simp only [shape, union_body, union_size, length_cons, hsize]
    exact ⟨_, hrun, rfl, rfl, hd.grow [] rfl (hle _) fun _ hp => by cases hp⟩

theorem Accepted.sized (hc : c.Accepted) : c.Sized := by
  cases c with
  | translate | scale | rotate => trivial
  | _ => exact hc

/-- Drawing a composition of accepted dimensions makes its nodes and the function, without an error. -/
theorem drawnBy (hc : c.Sized) (hgiven : ∀ n ∈ c.given, n.isAbsent = false) : c.DrawnBy c.draw := by
  have hrequire (combinator : String) : Draw.require combinator c.given = pure () := Draw.require_eq hgiven
  cases c with
  | circle r =>
    have hr : Shape.acceptable r := hc
    exact (MadeBy.of_run fun _ => rfl).drawnBy (x := Shape.circleBody r) (by simp [draw, Shape.circle, hr])
  | rectangle x y =>
    obtain ⟨hx, hy⟩ : Shape.acceptable x ∧ Shape.acceptable y := hc
    exact (rectangle_madeBy x y).drawnBy (by simp [draw, Shape.rectangle, hx, hy])
  | line a b width =>
    obtain ⟨hw, hne⟩ : Shape.acceptable width ∧ ¬ (a.along b).square < Shape.leastSquare := hc
    refine MadeBy.drawnBy (x := Shape.lineBody a (a.along b) (a.along b).square width)
      (.of_run fun _ => rfl) ?_
    rw [draw, Shape.line, hw]
    exact if_neg hne
  | hexagon side =>
    have hs : Shape.acceptable side := hc
    exact (hexagon_madeBy side).drawnBy (by simp [draw, Shape.hexagon, hs])
  | union ss => exact union_drawnBy hc fun s hs => hgiven _ (mem_map_of_mem hs)
  | intersection s t => exact (MadeBy.of_run fun _ => rfl).drawnBy_require (hrequire _)
  | difference s t => exact (MadeBy.of_run fun _ => rfl).drawnBy_require (hrequire _)
  | smoothUnion k s t =>
    have hk : Shape.acceptable k := hc
    rw [draw, Shape.smoothUnion, hk]
    exact (MadeBy.of_run fun _ => rfl).drawnBy_require (hrequire _)
  | annulus s t =>
    have ht : Shape.acceptable t := hc
    rw [draw, Shape.annulus, ht]
    exact (MadeBy.of_run fun _ => rfl).drawnBy_require (hrequire _)
  | translate s n => exact (MadeBy.of_run fun _ => rfl).drawnBy_require (hrequire _)
  | scale s n => exact (MadeBy.of_run fun _ => rfl).drawnBy_require (hrequire _)
  | rotate s n => exact rotate_drawnBy (hrequire "Rotate")

end Composition

end ShaderGraph
