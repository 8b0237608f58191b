import ShaderGraph.Proofs.Finiteness
import ShaderGraph.Proofs.Magnitudes
import ShaderGraph.Proofs.Shapes

/-!
# Dimensions of shapes

Dimensions that cannot be drawn are reported, and a drawing without an error is made of dimensions that
were accepted. Their literals are finite, except that the ends of a line may be anything: the square of
its length may overflow, or not be a number.
-/

namespace ShaderGraph

open Eval List

/-! ## Errors -/

namespace Draw

variable {α β : Type} {P Q : Prop}

/-- Errors are never taken back, and returning without any takes that the condition holds. -/
def Checks (x : Draw α) (P : Prop) : Prop :=
  ∀ d a d', x.run.run d = (.ok a, d') → d.errors <+: d'.errors ∧ (d'.errors = [] → P)

theorem Checks.mono {x : Draw α} (h : Checks x P) (hPQ : P → Q) : Checks x Q :=
  fun d a d' hrun => (h d a d' hrun).imp_right (hPQ ∘ ·)

theorem Checks.pure {a : α} : Checks (pure a) True := by
  intro d a' d' hrun
  cases hrun
  exact ⟨prefix_refl _, fun _ => trivial⟩

theorem Checks.build {b : Build α} : Checks (build b) True := by
  intro d a d' hrun
  cases hrun
  exact ⟨prefix_refl _, fun _ => trivial⟩

theorem Checks.require {combinator : String} {ns : List Node} : Checks (require combinator ns) True := by
  unfold Draw.require
  split
  · exact fun d a d' hrun => by cases hrun
  · exact .pure

/-- It stops if the drawing is strict, and collects the error otherwise. -/
theorem Checks.report {e : DimensionError} : Checks (Draw.report e) False := by
  intro d a d' hrun
  have heq : (Draw.report e).run.run d = (if d.strict then throw (.dimension e)
    else modify fun d => { d with errors := d.errors ++ [e] } : Draw Unit).run.run d := rfl
  rw [heq] at hrun
  split at hrun
  · cases hrun
  · cases hrun
    exact ⟨prefix_append _ _, fun hnil => append_ne_nil_of_right_ne_nil _ (cons_ne_nil e []) hnil⟩

theorem Checks.bind {x : Draw α} {f : α → Draw β} (hx : Checks x P) (hf : ∀ a, Checks (f a) Q) :
    Checks (x >>= f) (P ∧ Q) := by
  intro d b d'' hrun
  cases h : x.run.run d with
  | mk r d' =>
    cases r with
    | error e =>
      have heq : (x >>= f).run.run d = (ExceptT.bindCont f (x.run.run d).1).run (x.run.run d).2 := rfl
      rw [heq, h] at hrun
      cases hrun
    | ok a =>
      rw [run_bind h] at hrun
      obtain ⟨hkept, hP⟩ := hx d a d' h
      obtain ⟨hkept', hQ⟩ := hf a d' b d'' hrun
      exact ⟨hkept.trans hkept', fun hnil => ⟨hP (prefix_nil.mp (hnil ▸ hkept')), hQ hnil⟩⟩

theorem Checks.guarded {bad : Bool} {e : DimensionError} {b : Build Shape} :
    Checks (do
      if bad then Draw.report e
      Draw.build b) (bad = false) := by
  cases bad with
  | true => exact (Checks.report.bind fun _ => .build).mono fun h => h.1.elim
  | false => exact Checks.build.mono fun _ => rfl

end Draw

namespace Composition

variable {c : Composition}

open Draw (Checks)

theorem checks_circle (r : Float32) : Checks (Shape.circle r) (Shape.acceptable r) :=
  Checks.guarded.mono fun h => by simpa using h

theorem checks_distances (ss : List Shape) : Checks (Shape.distances ss) True := by
  induction ss with
  | nil => exact .pure
  | cons s ss ih =>
    exact (Checks.require.bind fun _ => Checks.build.bind fun _ => ih.bind fun _ => .pure).mono fun _ => trivial

theorem checks_union (ss : List Shape) : Checks (Shape.union ss) (2 ≤ ss.length) := by
  have hcircle : Checks (Shape.circle 1) True := (checks_circle 1).mono fun _ => trivial
  obtain _ | ⟨s, _ | ⟨t, ss⟩⟩ := ss
  · exact (Checks.report.bind fun _ => hcircle).mono fun h => h.1.elim
  · exact (Checks.report.bind fun _ => .pure).mono fun h => h.1.elim
  · refine ((checks_distances (s :: t :: ss)).bind (Q := True) fun ds => ?_).mono fun _ => by simp
    split
    · exact hcircle
    · exact .build

theorem checks_line (a b : Point) (w : Float32) : Checks (Shape.line a b w) (line a b w).Sized := by
  unfold Shape.line
  dsimp only
  split
  · exact (Checks.report.bind fun _ => .build).mono fun h => h.1.elim
  · rename_i hw
    split
    · exact (Checks.report.bind fun _ => .build).mono fun h => h.1.elim
    · rename_i hfar
      exact Checks.build.mono fun _ => ⟨by simpa using hw, hfar⟩

theorem checks_draw (c : Composition) : Checks c.draw c.Sized := by
  have hgood {x : Float32} (h : (!Shape.acceptable x) = false) : Shape.acceptable x := by simpa using h
  cases c with
  | circle r => exact checks_circle r
  | hexagon => exact Checks.guarded.mono hgood
  | rectangle x y =>
    refine Checks.guarded.mono fun h => ?_
    rw [Bool.or_eq_false_iff] at h
    exact ⟨hgood h.1, hgood h.2⟩
  | line a b w => exact checks_line a b w
  | union ss => exact checks_union ss
  | smoothUnion | annulus => exact (Checks.require.bind fun _ => .guarded).mono fun h => hgood h.2
  | intersection | difference | translate | scale | rotate =>
    exact (Checks.require.bind fun _ => .build).mono fun _ => trivial

end Composition

/-! ## Literals of shapes -/

namespace Composition

variable {c : Composition}

/-- A line starts at a finite point, and the square of its length is finite. -/
def Spanned : Composition → Prop
  | line a b _ => Number.finite a.x ∧ Number.finite a.y ∧ Number.finite (a.along b).square
  | _ => True

theorem floats_distanceNodes {ss : List Shape} {b : NodeId} : ∀ n ∈ Shape.distanceNodes ss b, n.floats = [] := by
  induction ss generalizing b with
  | nil => exact forall_mem_nil _
  | cons s ss ih => exact forall_mem_cons.mpr ⟨rfl, forall_mem_cons.mpr ⟨rfl, ih⟩⟩

theorem floats_leastNodes {d : Node} {es : List Node} {b : NodeId} :
    ∀ n ∈ Shape.leastNodes d es b, n.floats = [] := by
  induction es generalizing d b with
  | nil => exact forall_mem_nil _
  | cons e es ih => exact forall_mem_cons.mpr ⟨rfl, ih⟩

open Magnitude

/-- Accepted dimensions give finite literals, but for the ends of a line. -/
theorem finite_nodes (hc : c.Sized) (hs : c.Spanned) (b : NodeId) : ∀ n ∈ c.nodes b, AllFinite n.floats := by
  have hzero : Number.finite 0 := by decide
  have hone : Number.finite 1 := by decide
  cases c with
  | circle r => simp [nodes, Node.position, Node.floats, AllFinite, finite_of_acceptable hc]
  | rectangle x y =>
    have hx := finite_half (finite_of_acceptable hc.1)
    have hy := finite_half (finite_of_acceptable hc.2)
    simp [nodes, Node.position, Node.floats, Constant.values, AllFinite, hzero, hx, hy]
  | line p q w =>
    obtain ⟨hx, hy, hsquare⟩ := hs
    obtain ⟨hax, hay⟩ := finite_of_square hsquare
    have hw := finite_half (finite_of_acceptable hc.1)
    simp [nodes, Node.position, Node.floats, Constant.values, AllFinite, hzero, hone, hx, hy, hsquare, hw, hax, hay]
  | hexagon s =>
    have hs := finite_of_acceptable hc
    have hlo : Number.finite (-0.577350269 * s) := finite_scaled (by decide : 0 < 9686330) rfl hs
    have hhi : Number.finite (0.577350269 * s) := finite_scaled (by decide : 0 < 9686330) rfl hs
    have hx : Number.finite (-0.8660254037844386467637) := by decide
    have hy : Number.finite 0.5 := by decide
    have htwo : Number.finite 2 := by decide
    simp [nodes, Node.position, Node.floats, Constant.values, AllFinite, hzero, hs, hlo, hhi, hx, hy, htwo]
  | union ss =>
    obtain _ | ⟨s, ss⟩ := ss
    · exact forall_mem_nil _
    · intro n hn
      have hfloats : n.floats = [] := (mem_append.mp hn).elim (floats_distanceNodes n) (floats_leastNodes n)
      exact hfloats ▸ finite_nil
  | difference =>
    have hminus : Number.finite (-1) := by decide
    simp [nodes, Node.position, Shape.distanceNode, Node.floats, AllFinite, hminus]
  | smoothUnion =>
    have hhalf : Number.finite 0.5 := by decide
    simp [nodes, Node.position, Shape.distanceNode, Node.floats, AllFinite, hzero, hone, hhalf,
      finite_of_acceptable hc]
  | annulus =>
    simp [nodes, Node.position, Shape.distanceNode, Node.floats, AllFinite, finite_half (finite_of_acceptable hc)]
  | intersection | translate | scale | rotate =>
    simp [nodes, Node.position, Shape.distanceNode, Node.floats, AllFinite]

end Composition

/-- Shapes drawn with whatever dimensions, the last one first. Between two of them anything else may be
made. -/
inductive Attempted : Drawing → List (Shape × Composition) → Prop where
  | start {d : Drawing} (hwork : d.work.Ready) : Attempted d []
  | draw {d d' : Drawing} {drawn : List (Shape × Composition)} {c : Composition} {s : Shape} (h : Attempted d drawn)
    (hgiven : ∀ n ∈ c.given, (∃ t ∈ drawn, t.1.fn = n) ∨ ∃ id u, n = .uniform id u)
    (hrun : c.draw.run.run d = (.ok s, d')) : Attempted d' ((s, c) :: drawn)
  | other {d d' : Drawing} {drawn : List (Shape × Composition)} (h : Attempted d drawn)
    (hwork : d.work.Continues d'.work) (herrors : d'.errors = d.errors) : Attempted d' drawn

/-- What a shape is made of. -/
structure Made (drawn : List (Shape × Composition)) (s : Shape) (c : Composition) : Prop where
  sized : c.Sized
  shape : ∃ b number, s = c.shape b number
  given : ∀ n ∈ c.given, (∃ t ∈ drawn, t.1.fn = n) ∨ ∃ id u, n = .uniform id u

theorem Made.more {drawn drawn' : List (Shape × Composition)} {s : Shape} {c : Composition}
    (h : Made drawn s c) (hsub : drawn ⊆ drawn') : Made drawn' s c :=
  ⟨h.sized, h.shape, fun n hn => (h.given n hn).imp_left fun ⟨t, ht, heq⟩ => ⟨t, hsub ht, heq⟩⟩

/-- Without an error, all shapes are made as their compositions say. -/
theorem Attempted.made {d : Drawing} {drawn : List (Shape × Composition)} (h : Attempted d drawn)
    (herrors : d.errors = []) : d.work.Ready ∧ ∀ p ∈ drawn, Made drawn p.1 p.2 := by
  induction h with
  | start hwork => exact ⟨hwork, forall_mem_nil _⟩
  | @draw d d' drawn c s _ hgiven hrun ih =>
    obtain ⟨hkept, hsized⟩ := c.checks_draw d s d' hrun
    obtain ⟨hready, hmade⟩ := ih (prefix_nil.mp (herrors ▸ hkept))
    have hpresent : ∀ n ∈ c.given, n.isAbsent = false := by
      intro n hn
      rcases hgiven n hn with ⟨t, ht, rfl⟩ | ⟨id, u, rfl⟩
      · obtain ⟨b, number, heq⟩ := (hmade t ht).shape
        rw [heq]
        rfl
      · rfl
    obtain ⟨w, hrun', -, -, hready'⟩ := Composition.drawnBy (hsized herrors) hpresent d hready
    cases hrun.symm.trans hrun'
    have hnew : Made drawn (c.shape d.work.nextId (d.work.shapes + 1)) c := ⟨hsized herrors, ⟨_, _, rfl⟩, hgiven⟩
    refine ⟨hready', forall_mem_cons.mpr ⟨hnew.more (subset_cons_self _ _), fun p hp => ?_⟩⟩
    exact (hmade p hp).more (subset_cons_self _ _)
  | other _ hwork herrors' ih => exact ⟨hwork.ready, (ih (herrors'.symm.trans herrors)).2⟩

section
variable {drawn : List (Shape × Composition)} {s : Shape} {c : Composition}

/-- What stands in a shape stands in the body of a shape that it is made of. -/
theorem finite_of_spanned (hmade : ∀ p ∈ drawn, Made drawn p.1 p.2)
    (hspanned : ∀ p ∈ drawn, p.1.fn.Within s.fn → p.2.Spanned) (hs : (s, c) ∈ drawn) : s.fn.Finite := by
  -- the invariant on the way down: a function of a shape, a node of its body, or a uniform
  have hdown {m n : Node} (h : m.Within n) (hn : n.Within s.fn)
      (hcase : (∃ t ∈ drawn, t.1.fn = n) ∨ (∃ id u, n = .uniform id u) ∨
        ∃ t ∈ drawn, t.1.fn.Within s.fn ∧ ∃ b, n ∈ t.2.nodes b) : AllFinite m.floats := by
    induction h with
    | refl =>
      rcases hcase with ⟨t, ht, rfl⟩ | ⟨id, u, rfl⟩ | ⟨t, ht, hwithin, b, hmem⟩
      · obtain ⟨b, number, heq⟩ := (hmade t ht).shape
        rw [heq]
        exact finite_nil
      · exact finite_nil
      · exact Composition.finite_nodes (hmade t ht).sized (hspanned t ht hwithin) b m hmem
    | @child k n hk _ ih =>
      have hkin : k.Within s.fn := (Node.Within.child hk .refl).trans hn
      refine ih hkin ?_
      rcases hcase with ⟨t, ht, rfl⟩ | ⟨id, u, rfl⟩ | ⟨t, ht, hwithin, b, hmem⟩
      · obtain ⟨b, number, heq⟩ := (hmade t ht).shape
        rw [heq] at hk
        obtain rfl : k = t.2.body b := mem_singleton.mp hk
        exact .inr (.inr ⟨t, ht, hn, b, Composition.body_mem (hmade t ht).sized b⟩)
      · cases hk
      · rw [Node.children_of_isInner (Composition.inner_nodes _ _ _ hmem)] at hk
        rcases t.2.closed b n hmem k hk with hmem' | hgiven
        · exact .inr (.inr ⟨t, ht, hwithin, b, hmem'⟩)
        · exact ((hmade t ht).given k hgiven).imp_right .inl
  exact fun m hm => hdown hm .refl (.inl ⟨(s, c), hs, rfl⟩)

theorem spanned_of_finite {b : NodeId} {number : Nat} (h : (c.shape b number).fn.Finite) : c.Spanned := by
  cases c with
  | line p q w =>
    have hbody {n : Node} (hn : n.Inline ((Composition.line p q w).body b)) : AllFinite n.floats :=
      h n (.child mem_cons_self hn.within)
    have here (n : Node) : n.Inline n := .refl
    have hstart := hbody (((((here (.constant (b + 2) (.vec2 p.x p.y))).second rfl).first rfl).first rfl).first rfl)
    have hsquare := hbody
      (((((((here (.float (b + 5) (p.along q).square)).second rfl).first rfl).second rfl).second rfl).first rfl).first rfl)
    exact ⟨hstart p.x (by simp [Node.floats, Constant.values]), hstart p.y (by simp [Node.floats, Constant.values]),
      hsquare _ mem_cons_self⟩
  | _ => trivial

/-- Where no error is collected, the leaves of a shape are finite exactly if it is made of lines of finite
start and square, and the distance from it has finite literals then. -/
theorem shape_finite_iff {d : Drawing} (h : Attempted d drawn) (herror : d.error? = none) (hs : (s, c) ∈ drawn) :
    (s.fn.Finite ↔ ∀ t ∈ drawn, t.1.fn.Within s.fn → t.2.Spanned) ∧
    ∀ vertex p : Node, vertex.Finite → p.Finite → s.fn.Finite → ∀ (id : NodeId) (folding : Bool) (nextId : NodeId),
      ∀ block ∈ (compiled vertex (.call id s.fn [p]) folding nextId).blocks, Stmt.Bounded block := by
  have herrors : d.errors = [] := by
    cases hd : d.errors with
    | nil => rfl
    | cons e es => simp [Drawing.error?, hd] at herror
  obtain ⟨-, hmade⟩ := h.made herrors
  refine ⟨⟨fun hfinite t ht hin => ?_, fun hspanned => finite_of_spanned hmade hspanned hs⟩, ?_⟩
  · obtain ⟨b, number, heq⟩ := (hmade t ht).shape
    have hfn : (t.2.shape b number).fn.Finite := heq ▸ fun m hm => hfinite m (hm.trans hin)
    exact spanned_of_finite hfn
  · intro vertex p hv hp hfinite id folding nextId
    have hcall : (Node.call id s.fn [p]).Finite := by
      refine .of_children finite_nil ?_
      simp only [Node.children, Node.operands, cons_append, nil_append, forall_mem_cons]
      exact ⟨hp, hfinite, forall_mem_nil _⟩
    exact blocks_bounded hv hcall rfl

end

/-- A blank drawing that collects errors. -/
def Drawing.blank : Drawing := { work := {}, strict := false }

theorem Drawing.blank_ready : Drawing.blank.work.Ready := forall_mem_nil _

/-- The square of the length of a line may overflow without an error. -/
theorem long_line_unreported : ∃ s d, (Shape.line ⟨0, 0⟩ ⟨1e30, 0⟩ 1).run.run .blank = (.ok s, d) ∧
    d.error? = none ∧ ∃ block ∈ (s.program d.work).blocks, ¬ Stmt.Bounded block := by
  have hsized : (Composition.line ⟨0, 0⟩ ⟨1e30, 0⟩ 1).Sized := ⟨by decide, by decide +kernel⟩
  obtain ⟨w, hrun, hid, -, -⟩ := Composition.drawnBy hsized (forall_mem_nil _) .blank Drawing.blank_ready
  -- the program depends on the next id of the workspace only
  have hprogram (s : Shape) : s.program w = s.program { nextId := 47 } := by
    have hid : w.nextId = 47 := hid
    rw [Shape.program, Shape.program, Workspace.quad, Workspace.quad, hid]
  have hany : (Shape.program ((Composition.line ⟨0, 0⟩ ⟨1e30, 0⟩ 1).shape 31 1) { nextId := 47 }).blocks.any
      (·.any (·.floats.any (!Number.finite ·))) := by decide +kernel
  rw [← hprogram] at hany
  simp only [any_eq_true] at hany
  obtain ⟨block, hblock, st, hst, x, hx, hinfinite⟩ := hany
  refine ⟨_, _, hrun, rfl, block, hblock, fun hbounded => ?_⟩
  have hfinite := (hbounded st (.here hst)).1 x hx
  simp [hfinite] at hinfinite

/-- A ring around a line. -/
theorem ring_finite : ∃ line ring d d', (Shape.line ⟨0, 0⟩ ⟨3, 4⟩ 1).run.run .blank = (.ok line, d) ∧
    (Shape.annulus line 0.5).run.run d = (.ok ring, d') ∧ d'.error? = none ∧ ring.fn.Finite ∧
    ∀ block ∈ (ring.program d'.work).blocks, Stmt.Bounded block := by
  have hline : (Composition.line ⟨0, 0⟩ ⟨3, 4⟩ 1).Sized := ⟨by decide, by decide +kernel⟩
  obtain ⟨w, hrun, -, -, hw⟩ := Composition.drawnBy hline (forall_mem_nil _) .blank Drawing.blank_ready
  have hring : (Composition.annulus ((Composition.line ⟨0, 0⟩ ⟨3, 4⟩ 1).shape 31 1) 0.5).Sized :=
    (by decide : Shape.acceptable 0.5)
  obtain ⟨w', hrun', -, -, -⟩ := Composition.drawnBy hring (forall_mem_singleton.mpr rfl)
    { Drawing.blank with work := w } hw
  have h : Attempted _ _ := .draw (.draw (.start Drawing.blank_ready) (forall_mem_nil _) hrun)
    (forall_mem_singleton.mpr (.inl ⟨_, mem_cons_self, rfl⟩)) hrun'
  obtain ⟨hiff, hblocks⟩ := shape_finite_iff h rfl mem_cons_self
  have hspanned : (Composition.line ⟨0, 0⟩ ⟨3, 4⟩ 1).Spanned := by
    refine ⟨?_, ?_, ?_⟩ <;> decide +kernel
  have hfinite := hiff.mpr (forall_mem_cons.mpr ⟨fun _ => trivial, forall_mem_singleton.mpr fun _ => hspanned⟩)
  have hleaf {n : Node} (hfloats : n.floats = []) (hn : n.children = []) : n.Finite :=
    .of_children (hfloats ▸ finite_nil) (hn ▸ forall_mem_nil _)
  exact ⟨_, _, _, _, hrun, hrun', rfl, hfinite, hblocks w'.quad .uv (hleaf rfl rfl) (hleaf rfl rfl) hfinite _ _ _⟩

end ShaderGraph
