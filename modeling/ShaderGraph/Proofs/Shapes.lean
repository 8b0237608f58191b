import ShaderGraph.Proofs.Assembly
import ShaderGraph.Proofs.Distances
import ShaderGraph.Proofs.Sketches

/-!
# Compiled shapes

The distance from a shape at the place of the fragment, compiled over the whole canvas. Main statement:
however shapes share others, the program has one function for each shape that the shape is made of, after
the functions of its parts, and the functions compute what the compositions denote.
-/

namespace ShaderGraph

open List

universe u

def Shape.name (s : Shape) : String :=
  match s.fn with
  | .defun _ name _ => name
  | _ => ""

/-- The corners of the canvas, after the node of the distance. -/
def Workspace.quad (w : Workspace) : Node :=
  .attribute (w.nextId + 2) { id := w.nextId + 1, type := .vec2, size := 2, instanced := false }

/-- What evaluating the distance from a shape over the whole canvas leaves. -/
def Shape.program (s : Shape) (w : Workspace) : Compiled :=
  compiled w.quad (.call w.nextId s.fn [.uv]) true (w.nextId + 3)

def Shape.job (s : Shape) (w : Workspace) : Job :=
  compilePair w.quad (.call w.nextId s.fn [.uv]) { mode := .triangleStrip } (w.nextId + 3)

def StageProgram.errors (p : StageProgram) (g : Generated) : List GraphError :=
  (if (outputText? g.type g.var).isNone then [.outputType p.stage g.type] else []) ++
    (if p.sections.assemble.2.isEmpty then [] else [.assembly (.definedTwice p.sections.assemble.2)])

section
variable {p : StageProgram} {g : Generated}

theorem StageProgram.errors_definedTwice (h : (outputText? g.type g.var).isSome) :
    ∀ er ∈ p.errors g, ∃ names, er = .assembly (.definedTwice names) := by
  intro er her
  rw [errors, if_neg (by simp [Option.isNone_eq_false_iff.mpr h]), nil_append] at her
  split at her
  · cases her
  · exact ⟨_, mem_singleton.mp her⟩

theorem StageProgram.errors_eq_nil (h : (outputText? g.type g.var).isSome) (hp : p.sections.assemble.2 = []) :
    p.errors g = [] := by
  rw [errors, hp, if_neg (by simp [Option.isNone_eq_false_iff.mpr h])]
  rfl

theorem Glsl.Sections.assemble_of_functions {s : Glsl.Sections} (h : s.functions = []) : s.assemble.2 = [] := by
  simp only [assemble, h]
  rfl

theorem StageProgram.assemble_conflicts (hnames : (p.functions.map (·.name)).Nodup) (h : p.sections.Apart) :
    p.sections.assemble.2 = [] := by
  by_contra hne
  obtain ⟨_, hftext, _, hktext, hname, hhash⟩ := (Glsl.Sections.assemble_conflicts_iff h).mp hne
  obtain ⟨f, hf, rfl⟩ := mem_map.mp hftext
  obtain ⟨k, hk, rfl⟩ := mem_map.mp hktext
  obtain rfl := inj_on_of_nodup_map hnames hf hk hname
  exact hhash rfl

end

theorem Job.error?_eq_none {j : Job} (hv : j.session.vertex.errors = []) (hf : j.session.fragment.errors = []) :
    j.error? = none := by
  have hnone (stage : Stage) (h : (j.session.registry stage).errors = []) : j.session.error? stage = none := by
    rw [Session.error?, h]
  rw [error?, hnone .vertex hv, hnone .fragment hf]

/-- A job whose graphs evaluate without errors records names with one hash at most, if its stages put
values out, the vertex stage calls no function, and the functions have names of their own. -/
theorem compilePair_reports {vertex fragment : Node} {o : CompileOptions} {nextId : NodeId} {r : Compiled}
    {j : Job} (hr : compiled vertex fragment o.folding nextId = r) (hj : compilePair vertex fragment o nextId = j)
    (herr : ∀ stage, (r.session.registry stage).errors = [])
    (hvertex : (outputText? r.vertex.type r.vertex.var).isSome) (hlist : r.vertexProgram.functions = [])
    (hfragment : (outputText? r.fragment.type r.fragment.var).isSome)
    (hnames : (r.fragmentProgram.functions.map (·.name)).Nodup) :
    (∀ stage, ∀ er ∈ (j.session.registry stage).errors, ∃ names, er = .assembly (.definedTwice names)) ∧
      (r.fragmentProgram.sections.Apart → j.error? = none) := by
  -- a job records what evaluation reports, and then what writing the stages does
  have hwritten : j.session.vertex.errors = r.session.vertex.errors ++ r.vertexProgram.errors r.vertex ∧
      j.session.fragment.errors = r.session.fragment.errors ++ r.fragmentProgram.errors r.fragment := by
    subst hr hj
    exact ⟨rfl, rfl⟩
  obtain ⟨hv, hf⟩ := hwritten
  have hconflicts : r.vertexProgram.sections.assemble.2 = [] :=
    Glsl.Sections.assemble_of_functions (congrArg (List.map _) hlist)
  have hv : j.session.vertex.errors = [] := by
    rw [hv, StageProgram.errors_eq_nil hvertex hconflicts, append_nil]
    exact herr .vertex
  have hf : j.session.fragment.errors = r.fragmentProgram.errors r.fragment := by
    rw [hf, show r.session.fragment.errors = [] from herr .fragment, nil_append]
  refine ⟨fun stage er her => ?_, fun hapart => ?_⟩
  · cases stage with
    | vertex => exact absurd (hv ▸ her) not_mem_nil
    | fragment => exact StageProgram.errors_definedTwice hfragment er (hf ▸ her)
  · have hnone := StageProgram.errors_eq_nil hfragment (StageProgram.assemble_conflicts hnames hapart)
    exact Job.error?_eq_none hv (hf.trans hnone)

/-! ## The functions of a shape -/

/-- One function for each shape that the shape is made of, from a position to a float, after those of its
parts. A body reads the position, what it declares before and uniforms. -/
structure Shape.Lists (drawn : List (Shape × Composition)) (s : Shape) (us : List Uniform)
    (fs : List Function) : Prop where
  once : (fs.map (·.name)).Nodup
  distinct : ∀ t t', MadeOf drawn s t → MadeOf drawn s t' → t.name = t'.name → t = t'
  shapes : ∀ name, name ∈ fs.map (·.name) ↔ ∃ t, MadeOf drawn s t ∧ t.name = name
  signature : ∀ f ∈ fs, f.params = [⟨.vec2, "p"⟩] ∧ f.returns = .float
  ordered : Function.Ordered fs
  parts : ∀ {before f after}, fs = before ++ f :: after → ∀ {t c}, (t, c) ∈ drawn → t.name = f.name →
    ∀ k ∈ c.parts, k.name ∈ before.map (·.name)
  reads : ∀ f ∈ fs, f.ReadsOnly us

/-- The functions of a shape compute distances, and the distances are what the compositions denote. -/
structure Shape.Denotes {K : Type u} [Field K] [LinearOrder K] (drawn : List (Shape × Composition))
    (s : Shape) (R : Valuation K) (us : List Uniform) (fs : List Function) (dist : Shape → K → K → K) :
    Prop where
  computes : ∀ t, MadeOf drawn s t → ∀ f ∈ fs, f.name = t.name → ∀ x y,
    f.run (R.interpretation.install us fs) us [.vec2 x y] = some (.float (dist t x y))
  distance : ∀ t c, MadeOf drawn s t → (t, c) ∈ drawn → ∀ x y, dist t x y = c.distance R dist x y

section
variable {K : Type u} [Field K] [LinearOrder K]

/-- The language over the field, with the functions of the program of a shape. -/
def Shape.defined (s : Shape) (w : Workspace) (R : Valuation K) : Interpretation (Quantity K) :=
  R.interpretation.install (s.program w).fragmentProgram.uniforms (s.program w).fragmentProgram.functions

/-- What the function of a shape computes. -/
def Interpretation.distance (J : Interpretation (Quantity K)) (s : Shape) (x y : K) : K :=
  (J.call s.name [.vec2 x y]).x

end

namespace Sketched

variable {d : Drawing} {drawn : List (Shape × Composition)} {es : List Outline} {e k : Outline}

theorem below_root (h : Sketched d drawn es) : ∀ k ∈ es, k.id < d.work.nextId := fun k hk => (h.below k hk).1

theorem blank_quad (w : Workspace) :
    let r := (w.quad.generate .vertexMain).run { nextId := w.nextId + 3, folding := true }
    r.2.Blank ∧ r.1.type = .vec2 ∧ r.1.functions = [] := by
  have hfew : GlType.vec2.components ≤ 4 := by decide
  have hsome : 0 < GlType.vec2.components := by decide
  intro r
  exact blank_attribute rfl hfew hsome _ _ _

variable (h : Sketched d drawn es) (he : e ∈ es)
include h he

theorem sound (V : Type u) :
    (e.shape.program d.work).Sound V (h.sketch.graph d.work.nextId he) (Sketch.root d.work.nextId e) :=
  compiled_sound (h.sketch.positional he h.below_root) (h.sketch.layered he h.below_root) (.inl rfl)
    (Sketch.at_root h.below_root) (h.sketch.argument_home he h.below_root)
    (blank_quad d.work).1

theorem eq_of_id (hk : k ∈ es) (hid : e.id = k.id) : e = k := by
  have hle (k : Outline) : k.base ≤ k.id := Nat.le_add_right ..
  exact h.sketch.eq_of_overlap he hk ⟨hle e, Nat.le_refl e.id⟩ ⟨(hle k).trans_eq hid.symm, Nat.le_of_eq hid⟩

theorem function_outline {f : Function} {us : List Uniform} {fs : List Function} {V : Type u}
    (hfs : Function.Defines V (h.sketch.graph d.work.nextId he) us fs) (hf : f ∈ fs) :
    ∃ k ∈ es, f.id = k.id ∧ f.name = k.shape.name ∧
      .defun f.id f.name k.body ∈ (h.sketch.graph d.work.nextId he).nodes := by
  obtain ⟨body, hbody⟩ := hfs.node f hf
  obtain ⟨k, hk, hid, hname, rfl⟩ := Sketch.eq_of_defun hbody
  exact ⟨k, hk, hid, hname, hbody⟩

theorem exists_function (hk : k ∈ es) (hmade : MadeOf drawn e.shape k.shape) :
    ∃ f ∈ (e.shape.program d.work).fragmentProgram.functions, f.id = k.id ∧ f.name = k.shape.name ∧
      .defun f.id f.name k.body ∈ (h.sketch.graph d.work.nextId he).nodes := by
  have hsound := h.sound he Unit
  have hroot : e.shape.fn.Within (Sketch.root d.work.nextId e) :=
    .child (mem_cons_of_mem _ mem_cons_self) .refl
  have hin : (Node.defun k.id k.shape.name k.body).Within (Sketch.root d.work.nextId e) :=
    (hmade.within h).trans hroot
  obtain ⟨f, hf, hid⟩ := mem_map.mp (hsound.functions.mpr ⟨_, _, hin⟩)
  obtain ⟨j, hj, hjid, hname, hnode⟩ := h.function_outline he hsound.defines hf
  obtain rfl := h.eq_of_id hj hk (hjid.symm.trans hid)
  exact ⟨f, hf, hid, hname, hnode⟩

theorem exists_made {f : Function} (hf : f ∈ (e.shape.program d.work).fragmentProgram.functions) :
    ∃ k ∈ es, MadeOf drawn e.shape k.shape ∧ f.name = k.shape.name := by
  have hsound := h.sound he Unit
  obtain ⟨name, body, hin⟩ := hsound.functions.mp (mem_map_of_mem hf)
  obtain ⟨t, ht, hfn⟩ : ∃ t, MadeOf drawn e.shape t ∧ t.fn = .defun f.id name body := by
    rcases hin with _ | ⟨hchild, hin⟩
    have hchild : _ ∈ [Node.uv, e.shape.fn] := hchild
    rcases mem_pair.mp hchild with rfl | rfl
    · rcases hin with _ | ⟨hnone, -⟩
      cases hnone
    · exact madeOf_of_within h hin rfl he (.inl rfl)
  have hdrawn := ht.mem h (mem_map_of_mem (h.mem_drawn he))
  obtain ⟨k, hk, rfl⟩ := h.exists_shape hdrawn
  obtain ⟨j, hj, hjid, hname, -⟩ := h.function_outline he hsound.defines hf
  have hid : k.id = f.id := congrArg Node.id hfn
  obtain rfl := h.eq_of_id hk hj (hid.trans hjid)
  exact ⟨k, hk, ht, hname⟩

theorem lists :
    e.shape.Lists drawn (e.shape.program d.work).fragmentProgram.uniforms
      (e.shape.program d.work).fragmentProgram.functions := by
  have hdefines := (h.sound he Unit).defines
  have hnamed := h.sketch.named d.work.nextId he
  have houtline {t : Shape} (ht : MadeOf drawn e.shape t) : ∃ k ∈ es, k.shape = t :=
    h.exists_shape (ht.mem h (mem_map_of_mem (h.mem_drawn he)))
  refine ⟨hdefines.names_nodup hnamed, fun t t' ht ht' hname => ?_, fun name => ⟨fun hmem => ?_, ?_⟩,
    fun f hf => ⟨hdefines.params f hf, hdefines.returns f hf⟩, hdefines.ordered, ?_, fun f hf => ?_⟩
  · obtain ⟨k, hk, rfl⟩ := houtline ht
    obtain ⟨k', hk', rfl⟩ := houtline ht'
    rw [h.sketch.eq_of_name hk hk' hname]
  · obtain ⟨f, hf, rfl⟩ := mem_map.mp hmem
    obtain ⟨k, -, hmade, hname⟩ := h.exists_made he hf
    exact ⟨k.shape, hmade, hname.symm⟩
  · rintro ⟨t, ht, rfl⟩
    obtain ⟨k, hk, rfl⟩ := houtline ht
    obtain ⟨f, hf, -, hname, -⟩ := h.exists_function he hk ht
    exact hname ▸ mem_map_of_mem hf
  · intro before f after hsplit t c ht hname p hp
    obtain ⟨k, hk, rfl, rfl⟩ := h.exists_outline ht
    have hf : f ∈ (e.shape.program d.work).fragmentProgram.functions :=
      hsplit ▸ mem_append_right _ mem_cons_self
    obtain ⟨k', hk', -, hname', hnode⟩ := h.function_outline he hdefines hf
    obtain rfl := h.sketch.eq_of_name hk hk' (hname.trans hname')
    obtain ⟨j, hj, rfl, -⟩ := h.sketch.parts k hk p hp
    -- the body calls the part, so its function is listed before
    have hin := Composition.part_inline (h.sketch.accepted k hk) k.base hp
    obtain ⟨g, hg, hgid⟩ := mem_map.mp ((hdefines.calls f hf k.body hnode j.id).mpr ⟨_, _, hin⟩)
    obtain ⟨b, hb, hbid⟩ := mem_map.mp (hdefines.ordered.callees hsplit g hg)
    obtain ⟨i, hi, hiid, hbname, -⟩ :=
      h.function_outline he hdefines (hsplit ▸ mem_append_left _ hb)
    obtain rfl := h.eq_of_id hi hj (hiid.symm.trans (hbid.trans hgid))
    exact hbname ▸ mem_map_of_mem hb
  · obtain ⟨k, -, -, -, hnode⟩ := h.function_outline he hdefines hf
    exact (hdefines.evaluates f hf k.body hnode).readsOnly (hdefines.params f hf)

/-- Evaluation reports nothing, and writing nothing but names with one hash. -/
theorem errors :
    (∀ stage, ((e.shape.program d.work).session.registry stage).errors = []) ∧
      (∀ stage, ∀ er ∈ ((e.shape.job d.work).session.registry stage).errors,
        ∃ names, er = .assembly (.definedTwice names)) ∧
      ((e.shape.program d.work).fragmentProgram.sections.Apart → (e.shape.job d.work).error? = none) := by
  have hsound := h.sound he Unit
  obtain ⟨-, htype, hfunctions⟩ := blank_quad d.work
  have htype : (e.shape.program d.work).vertex.type = .vec2 := htype
  have hfunctions : (e.shape.program d.work).vertex.functions = [] := hfunctions
  have hlist : (e.shape.program d.work).vertexProgram.functions = [] := by
    rw [Compiled.vertexProgram, StageProgram.ofResult, hsound.varyings, hfunctions]
    rfl
  refine ⟨hsound.errors, compilePair_reports rfl rfl hsound.errors ?_ hlist ?_ (h.lists he).once⟩
  · rw [htype]
    rfl
  · rw [hsound.type .float rfl]
    rfl

section
variable {K : Type u} [Field K] [LinearOrder K] (R : Valuation K)

theorem call_language :
    (∀ f : Builtin, (e.shape.defined d.work R).call f.name = R.call f.name) ∧
      (e.shape.defined d.work R).call "vec2" = R.call "vec2" := by
  have hdefines := (h.sound he Unit).defines
  have hnamed := h.sketch.named d.work.nextId he
  refine ⟨fun b => ?_, ?_⟩
  all_goals
    refine Interpretation.install_call_of_notMem _ _ fun hmem => ?_
    obtain ⟨f, hf, hname⟩ := mem_map.mp hmem
    obtain ⟨k, -, -, -, hnode⟩ := h.function_outline he hdefines hf
  · exact hnamed.builtin hnode b hname.symm
  · exact hnamed.construct hnode .vec2 hname.symm

variable (hfits : ∀ t c, (t, c) ∈ drawn → R.Fits c)
include hfits

/-- The functions compute what the compositions denote. The induction is on the ids, since parts have
smaller ones. -/
theorem call_eq (n : Nat) :
    ∀ k ∈ es, k.id < n → MadeOf drawn e.shape k.shape → ∀ x y,
      (e.shape.defined d.work R).call k.shape.name [.vec2 x y] =
        .float (k.composition.distance R (e.shape.defined d.work R).distance x y) := by
  induction n with
  | zero => exact fun k _ hk => absurd hk (Nat.not_lt_zero _)
  | succ n ih =>
    intro k hk hlt hmade x y
    have hdefines := (h.sound he (Quantity K)).defines
    obtain ⟨f, hf, -, hname, hnode⟩ := h.exists_function he hk hmade
    have hcall := hdefines.install (h.sketch.positional he h.below_root) (h.sketch.named _ he)
      R.interpretation hf hnode (.vec2 x y)
    have hinstall : e.shape.defined d.work R = R.calling (e.shape.defined d.work R).call :=
      Interpretation.install_eq ..
    have hmeasures : Measures R (e.shape.defined d.work R).distance k.composition.parts
        (e.shape.defined d.work R).call := by
      refine ⟨(h.call_language he R).1, (h.call_language he R).2, fun s hs => ?_⟩
      obtain ⟨j, hj, rfl, hjlt⟩ := h.sketch.parts k hk s hs
      have hbelow : j.id < n := Nat.lt_of_lt_of_le hjlt
        ((Nat.le_add_right ..).trans (Nat.le_of_lt_succ hlt))
      have hcalled := ih j hj hbelow (hmade.trans (.part (h.mem_drawn hk) hs .refl))
      refine ⟨j.id, j.shape.name, j.body, rfl, fun x y => ?_⟩
      rw [Interpretation.distance, hcalled x y, Quantity.x]
    have hvalue := Composition.value_body (h.sketch.accepted k hk) (hfits _ _ (h.mem_drawn hk)) hmeasures
      k.base x y
    rw [← hinstall] at hvalue
    rw [← hname]
    exact hcall.trans hvalue

theorem denotes :
    e.shape.Denotes drawn R (e.shape.program d.work).fragmentProgram.uniforms
      (e.shape.program d.work).fragmentProgram.functions (e.shape.defined d.work R).distance := by
  have hcall {k : Outline} (hk : k ∈ es) (hmade : MadeOf drawn e.shape k.shape) (x y : K) :=
    h.call_eq he R hfits (k.id + 1) k hk (Nat.lt_succ_self _) hmade x y
  refine ⟨fun t ht f hf hname x y => ?_, fun t c ht hc x y => ?_⟩
  · have hdefines := (h.sound he (Quantity K)).defines
    obtain ⟨k, hk, rfl⟩ := h.exists_shape (ht.mem h (mem_map_of_mem (h.mem_drawn he)))
    obtain ⟨k', hk', -, hname', hnode⟩ := h.function_outline he hdefines hf
    obtain rfl := h.sketch.eq_of_name hk hk' (hname.symm.trans hname')
    have hrun := (hdefines.evaluates f hf k.body hnode).run (hdefines.params f hf)
      (e.shape.defined d.work R) (.vec2 x y)
    have hvalue := hdefines.install (h.sketch.positional he h.below_root) (h.sketch.named _ he)
      R.interpretation hf hnode (.vec2 x y)
    refine hrun.trans (congrArg some (hvalue.symm.trans ?_))
    rw [hname]
    change (e.shape.defined d.work R).call k.shape.name [.vec2 x y] = _
    rw [Interpretation.distance, hcall hk ht x y, Quantity.x]
  · obtain ⟨k, hk, rfl, rfl⟩ := h.exists_outline hc
    rw [Interpretation.distance, hcall hk ht x y, Quantity.x]

end

end Sketched

end ShaderGraph
