import ShaderGraph.Proofs.Provenance

/-!
# Finite literals

A literal is the text of a finite float. Where the leaves of a graph are finite, so are all literals
and constants that come of it: a value that is computed is kept only if it is finite, whatever
computes it.
-/

namespace ShaderGraph

open Eval List

variable {type : GlType} {folding : Bool} {φ : Form} {g : Generated} {n vertex fragment : Node}
  {nextId : NodeId} {r : Compiled}

/-! ## Literals -/

def Atom.floats : Atom → List Float32
  | .float v => [v]
  | .name _ | .bool _ => []

def Cast.floats : Cast → List Float32
  | .keep a | .convert _ a => a.floats

def Expr.floats : Expr → List Float32
  | .cast c => c.floats
  | .operation _ args | .call _ args => args.flatMap (·.floats)
  | .literals _ vs => vs
  | .field a _ => a.floats
  | .select c a b => c.floats ++ a.floats ++ b.floats
  | .coordinate _ | .resolution => []

def LoopBound.floats : LoopBound → List Float32
  | .constant v => [v]
  | .upTo count => count.floats

/-- The values whose literals a statement holds, apart from those of the body of a loop. -/
def Stmt.floats : Stmt → List Float32
  | .decl _ _ e => e.floats
  | .breakIf c => c.floats
  | .loop _ bound _ _ term => bound.floats ++ term.floats
  | .assign _ a => a.floats
  | .verbatim _ => []

abbrev AllFinite (xs : List Float32) : Prop := ∀ x ∈ xs, Number.finite x

/-- All literals of the statements, however deep in loops, are finite. Text is not known to be. -/
def Stmt.Bounded (ss : List Stmt) : Prop :=
  ∀ st : Stmt, st.Inside ss → AllFinite st.floats ∧ ∀ text, st ≠ .verbatim text

/-- The floats that a leaf gives. -/
def Node.floats : Node → List Float32
  | .float _ v => [v]
  | .constant _ k => k.values
  | _ => []

/-- All leaves are finite. -/
def Node.Finite (n : Node) : Prop := ∀ m : Node, m.Within n → AllFinite m.floats

/-- What a result holds is finite, and what its running sums start with. -/
structure Generated.Bounded (g : Generated) : Prop where
  code : Stmt.Bounded g.code.stmts
  var : AllFinite g.var.floats
  constant : AllFinite g.constant.toList
  accumulators : ∀ a ∈ g.accumulators, a.initial.Finite

/-! ## One step -/

section
variable {gs : List Generated} {ss ts : List Stmt} {st : Stmt}

theorem finite_nil : AllFinite [] := forall_mem_nil _

theorem Stmt.bounded_nil : Bounded [] := fun _ h => absurd h not_inside_nil

theorem Stmt.bounded_append (hss : Bounded ss) (hts : Bounded ts) : Bounded (ss ++ ts) :=
  fun st hst => (inside_append.mp hst).elim (hss st) (hts st)

theorem Stmt.bounded_single (hst : AllFinite st.floats) (htext : ∀ text, st ≠ .verbatim text)
    (hloop : ∀ i b inner v a, st ≠ .loop i b inner v a) : Bounded [st] := by
  rintro st' (h | ⟨h, -⟩)
  · rw [mem_singleton.mp h]
    exact ⟨hst, htext⟩
  · exact absurd (mem_singleton.mp h).symm (hloop _ _ _ _ _)

theorem Stmt.bounded_decl {v : String} {e : Expr} (h : AllFinite e.floats) : Bounded [.decl type v e] :=
  bounded_single h (fun _ h => by cases h) fun _ _ _ _ _ h => by cases h

theorem Stmt.bounded_assign (v : String) {a : Atom} (h : AllFinite a.floats) : Bounded [.assign v a] :=
  bounded_single h (fun _ h => by cases h) fun _ _ _ _ _ h => by cases h

theorem Generated.bounded_gather {own : List Stmt} {v : Atom} {x : Extras} (hgs : ∀ g ∈ gs, g.Bounded)
    (hown : Stmt.Bounded own) (hv : AllFinite v.floats) (hx : AllFinite x.constant.toList)
    (haccs : ∀ a ∈ x.accumulators, a.initial.Finite) : ((gather type own v gs).extend x).Bounded where
  code := by
    refine Stmt.bounded_append (fun st hst => ?_) hown
    obtain ⟨g, hg, hst⟩ := hst.flatMap
    exact (hgs g hg).code st hst
  var := hv
  constant := hx
  accumulators a ha := by
    rcases mem_adjoin_foldl ha with ⟨g, hg, ha⟩ | ha
    · exact (hgs g hg).accumulators a ha
    · exact haccs a ha

/-- The literals of a declaration, and the value of its result. -/
def Form.Bounded (φ : Form) : Prop := AllFinite φ.value.floats ∧ AllFinite φ.extras.constant.toList

theorem Form.Bounded.fold (h : φ.Bounded) (folding : Bool) (fold? : List Float32 → Option Float32) :
    (φ.fold folding fold?).Bounded := by
  unfold Form.fold
  split
  · next x hx =>
    have hx : AllFinite [x] := forall_mem_singleton.mpr (Step.folded_eq_some hx).2.1
    exact ⟨hx, hx⟩
  · exact h

theorem finite_vars (h : ∀ g ∈ gs, g.Bounded) : AllFinite ((gs.map (·.var)).flatMap (·.floats)) := by
  intro x hx
  obtain ⟨a, ha, hx⟩ := mem_flatMap.mp hx
  obtain ⟨g, hg, rfl⟩ := mem_map.mp ha
  exact (h g hg).var x hx

theorem Step.floats_castOf (type : GlType) (g : Generated) : (castOf type g).floats = g.var.floats := by
  unfold castOf
  split <;> rfl

theorem Node.bounded_form (hn : n.Finite) (hgs : ∀ g ∈ gs, g.Bounded) (hφ : n.form? folding gs = some φ) :
    φ.Bounded := by
  cases n with
  | operator id op args =>
    obtain ⟨-, rfl⟩ := form_operator hφ
    have h : (Form.operation op gs).Bounded := ⟨finite_vars hgs, finite_nil⟩
    exact h.fold folding op.fold?
  | builtin id f args =>
    cases hφ
    have h : (Form.application f gs).Bounded := ⟨finite_vars hgs, finite_nil⟩
    exact h.fold folding f.fold?
  | construct =>
    cases hφ
    exact ⟨finite_vars hgs, finite_nil⟩
  | constant =>
    cases hφ
    exact ⟨hn _ .refl, finite_nil⟩
  | swizzle id m fields =>
    rcases gs with _ | ⟨g, _ | ⟨_, _⟩⟩ <;> cases hφ
    exact ⟨(hgs g mem_cons_self).var, finite_nil⟩
  | switch id cond yes no =>
    rcases gs with _ | ⟨gc, _ | ⟨ga, _ | ⟨gb, _ | ⟨_, _⟩⟩⟩⟩ <;> cases hφ
    refine ⟨?_, finite_nil⟩
    have hvars := finite_vars hgs
    simpa [Expr.floats, Step.floats_castOf] using hvars
  | call id fn args =>
    simp only [form?] at hφ
    split at hφ
    · cases hφ
      exact ⟨finite_vars fun g hg => hgs g ((dropLast_sublist gs).subset hg), finite_nil⟩
    · cases hφ
  | coordinate | resolution | argument =>
    cases hφ
    exact ⟨finite_nil, finite_nil⟩
  | _ => cases hφ

theorem Generated.bounded_loop {gi gb : Generated} {b : Step.Binding} (hgi : gi.Bounded) (hgb : gb.Bounded)
    (hinit : b.initial.Bounded) (haccs : ∀ a ∈ b.accumulators, a ∈ gb.accumulators) (k : Nat) :
    (Step.loopResult gi gb b k).Bounded := by
  refine bounded_gather (by simp [hinit, hgi]) ?_ finite_nil finite_nil
    fun a ha => hgb.accumulators a (haccs a ha)
  rintro st (hst | ⟨hloop, hst⟩)
  · rcases mem_pair.mp hst with rfl | rfl
    · refine ⟨?_, fun _ h => by cases h⟩
      simpa [Stmt.floats, Expr.floats, Step.floats_castOf] using hinit.var
    · refine ⟨fun x hx => ?_, fun _ h => by cases h⟩
      rcases mem_append.mp hx with hx | hx
      · -- a constant count is the bound itself
        cases hc : gi.constant with
        | some v =>
          rw [hc] at hx
          exact hgi.constant x (hc ▸ hx)
        | none =>
          rw [hc] at hx
          exact hgi.var x hx
      · exact hgb.var x hx
  · rcases mem_pair.mp hloop with h | h <;> cases h
    exact hgb.code st hst

end

/-! ## Every evaluation -/

/-- All leaves, literals and values are finite. -/
def finiteness : Trait where
  node := Node.Finite
  result _ g := g.Bounded
  function _ f := Stmt.Bounded f.body ∧ AllFinite f.result.floats
  varying _ v := Stmt.Bounded v.code ∧ AllFinite v.source.floats

theorem Generated.bounded_of_nil (hcode : g.code.stmts = []) (hvar : AllFinite g.var.floats)
    (hconst : AllFinite g.constant.toList) (haccs : g.accumulators = []) : g.Bounded where
  code := hcode ▸ Stmt.bounded_nil
  var := hvar
  constant := hconst
  accumulators _ ha := absurd (haccs ▸ ha) not_mem_nil

theorem Node.bounded_step {c : Scope} {s s' : Session} (hn : n.Finite) (hi : n.isImmediate)
    (hr : (n.step c []).run s = (g, s')) : g.Bounded := by
  cases n with
  | absent =>
    cases hr
    exact Generated.bounded_of_nil rfl (by decide) (by decide) rfl
  | float id v =>
    cases hr
    exact Generated.bounded_of_nil rfl (hn _ .refl) (hn _ .refl) rfl
  | bool =>
    cases hr
    exact Generated.bounded_of_nil rfl finite_nil finite_nil rfl
  | uniform =>
    obtain ⟨rfl, -⟩ := Step.readUniform_eq hr
    exact Generated.bounded_of_nil rfl finite_nil finite_nil rfl
  | «attribute» =>
    obtain ⟨rfl, -⟩ := Step.readAttribute_eq hr
    exact Generated.bounded_of_nil rfl finite_nil finite_nil rfl
  | _ => cases hi

theorem finiteness_inherited : finiteness.Inherited where
  child hn hm k hk := hn k (hk.trans (.child hm .refl))
  grows _ h := h
  growsFunction _ h := h
  growsVarying _ h := h
  zero := Generated.bounded_of_nil rfl (by decide) (by decide) rfl
  immediate := Node.bounded_step
  reference h := { h with code := Stmt.bounded_nil }
  form hn hgs hφ hfits := by
    obtain ⟨hvalue, hconst⟩ := Node.bounded_form hn hgs hφ
    refine Generated.bounded_gather (fun d hd => hgs d (hfits.deps.subset hd)) (Stmt.bounded_decl hvalue)
      finite_nil hconst ?_
    rw [hfits.accumulators]
    exact forall_mem_nil _
  broken := by
    intro s cond value hcond hvalue
    refine Generated.bounded_gather (x := {}) (forall_mem_cons.mpr ⟨hcond, forall_mem_singleton.mpr hvalue⟩)
      ?_ hvalue.var finite_nil fun _ h => absurd h not_mem_nil
    exact Stmt.bounded_single hcond.var (fun _ h => by cases h) fun _ _ _ _ _ h => by cases h
  initial h ha := h.accumulators _ ha
  loop hgi hgb hinit _ haccs := Generated.bounded_loop hgi hgb hinit haccs _
  accumulator := by
    intro s id name start type j k hn
    refine Generated.bounded_gather (forall_mem_nil _) (Stmt.bounded_decl finite_nil)
      finite_nil finite_nil fun a ha => ?_
    rw [mem_singleton.mp ha]
    exact fun m hm => hn m (.child mem_cons_self hm)
  define _ h := ⟨h.code, h.var⟩
  function _ _ := Generated.bounded_of_nil rfl finite_nil finite_nil rfl
  varying h := ⟨h.code, h.var⟩
  passed := Generated.bounded_of_nil rfl finite_nil finite_nil rfl

/-! ## A pair -/

theorem Node.Finite.of_children (hn : AllFinite n.floats) (h : ∀ m ∈ n.children, m.Finite) : n.Finite := by
  intro k hk
  cases hk with
  | refl => exact hn
  | child hm hk => exact h _ hm k hk

theorem compiled_bounded (hv : vertex.Finite) (hf : fragment.Finite)
    (hr : compiled vertex fragment folding nextId = r) :
    r.vertex.Bounded ∧ r.fragment.Bounded ∧ r.session.Carries finiteness := by
  obtain ⟨gv, gf, s1, s2, tv, tf, hr', hvertex, hfragment⟩ :=
    compiled_eq finiteness_inherited.everywhere vertex fragment folding nextId
  obtain rfl := hr.symm.trans hr'
  obtain ⟨hgv, hs1⟩ := hvertex hv (Session.carries_initial _ nextId folding)
  obtain ⟨hgf, hs2⟩ := hfragment hf hs1
  exact ⟨hgv, hgf, hs2⟩

theorem blocks_bounded (hv : vertex.Finite) (hf : fragment.Finite)
    (hr : compiled vertex fragment folding nextId = r) : ∀ block ∈ r.blocks, Stmt.Bounded block := by
  obtain ⟨hgv, hgf, hs⟩ := compiled_bounded hv hf hr
  exact Compiled.forall_blocks_of Stmt.bounded_nil Stmt.bounded_append (fun v _ h => Stmt.bounded_assign v h)
    hr ⟨hgv.code, hgv.var⟩ ⟨hgf.code, hgf.var⟩ hs.varyings hs.functions

/-- Finite graphs give finite literals and constants: in both sources, in what is remembered, and in
every evaluation on the way. What computes constants does not matter. -/
theorem literals_finite (hv : vertex.Finite) (hf : fragment.Finite) (o : CompileOptions) (nextId : NodeId)
    (hr : compiled vertex fragment o.folding nextId = r) :
    (compilePair vertex fragment o nextId).vertexSource = r.vertexProgram.sections.assemble.1 ∧
    (compilePair vertex fragment o nextId).fragmentSource = r.fragmentProgram.sections.assemble.1 ∧
    (∀ block ∈ r.blocks, Stmt.Bounded block) ∧
    r.vertex.Bounded ∧ r.fragment.Bounded ∧ r.session.Carries finiteness ∧
    finiteness.judgement.Everywhere ∧
    ∀ folding type fold? gs x, Step.folded? folding type fold? gs = some x → Number.finite x :=
  ⟨hr ▸ rfl, hr ▸ rfl, blocks_bounded hv hf hr, (compiled_bounded hv hf hr).1, (compiled_bounded hv hf hr).2.1,
    (compiled_bounded hv hf hr).2.2, finiteness_inherited.everywhere,
    fun _ _ _ _ _ h => (Step.folded_eq_some h).2.1⟩

/-- Adds one divided by zero, three times. -/
def quotients : Node :=
  .sumLoop 5 (.operator 3 .div [.float 1 1, .float 2 0]) (.float 4 3) (.float 6 0.5)

theorem quotients_literals_finite : (Node.float 0 1).Finite ∧ quotients.Finite ∧
    ∀ block ∈ (compiled (.float 0 1) quotients true 31).blocks, Stmt.Bounded block := by
  have hleaf (id : NodeId) (v : Float32) (hv : Number.finite v) : (Node.float id v).Finite :=
    .of_children (forall_mem_singleton.mpr hv) fun _ h => absurd h not_mem_nil
  have hquotients : quotients.Finite := by
    refine .of_children finite_nil ?_
    simp only [quotients, Node.children, forall_mem_cons]
    refine ⟨hleaf 4 3 (by decide), .of_children finite_nil ?_, hleaf 6 0.5 (by decide), by simp⟩
    simp only [Node.children, Node.operands, forall_mem_cons]
    exact ⟨hleaf 1 1 (by decide), hleaf 2 0 (by decide), by simp⟩
  exact ⟨hleaf 0 1 (by decide), hquotients,
    (literals_finite (hleaf 0 1 (by decide)) hquotients {} 31 rfl).2.2.1⟩

end ShaderGraph
