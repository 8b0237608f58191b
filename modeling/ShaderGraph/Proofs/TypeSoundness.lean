import ShaderGraph.Proofs.Derivations

/-!
# Types of declarations

In a job without errors, the declarations of comparisons, logical operators, calls of built-in
functions, choices and loops have the types that are written in them under conditions on the types
of their operands, and under no others. The checks leave four things open: what `==` compares may
have two types, a function may get a float where it has no parameter for one, a choice or a loop may
be between values that no variable can hold, and what a loop adds up may not add to its sum.
-/

namespace ShaderGraph

open Eval List

variable {gs : List Generated} {φ : Form} {id : NodeId} {args : List Node} {folding : Bool} {c : Scope}

/-- A result ends in the declaration of a variable, with operands that are declared with the given
types. -/
def Generated.DeclaresWith (s : Session) (g : Generated) (type : GlType) (e : Expr) (ts : List GlType) :
    Prop :=
  (∃ ss v, g.code.stmts = ss ++ [.decl type v e]) ∧ Forall₂ (Atom.HasType s.Types) e.atoms ts

/-- A result of the node ends in what the node declares, and when that is well typed. -/
def Node.Typing (s : Session) : Node → Generated → Prop
  | .operator _ op _, g => op.isArithmetic ∨ ∃ args ts, g.DeclaresWith s .bool (.operation op args) ts ∧
      ((Expr.operation op args).WellTyped ts .bool ↔ op.Compares ts)
  | .builtin _ f _, g =>
    (∃ x, g.DeclaresWith s .float (.cast (.keep (.float x))) [.float] ∧
      (Expr.cast (.keep (.float x))).WellTyped [.float] .float) ∨
    ∃ type args ts, g.DeclaresWith s type (.call f.name args) ts ∧
      ((Expr.call f.name args).WellTyped ts type ↔ f.Mixes ts)
  | .switch .., g => ∃ type cond yes no ts, g.DeclaresWith s type (.select cond yes no) ts ∧
      ((Expr.select cond yes no).WellTyped ts type ↔ type.isValue)
  | .sumLoop .., g => ∃ ss type v start index bound body term initial bounds added,
      g.code.stmts = ss ++ [.decl type v (.cast start), .loop index bound body v term] ∧
      start.atom.HasType s.Types initial ∧ Forall₂ (Atom.HasType s.Types) bound.atoms bounds ∧
      term.HasType s.Types added ∧
      (WellTypedLoop v type start body initial bounds added ↔
        type.isNumeric ∧ (added = type ∨ added = .float) ∧ ∀ t ∈ Stmt.allCopies v body, t = type)
  | _, _ => True

section
variable {s : Session} {n : Node} {g : Generated}

theorem hasType_operands {ns : List Node} (h : Forall₂ s.Operand ns gs) :
    Forall₂ (Atom.HasType s.Types) (gs.map (·.var)) (gs.map (·.type)) := by
  induction h with
  | nil => exact .nil
  | cons hg _ ih => exact .cons hg.typed ih

theorem Form.declaresWith {ts : List GlType} (k : Nat)
    (h : Forall₂ (Atom.HasType s.Types) φ.value.atoms ts) :
    (φ.result k).DeclaresWith s φ.type φ.value ts :=
  ⟨⟨_, _, rfl⟩, h⟩

theorem typing_operator {op : Operator} (hops : Forall₂ s.Operand args gs)
    (hcheck : (Node.operator id op args).check c gs = [])
    (hφ : (Node.operator id op args).form? folding gs = some φ) (k : Nat) :
    (Node.operator id op args).Typing s (φ.result k) := by
  by_cases hop : op.isArithmetic
  · exact .inl hop
  have htype : (Form.operation op gs).type = .bool := by simp [Form.operation, Operator.resultType, hop]
  obtain ⟨hne, rfl⟩ := Node.form_operator hφ
  rw [Form.fold_of_ne (by simp [htype])]
  have htypes : gs.map (·.type) ≠ [] := by simpa using hne
  have hd := Form.declaresWith k (φ := Form.operation op gs) (hasType_operands hops)
  rw [htype] at hd
  refine .inr ⟨_, _, hd, ?_⟩
  rw [← Operator.chain_iff hop htypes hcheck]
  exact and_iff_right rfl

theorem typing_builtin {f : Builtin} (hops : Forall₂ s.Operand args gs)
    (hcheck : (Node.builtin id f args).check c gs = [])
    (hφ : (Node.builtin id f args).form? folding gs = some φ) (k : Nat) :
    (Node.builtin id f args).Typing s (φ.result k) := by
  cases hφ
  unfold Form.fold
  split
  · next x _ => exact .inl ⟨x, Form.declaresWith k (.cons (.float x) .nil), rfl, rfl⟩
  · refine .inr ⟨_, _, _, Form.declaresWith k (φ := Form.application f gs) (hasType_operands hops), ?_⟩
    have htype : (Expr.call f.name (gs.map (·.var))).type? (gs.map (·.type)) =
        f.overload? (gs.map (·.type)) := by
      change (Builtin.ofName? f.name).bind _ = _
      rw [Builtin.ofName_name]
      rfl
    rw [← Builtin.overload_iff hcheck]
    constructor
    · rintro ⟨-, h⟩
      exact htype ▸ h
    · exact fun h => ⟨Builtin.isValue_of_overload h, htype.trans h⟩

theorem typing_switch {cond yes no : Node} (hops : Forall₂ s.Operand [cond, yes, no] gs)
    (hcheck : (Node.switch id cond yes no).check c gs = [])
    (hφ : (Node.switch id cond yes no).form? folding gs = some φ) (k : Nat) :
    (Node.switch id cond yes no).Typing s (φ.result k) := by
  rcases hops with _ | ⟨hc, _ | ⟨ha, _ | ⟨hb, _ | _⟩⟩⟩
  cases hφ
  simp only [Node.check, append_eq_nil_iff] at hcheck
  obtain ⟨hcond, hyes, hno⟩ := hcheck
  split_ifs at hcond with hbool
  refine ⟨_, _, _, _, _, Form.declaresWith k ?_, select_wellTyped_iff (not_not.mp hbool) hyes hno⟩
  simp only [Expr.atoms, Step.atom_castOf]
  exact .cons hc.typed (.cons ha.typed (.cons hb.typed .nil))

theorem typing_loop {body count start m : Node} {gi gb gm : Generated} {s0 s1 : Session}
    {bind : Generated → Step.Binding} (hcount : s.Operand count gi) (hfloat : gi.type = .float)
    (hbody : s.Operand body gb) (hopens : Opens gb start s0 m s1 bind) (hinit : s.Operand m gm)
    (hcast : Step.checkCast (GlType.promote [gb.type, gm.type]) gm = []) (k : Nat) :
    (Node.sumLoop id body count start).Typing s (Step.loopResult gi gb (bind gm) k) := by
  -- a constant bound has no operand
  obtain ⟨bound, bounds, hcode, hbounds, hall⟩ : ∃ (bound : LoopBound) (bounds : List GlType),
      (Step.loopResult gi gb (bind gm) k).code.stmts = [gm, gi].flatMap (·.code.stmts) ++
        [.decl (GlType.promote [gb.type, gm.type]) (bind gm).var
          (.cast (Step.castOf (GlType.promote [gb.type, gm.type]) gm)),
         .loop ("i" ++ toString k) bound gb.code.stmts (bind gm).var gb.var] ∧
      Forall₂ (Atom.HasType s.Types) bound.atoms bounds ∧ ∀ t ∈ bounds, t = .float := by
    simp only [Step.loopResult, Step.loopStatements, hopens.initial]
    cases gi.constant with
    | some v => exact ⟨.constant v, [], rfl, .nil, forall_mem_nil _⟩
    | none => exact ⟨.upTo gi.var, [gi.type], rfl, .cons hcount.typed .nil, by simpa using hfloat⟩
  have hstart : (Step.castOf (GlType.promote [gb.type, gm.type]) gm).atom.HasType s.Types gm.type := by
    rw [Step.atom_castOf]
    exact hinit.typed
  exact ⟨_, _, _, _, _, _, _, _, _, _, _, hcode, hstart, hbounds, hbody.typed,
    wellTypedLoop_iff hcast hall⟩

/-- What a node declares from results of its operands is well typed as `Node.Typing` says. -/
theorem Session.Derives.typing (h : s.Derives n g) : n.Typing s g := by
  cases h with
  | declared hops hcheck hφ =>
    cases n with
    | operator => exact typing_operator hops hcheck hφ _
    | builtin => exact typing_builtin hops hcheck hφ _
    | switch => exact typing_switch hops hcheck hφ _
    | sumLoop => cases hφ
    | _ => exact True.intro
  | loop hcount hfloat hbody hopens hinit hcast =>
    exact typing_loop hcount hfloat hbody hopens hinit hcast _
  | broken | accumulator => exact True.intro

end

/-- In a job without errors, every comparison, logical operation, call of a built-in function, choice
and loop declares its variable from operands of declared types, and is well typed exactly under the
condition on these types that `Node.Typing` gives. -/
theorem compiled_typing {G : Graph} (hG : G.Shared) {vertex fragment : Node} (hv : vertex ∈ G.nodes)
    (hf : fragment ∈ G.nodes) {o : CompileOptions} {nextId : NodeId}
    (herr : (compilePair vertex fragment o nextId).error? = none) {r : Compiled}
    (hr : compiled vertex fragment o.folding nextId = r) {n : Node} (hn : n ∈ G.nodes) {e : MemoEntry}
    (he : (n.id, e) ∈ r.session.memo) : n.Typing r.session e.generated := by
  have hclean := errors_compiled herr
  rw [hr] at hclean
  obtain ⟨gv, gf, s1, s2, tv, tf, hr', hvertex, hfragment⟩ :=
    compiled_eq ((grows_everywhere.both (sound_everywhere hG)).both (coherent_everywhere hG)) vertex
      fragment o.folding nextId
  obtain rfl := hr.symm.trans hr'
  have hsound := (hvertex.1.2 hv (.initial G nextId o.folding)).2
  obtain ⟨-, hs1⟩ := hvertex.2 hv (Session.Clean.of_grows hclean hfragment.1.1)
    (.initial G nextId o.folding) (.initial G nextId o.folding)
  obtain ⟨-, hs2⟩ := hfragment.2 hf hclean hsound hs1
  obtain ⟨k, hk, -, hid, hd⟩ := hs2.derived _ he
  obtain rfl := hG k hk n hn hid
  exact hd.typing

/-! ## A ripple and a mixed comparison -/

def rippleLevel : Node := .uniform 1 { id := 1, type := .float }

def rippleTotal : Node := .accumulator 3 "total" (.float 2 0)

def rippleTerm : Node := .builtin 4 .min [rippleTotal, rippleLevel]

def rippleSum : Node := .sumLoop 7 rippleTerm (.float 5 8) (.float 6 0)

def rippleBelow : Node := .operator 8 .lt [rippleSum, rippleLevel]

def rippleShade : Node := .switch 9 rippleBelow rippleSum rippleLevel

def rippleCorner : Node := .construct 10 .vec2 [rippleLevel]

/-- A float is compared with a truth value. -/
def rippleMixed : Node := .operator 12 .eq [rippleLevel, .bool 11 true]

def rippleGate : Node := .switch 13 rippleMixed (.float 2 0) (.float 5 8)

def rippleNodes : List Node :=
  [rippleLevel, .float 2 0, rippleTotal, rippleTerm, .float 5 8, .float 6 0, rippleSum, rippleBelow,
    rippleShade, rippleCorner, .bool 11 true, rippleMixed, rippleGate]

def rippleGraph : Graph := .ofList rippleNodes <| by
  simp [rippleNodes, rippleLevel, rippleTotal, rippleTerm, rippleSum, rippleBelow, rippleShade,
    rippleCorner, rippleMixed, rippleGate, Node.children, Node.operands]

theorem rippleGraph_shared : rippleGraph.Shared := Graph.shared_ofList (by decide)

/-- The fragment stage compares. -/
def rippleMixedJob : Compiled := compiled rippleCorner rippleGate true 14

/-- The fragment stage sums up. -/
def rippleJob : Compiled := compiled rippleCorner rippleShade true 14

/-- A job without errors declares the outcome of comparing a float with a truth value. -/
theorem mixed_comparison_unreported :
    (compilePair rippleCorner rippleGate {} 14).error? = none ∧
      rippleMixedJob.fragmentProgram.main.head?.map Stmt.text = some "bool eqVal1 = uniform1==true;" ∧
      rippleMixedJob.fragmentProgram.uniforms.map (fun u => (u.name, u.type)) = [("uniform1", .float)] ∧
      ¬ (Expr.operation .eq [.name "uniform1", .bool true]).WellTyped [.float, .bool] .bool := by
  refine ⟨by decide +kernel, by decide +kernel, by decide +kernel, ?_⟩
  rintro ⟨-, h⟩
  cases h

/-- The sum of a ripple, the term it adds, the comparison and the choice made of it, in a job without
errors. -/
theorem ripple_typing : (compilePair rippleCorner rippleShade {} 14).error? = none ∧
    ∀ n ∈ [rippleTerm, rippleSum, rippleBelow, rippleShade],
      ∃ e, (n.id, e) ∈ rippleJob.session.memo ∧ n.Typing rippleJob.session e.generated := by
  have herr : (compilePair rippleCorner rippleShade {} 14).error? = none := by decide +kernel
  have hmem {n : Node} (h : n ∈ rippleNodes) : n ∈ rippleGraph.nodes := h
  have hv : rippleCorner ∈ rippleGraph.nodes := hmem (by simp [rippleNodes])
  have hf : rippleShade ∈ rippleGraph.nodes := hmem (by simp [rippleNodes])
  have hr : compiled rippleCorner rippleShade ({} : CompileOptions).folding 14 = rippleJob := rfl
  have hsome : ∀ n ∈ [rippleTerm, rippleSum, rippleBelow, rippleShade],
      (rippleJob.session.memo.lookup n.id).isSome := by decide +kernel
  have hsub : [rippleTerm, rippleSum, rippleBelow, rippleShade] ⊆ rippleNodes := by simp [rippleNodes]
  refine ⟨herr, fun n hn => ?_⟩
  obtain ⟨e, he⟩ := Option.isSome_iff_exists.mp (hsome n hn)
  have he := mem_of_lookup he
  exact ⟨e, he, compiled_typing rippleGraph_shared hv hf herr hr (hmem (hsub hn)) he⟩

end ShaderGraph
