import ShaderGraph.Proofs.Advance
import ShaderGraph.Proofs.Names

/-!
# What a step does

Each kind of node ends its evaluation with a step on the results of its operands. `Outcome` lists
the three things that a step of a plain node can do: declare a variable, place a break, or give
up with an error. A declaration is given by a `Form`, and `Form.Fits` says how the form depends on
the operands. `Advance` is what a step may do to the session besides.
-/

namespace ShaderGraph

open Eval List

variable {r : String} {n : Node} {gs : List Generated} {s s' : Session} {folding : Bool} {type : GlType}
  {id : NodeId} {c : Scope} {g count : Generated} {f : Function}

/-! ## Names read by expressions -/

def Atom.names : Atom → List String
  | .name s => [s]
  | .float _ | .bool _ => []

def Cast.names : Cast → List String
  | .keep a | .convert _ a => a.names

def Expr.names : Expr → List String
  | .cast c => c.names
  | .operation _ args | .call _ args => args.flatMap (·.names)
  | .field a _ => a.names
  | .select c a b => c.names ++ a.names ++ b.names
  | .literals .. | .coordinate _ | .resolution => []

theorem Atom.mem_names {a : Atom} : r ∈ a.names ↔ a = .name r := by
  cases a <;> simp [Atom.names, eq_comm]

/-! ## Emission -/

/-- What a step adds to the result of `emit`. -/
structure Extras where
  uniforms : List Uniform := []
  attributes : List Attribute := []
  functions : List Function := []
  arguments : List ArgumentDef := []
  accumulators : List AccumulatorDef := []
  constant : Option Float32 := none

def Generated.extend (g : Generated) (x : Extras) : Generated :=
  { g with
    uniforms := adjoin g.uniforms x.uniforms
    attributes := adjoin g.attributes x.attributes
    functions := adjoin g.functions x.functions
    arguments := adjoin g.arguments x.arguments
    accumulators := adjoin g.accumulators x.accumulators
    constant := x.constant }

/-- The variables that `emit` marks. -/
def marks (deps : List Generated) (v : Atom) : List String :=
  (deps.filter (!·.isReference)).map (·.var.text) ++ [v.text]

/-! ## Forms -/

/-- What a plain node declares: the base of the variable's name, its type and its value, the
operands whose code comes first, and what is added to the result. -/
structure Form where
  base : String
  type : GlType
  value : Expr
  deps : List Generated
  extras : Extras := {}

namespace Form

def name (φ : Form) (k : Nat) : String := φ.base ++ toString k

/-- The result when the variable has number `k`. -/
def result (φ : Form) (k : Nat) : Generated :=
  (Generated.gather φ.type [.decl φ.type (φ.name k) φ.value] (.name (φ.name k)) φ.deps).extend
    φ.extras

def session (φ : Form) (c : Scope) (es : List GraphError) (s : Session) : Session :=
  (s.report c es).bump.mark c (marks φ.deps (.name (φ.name s.counter)))

def operation (op : Operator) (gs : List Generated) : Form :=
  { base := op.name ++ "Val"
    type := op.resultType (gs.map (·.type))
    value := .operation op (gs.map (·.var))
    deps := gs }

def application (f : Builtin) (gs : List Generated) : Form :=
  { base := f.name ++ "Val"
    type := f.resultType (gs.map (·.type))
    value := .call f.name (gs.map (·.var))
    deps := gs }

/-- The form with its value computed, where that is known. -/
def fold (φ : Form) (folding : Bool) (fold? : List Float32 → Option Float32) : Form :=
  match Step.folded? folding φ.type fold? φ.deps with
  | some x =>
    { φ with type := .float, value := .cast (.keep (.float x)), extras := { constant := some x } }
  | none => φ

end Form

namespace Step

/-- How `cast` converts an operand. -/
def castOf (type : GlType) (g : Generated) : Cast :=
  if g.type ≠ type ∧ g.type = .float then .convert type g.var else .keep g.var

def checkCast (type : GlType) (g : Generated) : List GraphError :=
  if g.type ≠ type ∧ g.type ≠ .float then [.conversion g.type type] else []

def checkSwizzle (fields : String) (type : GlType) : List GraphError :=
  (if (GlType.ofLength? fields.utf8ByteSize).isNone then
    [.swizzleLength fields fields.utf8ByteSize] else []) ++
    if !type.isVector then [.swizzleOperand fields type]
    else if !validFields fields type.components then [.swizzleFields fields type] else []

def checkCall (f : Function) (gs : List Generated) : List GraphError :=
  (if gs.length ≠ f.params.length then [.callCount f.name gs.length f.params.length] else []) ++
    checkCallArguments f.name 0 (gs.map (·.type)) f.params

end Step

namespace Node

/-- What a plain node declares, if it does. -/
def form? (folding : Bool) : Node → List Generated → Option Form
  | coordinate _ k, _ => some ⟨k.name, k.type, .coordinate k, [], {}⟩
  | resolution _, _ => some ⟨"res", .vec2, .resolution, [], {}⟩
  | operator _ op _, gs =>
    if gs.isEmpty then none
    else some ((Form.operation op gs).fold folding op.fold?)
  | builtin _ f _, gs => some ((Form.application f gs).fold folding f.fold?)
  | construct _ k _, gs =>
    some ⟨k.type.name ++ "Val", k.type, .call k.type.name (gs.map (·.var)), gs, {}⟩
  | constant _ k, _ => some ⟨k.base, k.type, .literals k.type k.values, [], {}⟩
  | swizzle _ _ fields, [g] => some ⟨Text.lower fields ++ "Val",
      (GlType.ofLength? fields.utf8ByteSize).getD .float, .field g.var fields, [g], {}⟩
  | switch .., [cond, yes, no] =>
    let type := GlType.promote [yes.type, no.type]
    some ⟨"switchVal", type, .select cond.var (Step.castOf type yes) (Step.castOf type no),
      [cond, yes, no], {}⟩
  | call .., gs =>
    match gs.getLast?.bind (·.function) with
    | some f => some ⟨f.name ++ "Value", f.returns, .call f.name (gs.dropLast.map (·.var)),
        gs.dropLast, { functions := [f], uniforms := f.uniforms }⟩
    | none => none
  | argument id name index type, _ => some ⟨"funcArg", type, .cast (.keep (.name name)), [],
      { arguments := [⟨id, name, index, type⟩] }⟩
  | _, _ => none

def check (c : Scope) : Node → List Generated → List GraphError
  | coordinate _ k, _ => if c.stage ≠ .fragment then [.coordinateStage k.name c.stage] else []
  | operator _ op _, gs => op.check (gs.map (·.type))
  | builtin _ f _, gs => f.check (gs.map (·.type))
  | construct _ k _, gs => Step.checkConstruct k.type (gs.map (·.type))
  | swizzle _ _ fields, [g] => Step.checkSwizzle fields g.type
  | switch .., [cond, yes, no] =>
    let type := GlType.promote [yes.type, no.type]
    (if cond.type ≠ .bool then [.switchCondition cond.type] else []) ++
      (Step.checkCast type yes ++ Step.checkCast type no)
  | call .., gs =>
    match gs.getLast?.bind (·.function) with
    | some f => Step.checkCall f gs.dropLast
    | none => []
  | _, _ => []

end Node

/-! ## Runs of steps -/

namespace Eval

@[simp] theorem run_report (c : Scope) (es : List GraphError) (s : Session) :
    (report c es).run s = ((), s.report c es) := rfl

theorem run_report_then {α : Type} (p : Prop) [Decidable p] (c : Scope) (es : List GraphError)
    (x : Eval α) (s : Session) :
    (if p then report c es >>= fun _ => x else x).run s =
      x.run (s.report c (if p then es else [])) := by
  split
  · rfl
  · rw [Session.report_nil]

@[simp] theorem run_fresh (base : String) (s : Session) :
    (fresh base).run s = (base ++ toString s.counter, s.bump) := rfl

@[simp] theorem run_declare (c : Scope) (type : GlType) (v : String) (e : Expr)
    (deps : List Generated) (s : Session) :
    (declare c type v e deps).run s =
      (.gather type [.decl type v e] (.name v) deps, s.mark c (marks deps (.name v))) := rfl

end Eval

namespace Step

theorem run_cast (c : Scope) (type : GlType) (g : Generated) (s : Session) :
    (cast c type g).run s = (castOf type g, s.report c (checkCast type g)) := by
  unfold cast castOf checkCast
  by_cases h : g.type = type
  · rw [if_pos h, if_neg (fun hc => hc.1 h), if_neg (fun hc => hc.1 h), Session.report_nil]
    rfl
  · by_cases h' : g.type = .float
    · rw [if_neg h, if_neg (not_not_intro h'), if_pos ⟨h, h'⟩, if_neg (fun hc => hc.2 h'),
        Session.report_nil]
      rfl
    · rw [if_neg h, if_pos h', if_neg (fun hc => h' hc.2), if_pos ⟨h, h'⟩]
      rfl

theorem run_swizzle (c : Scope) (fields : String) (g : Generated) (s : Session) :
    (swizzle c fields g).run s =
      (declare c ((GlType.ofLength? fields.utf8ByteSize).getD .float)
        (Text.lower fields ++ "Val" ++ toString s.counter) (.field g.var fields) [g]).run
        (s.report c (checkSwizzle fields g.type)).bump := by
  unfold swizzle checkSwizzle
  dsimp only
  rw [run_report_then]
  by_cases hv : (!g.type.isVector) = true
  · simp only [if_pos hv, run_bind, run_report, run_fresh, Session.report_report,
      Session.report_counter]
  · rw [if_neg hv, if_neg hv, run_report_then]
    simp only [run_bind, run_fresh, Session.report_report, Session.report_counter]

theorem run_select (c : Scope) (cond yes no : Generated) (s : Session) :
    (select c cond yes no).run s =
      let type := GlType.promote [yes.type, no.type]
      (declare c type ("switchVal" ++ toString s.counter)
        (.select cond.var (castOf type yes) (castOf type no)) [cond, yes, no]).run
        (s.report c ((if cond.type ≠ .bool then [.switchCondition cond.type] else []) ++
          (checkCast type yes ++ checkCast type no))).bump := by
  unfold select
  dsimp only
  rw [run_report_then]
  simp only [run_bind, run_fresh, run_cast, Session.report_bump, Session.report_report,
    Session.report_counter, append_assoc]

theorem run_call (c : Scope) (fn : Generated) (gs : List Generated) (f : Function)
    (h : fn.function = some f) (s : Session) :
    (call c fn gs).run s =
      let r := (declare c f.returns (f.name ++ "Value" ++ toString s.counter)
        (.call f.name (gs.map (·.var))) gs).run (s.report c (checkCall f gs)).bump
      (r.1.extend { functions := [f], uniforms := f.uniforms }, r.2) := by
  unfold call checkCall
  simp only [h]
  rw [run_report_then]
  simp only [run_bind, run_report, run_fresh, Session.report_report, Session.report_counter]
  rfl

end Step

theorem Generated.constant_of_constants {xs : List Float32} (h : constants? gs = some xs) :
    ∀ d ∈ gs, d.constant ≠ none := by
  induction gs generalizing xs with
  | nil => exact forall_mem_nil _
  | cons g gs ih =>
    simp only [constants?, mapM_cons, Option.bind_eq_bind, Option.bind_eq_some_iff] at h
    obtain ⟨x, hx, ys, hys, -⟩ := h
    exact forall_mem_cons.mpr ⟨by simp [hx], ih hys⟩

theorem Step.folded_eq_some {fold? : List Float32 → Option Float32} {x : Float32}
    (h : folded? folding type fold? gs = some x) :
    type = .float ∧ Number.finite x ∧ ∃ xs, Generated.constants? gs = some xs ∧ fold? xs = some x := by
  unfold folded? at h
  split at h
  · next hc =>
    obtain ⟨hx, hfinite⟩ := Option.filter_eq_some_iff.mp h
    exact ⟨hc.2, hfinite, Option.bind_eq_some_iff.mp hx⟩
  · cases h

namespace Form

section
variable (φ : Form) (folding : Bool) (fold? : List Float32 → Option Float32)

theorem fold_false : φ.fold false fold? = φ := by
  simp [fold, Step.folded?]

theorem fold_base : (φ.fold folding fold?).base = φ.base := by
  unfold fold; split <;> rfl

theorem fold_deps : (φ.fold folding fold?).deps = φ.deps := by
  unfold fold; split <;> rfl

theorem fold_type : (φ.fold folding fold?).type = φ.type := by
  unfold fold
  split
  · next hx => exact (Step.folded_eq_some hx).1.symm
  · rfl

theorem fold_value : (φ.fold folding fold?).value = φ.value ∨
    ∃ x, (φ.fold folding fold?).value = .cast (.keep (.float x)) := by
  unfold fold
  split
  · next x _ => exact .inr ⟨x, rfl⟩
  · exact .inl rfl

theorem fold_captures (hx : φ.extras = {}) :
    (φ.fold folding fold?).extras.arguments = [] ∧ (φ.fold folding fold?).extras.accumulators = [] := by
  unfold fold
  split
  · exact ⟨rfl, rfl⟩
  · rw [hx]
    exact ⟨rfl, rfl⟩

variable {φ folding fold?}

theorem fold_of_ne (h : φ.type ≠ .float) : φ.fold folding fold? = φ := by
  unfold fold Step.folded?
  rw [if_neg fun hc => h hc.2]

theorem fold_of_unknown (h : ∃ d ∈ φ.deps, d.constant = none) : φ.fold folding fold? = φ := by
  obtain ⟨d, hd, hnone⟩ := h
  unfold fold
  split
  · next hx =>
    obtain ⟨-, -, xs, hxs, -⟩ := Step.folded_eq_some hx
    exact absurd hnone (Generated.constant_of_constants hxs d hd)
  · rfl

end

variable (φ : Form) (c : Scope) (es : List GraphError) (s : Session)

theorem run_fold (fold? : List Float32 → Option Float32) (hx : φ.extras = {}) :
    (match Step.folded? s.folding φ.type fold? φ.deps with
      | some x => Step.foldedConstant c (φ.name s.counter) x φ.deps
      | none => declare c φ.type (φ.name s.counter) φ.value φ.deps).run (s.report c es).bump =
      ((φ.fold s.folding fold?).result s.counter, (φ.fold s.folding fold?).session c es s) := by
  simp only [session, name, fold_base, fold_deps]
  unfold fold
  cases Step.folded? s.folding φ.type fold? φ.deps with
  | some x => rfl
  | none =>
    simp only [result, hx]
    rfl

theorem writes : s.Writes c (marks φ.deps (.name (φ.name s.counter))) 1 (φ.session c es s) :=
  .thenMark (.trans (.report c s es) (.bump c _)) _

theorem advance : s.Advance c (marks φ.deps (.name (φ.name s.counter))) (φ.session c es s) :=
  (φ.writes c es s).toAdvance

theorem session_counter : (φ.session c es s).counter = s.counter + 1 := congrArg (· + 1) (s.report_counter c es)

theorem lt_session_counter : s.counter < (φ.session c es s).counter :=
  φ.session_counter c es s ▸ Nat.lt_succ_self _

theorem session_errors : ((φ.session c es s).registry c.stage).errors = (s.registry c.stage).errors ++ es := by
  simp [session, Session.report, Registry.addErrors]

end Form

theorem Node.form_operator {φ : Form} {op : Operator} {args : List Node}
    (hφ : (operator id op args).form? folding gs = some φ) :
    ¬ gs.isEmpty ∧ (Form.operation op gs).fold folding op.fold? = φ := by
  rw [form?, Option.ite_none_left_eq_some] at hφ
  exact ⟨hφ.1, Option.some.inj hφ.2⟩

theorem Node.run_step {φ : Form} (hφ : n.form? s.folding gs = some φ) (c : Scope) :
    (n.step c gs).run s = (φ.result s.counter, φ.session c (n.check c gs) s) := by
  cases n with
  | coordinate id k =>
    cases hφ
    simp only [Node.step, Step.readCoordinate]
    rw [run_report_then]
    simp only [run_bind, run_fresh, Session.report_counter]
    rfl
  | resolution | constant | argument =>
    cases hφ
    simp only [Form.session, Node.check, Session.report_nil]
    rfl
  | operator id op args =>
    obtain ⟨hgs, rfl⟩ := form_operator hφ
    simp only [Node.step, Step.operate, if_neg hgs, run_bind, run_report, run_fresh, run_get,
      Session.report_counter, Session.bump_folding, Session.report_folding]
    exact (Form.operation op gs).run_fold c _ s op.fold? rfl
  | builtin id f args =>
    cases hφ
    simp only [Node.step, Step.applyBuiltin, run_bind, run_report, run_fresh, run_get,
      Session.report_counter, Session.bump_folding, Session.report_folding]
    exact (Form.application f gs).run_fold c _ s f.fold? rfl
  | construct id k args =>
    cases hφ
    simp only [Node.step, Step.construct, run_bind, run_report, run_fresh, Session.report_counter]
    rfl
  | swizzle id m fields =>
    rcases gs with _ | ⟨g, _ | ⟨_, _⟩⟩ <;> cases hφ
    exact Step.run_swizzle c fields g s
  | switch id cond yes no =>
    rcases gs with _ | ⟨gc, _ | ⟨ga, _ | ⟨gb, _ | ⟨_, _⟩⟩⟩⟩ <;> cases hφ
    exact Step.run_select c gc ga gb s
  | call id fn args =>
    simp only [Node.form?] at hφ
    split at hφ
    · next f hf =>
      cases hφ
      obtain ⟨gf, hl, hf'⟩ := Option.bind_eq_some_iff.mp hf
      simp only [Node.step, Node.check, hl, Option.bind_some, hf']
      exact Step.run_call c gf _ f hf' s
    · cases hφ
  | _ => simp [Node.form?] at hφ

theorem Builtin.ofName_name (f : Builtin) : Builtin.ofName? f.name = some f := by
  cases f <;> decide

/-! ## What forms have in common -/

theorem mem_names_map {deps : List Generated} :
    r ∈ (deps.map (·.var)).flatMap (·.names) ↔ ∃ d ∈ deps, d.var = .name r := by
  simp [mem_flatMap, Atom.mem_names]

/-- How the declaration of a node in a scope depends on the results of its operands. -/
structure Form.Fits (φ : Form) (n : Node) (c : Scope) (gs : List Generated) : Prop where
  base : IsBase φ.base
  deps : φ.deps <+: gs
  /-- An operand whose code is left out is the function called. -/
  rest : ∀ rest, gs = φ.deps ++ rest → ∀ d ∈ rest, ∃ f ∈ φ.extras.functions, d.function = some f
  functions : ∀ f ∈ φ.extras.functions, ∃ d ∈ gs, d.function = some f
  uniforms : φ.extras.uniforms = φ.extras.functions.flatMap (·.uniforms)
  arguments : ∀ a ∈ φ.extras.arguments, n = .argument a.id a.name a.index a.type
  accumulators : φ.extras.accumulators = []
  /-- The names read are those of operands and of parameters. -/
  reads : ∀ r ∈ φ.value.names, (∃ d ∈ φ.deps, d.var = .name r) ∨ ∃ a ∈ φ.extras.arguments, r = a.name
  coordinate : ∀ q, φ.value = .coordinate q → c.stage = .fragment ∨ n.check c gs ≠ []

namespace Form.Fits

theorem plain {φ : Form} (hbase : IsBase φ.base) (hdeps : φ.deps = gs) (hx : φ.extras = {})
    (hreads : ∀ r ∈ φ.value.names, ∃ d ∈ φ.deps, d.var = .name r)
    (hcoord : ∀ q, φ.value = .coordinate q → c.stage = .fragment ∨ n.check c gs ≠ []) :
    φ.Fits n c gs where
  base := hbase
  deps := hdeps ▸ prefix_refl _
  rest rest hrest d hd := by
    rw [hdeps, self_eq_append_right] at hrest
    rw [hrest] at hd
    cases hd
  functions f hf := by simp [hx] at hf
  uniforms := by simp [hx]
  arguments a ha := by simp [hx] at ha
  accumulators := by rw [hx]
  reads r hr := .inl (hreads r hr)
  coordinate := hcoord

theorem fold {φ : Form} (h : φ.Fits n c gs) (hφ : φ.extras = {}) (folding : Bool)
    (fold? : List Float32 → Option Float32) : (φ.fold folding fold?).Fits n c gs := by
  unfold Form.fold
  split
  · exact { h with
      functions := fun f hf => by cases hf
      uniforms := rfl
      arguments := fun a ha => by cases ha
      accumulators := rfl
      rest := fun rest hrest d hd => by
        obtain ⟨f, hf, -⟩ := h.rest rest hrest d hd
        simp [hφ] at hf
      reads := fun r hr => by cases hr
      coordinate := fun q hq => by cases hq }
  · exact h

end Form.Fits

theorem Step.names_castOf (type : GlType) (g : Generated) : (castOf type g).names = g.var.names := by
  unfold castOf
  split <;> rfl

theorem Node.form_fits {φ : Form} (c : Scope) (hlen : gs.length = n.operands.length)
    (hφ : n.form? folding gs = some φ) : φ.Fits n c gs := by
  cases n with
  | coordinate id k =>
    cases hφ
    refine .plain (isBase_coordinate k) (length_eq_zero_iff.mp hlen).symm rfl (fun r => by simp [Expr.names]) ?_
    intro q _
    by_cases hc : c.stage = .fragment
    · exact .inl hc
    · exact .inr (by simp [Node.check, hc])
  | resolution id =>
    cases hφ
    exact .plain (.inl (by decide)) (length_eq_zero_iff.mp hlen).symm rfl (fun r => by simp [Expr.names])
      fun q hq => by cases hq
  | operator id op args =>
    obtain ⟨-, rfl⟩ := form_operator hφ
    have h : (Form.operation op gs).Fits (.operator id op args) c gs :=
      .plain (isBase_val op.name) rfl rfl (fun r => mem_names_map.mp) fun q hq => by cases hq
    exact h.fold rfl folding op.fold?
  | builtin id f args =>
    cases hφ
    have h : (Form.application f gs).Fits (.builtin id f args) c gs :=
      .plain (isBase_val f.name) rfl rfl (fun r => mem_names_map.mp) fun q hq => by cases hq
    exact h.fold rfl folding f.fold?
  | construct id k args =>
    cases hφ
    exact .plain (isBase_val k.type.name) rfl rfl (fun r => mem_names_map.mp)
      fun q hq => by cases hq
  | constant id k =>
    cases hφ
    exact .plain (isBase_constant k) (length_eq_zero_iff.mp hlen).symm rfl (fun r => by simp [Expr.names])
      fun q hq => by cases hq
  | swizzle id m fields =>
    obtain ⟨g, rfl⟩ := length_eq_one_iff.mp hlen
    cases hφ
    exact .plain (isBase_val _) rfl rfl (fun r => by simp [Expr.names, Atom.mem_names])
      fun q hq => by cases hq
  | switch id cond yes no =>
    obtain ⟨gc, ga, gb, rfl⟩ := length_eq_three.mp hlen
    cases hφ
    refine .plain (isBase_val "switch") rfl rfl (fun r => ?_) fun q hq => by cases hq
    simp [Expr.names, Step.names_castOf, Atom.mem_names]
  | call id fn args =>
    simp only [Node.form?] at hφ
    split at hφ
    · next f hf =>
      cases hφ
      obtain ⟨gf, hl, hf'⟩ := Option.bind_eq_some_iff.mp hf
      have hgs : gs = gs.dropLast ++ [gf] := (dropLast_append_getLast? gf hl).symm
      have hgf : gf ∈ gs := mem_of_getLast? hl
      exact
        { base := isBase_value f.name
          deps := dropLast_prefix gs
          rest := fun rest hrest d hd => by
            rw [append_cancel_left (hgs.symm.trans hrest).symm, mem_singleton] at hd
            exact ⟨f, mem_singleton_self f, hd ▸ hf'⟩
          functions := fun f' hf => ⟨gf, hgf, by rw [mem_singleton.mp hf, hf']⟩
          uniforms := (append_nil _).symm
          arguments := fun a ha => by cases ha
          accumulators := rfl
          reads := fun r hr => .inl (mem_names_map.mp hr)
          coordinate := fun q hq => by cases hq }
    · cases hφ
  | argument id name index type =>
    cases hφ
    have hbase : IsBase "funcArg" := .inl (by decide)
    exact
      { base := hbase
        deps := nil_prefix
        rest := fun rest hrest d hd => by
          rw [length_eq_zero_iff.mp hlen] at hrest
          rw [(nil_eq_append_iff.mp hrest).2] at hd
          cases hd
        functions := fun f hf => by cases hf
        uniforms := rfl
        arguments := fun a ha => by rw [mem_singleton.mp ha]
        accumulators := rfl
        reads := fun r hr => .inr ⟨_, mem_cons_self, mem_singleton.mp hr⟩
        coordinate := fun q hq => by cases hq }
  | _ => cases hφ

/-! ## Outcomes -/

/-- A plain node declares a variable unless it is an operator without operands, a break, or the call of what
is no function. -/
inductive Node.Formless : Node → List Generated → Prop where
  | operator {id : NodeId} {op : Operator} {args : List Node} : Formless (.operator id op args) []
  | broken {id : NodeId} {a b : Node} {cond value : Generated} : Formless (.breakIf id a b) [cond, value]
  | call {id : NodeId} {fn : Node} {args : List Node} {gs : List Generated} {gf : Generated}
      (hf : gf.function = none) : Formless (.call id fn args) (gs ++ [gf])

theorem Node.formless (hn : n.isPlain) (hlen : gs.length = n.operands.length) (hφ : n.form? folding gs = none) :
    n.Formless gs := by
  cases n with
  | operator id op args =>
    cases gs with
    | nil => exact .operator
    | cons g gs => cases hφ
  | call id fn args =>
    have hne : gs ≠ [] := by rintro rfl; simp [operands] at hlen
    obtain ⟨gf, hl⟩ : ∃ gf, gs.getLast? = some gf := ⟨_, getLast?_eq_some_getLast hne⟩
    rw [← dropLast_append_getLast? gf hl]
    refine .call ?_
    cases hf : gf.function with
    | none => rfl
    | some f => simp [form?, hl, hf] at hφ
  | breakIf id a b =>
    obtain ⟨gc, gv, rfl⟩ := length_eq_two.mp hlen
    exact .broken
  | swizzle id m fields =>
    obtain ⟨g, rfl⟩ := length_eq_one_iff.mp hlen
    cases hφ
  | switch id cond yes no =>
    obtain ⟨gc, ga, gb, rfl⟩ := length_eq_three.mp hlen
    cases hφ
  | coordinate | resolution | builtin | construct | constant | argument => cases hφ
  | _ => cases hn

/-- What a step of a plain node does, given the results of the operands. -/
inductive Outcome (n : Node) (c : Scope) (gs : List Generated) (s : Session) (g : Generated)
    (s' : Session) : Prop where
  /-- Declares a variable. -/
  | declared (φ : Form) (hφ : n.form? s.folding gs = some φ) (hg : g = φ.result s.counter)
      (hs : s' = φ.session c (n.check c gs) s)
  /-- Places a break and stands for its second operand. -/
  | broken {id : NodeId} {a b : Node} {cond value : Generated} {es : List GraphError}
      (hn : n = .breakIf id a b) (hgs : gs = [cond, value])
      (hg : g = .gather value.type [.breakIf cond.var] value.var gs)
      (hs : s' = (s.report c es).mark c (marks gs value.var)) (hloop : es = [] → c.inLoop)
  /-- Records an error and declares nothing. -/
  | failed (herr : (s'.registry c.stage).errors ≠ []) (hg : g ∈ gs ∨ g = .float 0)
      (hs : s.Writes c [] 0 s')

theorem Session.report_errors_ne_nil (s : Session) (c : Scope) (e : GraphError) :
    ((s.report c [e]).registry c.stage).errors ≠ [] := by
  simp [Session.report, Registry.addErrors]

theorem Step.breakIf_outcome {a b : Node} {cond value : Generated} (hr : (breakIf c cond value).run s = (g, s')) :
    Outcome (.breakIf id a b) c [cond, value] s g s' := by
  unfold breakIf at hr
  rw [run_report_then, run_report_then, Session.report_report] at hr
  cases hr
  refine .broken rfl rfl rfl rfl fun h => ?_
  by_contra hloop
  simp [hloop] at h

theorem Step.call_outcome {fn : Generated} (hf : fn.function = none) (hr : (call c fn gs).run s = (g, s')) :
    Outcome n c (gs ++ [fn]) s g s' := by
  unfold call at hr
  rw [hf] at hr
  cases gs with
  | nil =>
    cases hr
    exact .failed (s.report_errors_ne_nil c _) (.inr rfl)
      (.trans (.report c s _) (.skipId c _ _))
  | cons g gs =>
    cases hr
    exact .failed (s.report_errors_ne_nil c _) (.inl mem_cons_self) (.report c s _)

theorem Node.step_outcome (hn : n.isPlain) (hlen : gs.length = n.operands.length)
    (hr : (n.step c gs).run s = (g, s')) : Outcome n c gs s g s' := by
  cases hφ : n.form? s.folding gs with
  | some φ =>
    rw [run_step hφ c] at hr
    cases hr
    exact .declared φ hφ rfl rfl
  | none =>
    cases formless hn hlen hφ with
    | operator =>
      cases hr
      exact .failed (s.report_errors_ne_nil c _) (.inr rfl) (.trans (.report c s _) (.skipId c _ _))
    | call hf =>
      simp only [step, getLast?_concat, dropLast_concat] at hr
      exact Step.call_outcome hf hr
    | broken => exact Step.breakIf_outcome hr

/-! ## Immediate nodes and varyings -/

/-- A result that brings nothing but an operand. -/
structure Generated.Bare (g : Generated) : Prop where
  code : g.code.stmts = []
  declared : g.declared = []
  functions : g.functions = []
  arguments : g.arguments = []
  accumulators : g.accumulators = []
  function : g.function = none
  var : ∀ r, g.var = .name r → IsResource r
  named : ¬ g.isReference → ∃ r, g.var = .name r
  constant : g.constant ≠ none → ∀ r, g.var ≠ .name r

namespace Generated

theorem bare_float (v : Float32) : (float v).Bare :=
  ⟨rfl, rfl, rfl, rfl, rfl, rfl, fun _ h => (nomatch h), fun h => absurd rfl h, fun _ _ h => (nomatch h)⟩

theorem bare_bool (b : Bool) : (bool b).Bare :=
  ⟨rfl, rfl, rfl, rfl, rfl, rfl, fun _ h => (nomatch h), fun h => absurd rfl h, fun _ _ h => (nomatch h)⟩

def resource (type : GlType) (name : String) : Generated := .gather type [] (.name name) []

theorem bare_resource (type : GlType) {name : String} (h : IsResource name) :
    (resource type name).Bare :=
  ⟨rfl, rfl, rfl, rfl, rfl, rfl, fun _ hr => by cases hr; exact h, fun _ => ⟨name, rfl⟩,
    fun hne => absurd rfl hne⟩

end Generated

namespace Step

theorem readUniform_eq {u : Uniform} (h : (readUniform c u).run s = (g, s')) :
    g = { Generated.resource u.type u.name with uniforms := [u] } ∧
      ∃ es, s' = ((s.report c es).updateRegistry c.stage (·.addUniforms [u])).mark c [u.name] := by
  cases h
  exact ⟨rfl, _, rfl⟩

theorem readAttribute_eq {a : Attribute} (h : (readAttribute c a).run s = (g, s')) :
    g = { Generated.resource a.type a.name with attributes := [a] } ∧
      ∃ es, (c.stage ≠ .vertex → es ≠ []) ∧
        s' = ((s.report c es).updateRegistry c.stage (·.addAttribute a)).mark c [a.name] := by
  unfold readAttribute at h
  rw [run_report_then, run_report_then, Session.report_report] at h
  cases h
  refine ⟨rfl, _, fun hc => ?_, rfl⟩
  simp [hc]

/-- The varying that passes on a result of the vertex stage. -/
def varyingDef (id : NodeId) (g : Generated) : VaryingDef :=
  { name := varyingName id
    type := g.type
    source := g.var
    code := g.code.stmts
    uniforms := g.uniforms
    functions := g.functions }

def checkVarying (id : NodeId) (type : GlType) : List GraphError :=
  if !interpolates type then [.varyingType (varyingName id) type] else []

theorem run_readVarying (c : Scope) (id : NodeId) (g : Generated) (s : Session) :
    (readVarying c id g).run s = (Generated.resource g.type (varyingName id),
      (((s.report c (checkVarying id g.type)).updateRegistry .vertex
        (·.addUniforms g.uniforms)).updateRegistry c.stage
          (·.addVarying (varyingDef id g))).mark c [varyingName id]) := by
  unfold readVarying checkVarying
  dsimp only
  rw [run_report_then]
  rfl

theorem readVarying_eq {r : Generated} (h : (readVarying c id g).run s = (r, s')) :
    ∃ s1, s.Advance c [varyingName id] s1 ∧ r = Generated.resource g.type (varyingName id) ∧
      s' = s1.updateRegistry c.stage (·.addVarying (varyingDef id g)) := by
  rw [run_readVarying] at h
  cases h
  have hcomm (s : Session) (f : Registry → Registry) : (s.updateRegistry c.stage f).mark c [varyingName id] =
      (s.mark c [varyingName id]).updateRegistry c.stage f := by
    cases c.stage <;> rfl
  exact ⟨_, .thenMark (.trans (.report c s _) (.useUniforms c _ .vertex g.uniforms)) _, rfl, hcomm _ _⟩

/-- The function that a defining node makes of its body. -/
def functionOf (id : NodeId) (name : String) (g : Generated) : Function :=
  { id, name
    params := (parameters name [] (byIndex g.arguments)).1
    returns := g.type
    body := g.code.stmts
    result := g.var
    uniforms := g.uniforms
    functions := g.functions }

theorem function_writes {name : String} (h : (function c id name g).run s = (f, s')) :
    f = functionOf id name g ∧ s.Writes c [] 0 s' := by
  unfold function at h
  rw [run_report_then] at h
  cases h
  exact ⟨rfl, .trans (.report c s _) (.report c _ _)⟩

def functionResult (f : Function) : Generated :=
  { code := .statements []
    var := .name f.name
    type := .function
    uniforms := f.uniforms
    functions := [f]
    function := some f }

theorem readFunction_eq (h : (readFunction c f).run s = (g, s')) :
    g = functionResult f ∧ s.Advance c [] s' := by
  cases h
  exact ⟨rfl, .useUniforms c s c.stage _⟩

/-- What an accumulator declares when its storage has number `k`. -/
def accumulatorForm (name : String) (initial : Node) (type : GlType) (k : Nat) : Form :=
  let storage := name ++ toString k
  { base := "accum"
    type
    value := .cast (.keep (.name storage))
    deps := []
    extras := { accumulators := [⟨k, storage, type, initial⟩] } }

theorem accumulator_writes {name : String} {initial : Node} {es : List GraphError} {s1 : Session}
    (hs : (if c.inLoop then s else s.report c es) = s1)
    (hr : (accumulator c name initial type).run { s1 with nextId := id } = (g, s')) :
    ∃ s2, s.Writes c [] 0 s2 ∧ g = (accumulatorForm name initial type s2.counter).result s2.bump.counter ∧
      s' = (accumulatorForm name initial type s2.counter).session c [] s2.bump := by
  refine ⟨{ s1 with nextId := id }, ?_, ?_⟩
  · subst hs
    split
    · exact .skipId c s id
    · exact .trans (.report c s es) (.skipId c _ id)
  · cases hr
    simp only [Form.session, Session.report_nil]
    exact ⟨rfl, rfl⟩

theorem checkCount_writes (h : ((checkCount c count).run s).2 = s') : s.Writes c [] 0 s' := by
  unfold checkCount at h
  split at h
  · exact h ▸ .report c s _
  · exact h ▸ .refl c s

/-- The statements of a loop whose index has number `k`. -/
def loopStatements (count body : Generated) (b : Binding) (k : Nat) : List Stmt :=
  let type := GlType.promote [body.type, b.initial.type]
  let bound := match count.constant with
    | some v => .constant v
    | none => .upTo count.var
  [.decl type b.var (.cast (castOf type b.initial)),
    .loop ("i" ++ toString k) bound body.code.stmts b.var body.var]

/-- What a loop adds to its result. -/
def loopExtras (body : Generated) (b : Binding) : Extras :=
  { uniforms := body.uniforms
    attributes := body.attributes
    functions := body.functions
    arguments := b.arguments
    accumulators := b.accumulators }

def loopResult (count body : Generated) (b : Binding) (k : Nat) : Generated :=
  (Generated.gather (GlType.promote [body.type, b.initial.type]) (loopStatements count body b k)
    (.name b.var) [b.initial, count]).extend (loopExtras body b)

theorem sumLoop_writes {body : Generated} {b : Binding} (h : (sumLoop c count body b).run s = (g, s')) :
    g = loopResult count body b s.counter ∧ s.Writes c (marks [b.initial, count] (.name b.var)) 1 s' := by
  unfold sumLoop at h
  simp only [run_bind, run_fresh, run_cast] at h
  cases h
  exact ⟨rfl, .thenMark (.trans (.bump c s) (.report c _ _)) _⟩

end Step

theorem Node.step_bare (hn : n.isImmediate) (hr : (n.step c gs).run s = (g, s')) :
    g.Bare ∧ ∃ vs, (∀ v ∈ vs, IsResource v) ∧ s.Advance c vs s' := by
  have none : ∀ v ∈ ([] : List String), IsResource v := fun v hv => by cases hv
  cases n with
  | absent =>
    cases hr
    exact ⟨Generated.bare_float 0, [], none, .report c s _⟩
  | float id v =>
    cases hr
    exact ⟨Generated.bare_float v, [], none, .refl c s⟩
  | bool id b =>
    cases hr
    exact ⟨Generated.bare_bool b, [], none, .refl c s⟩
  | uniform id u =>
    have hu : IsResource u.name := ⟨u.id, .inl rfl⟩
    obtain ⟨rfl, es, rfl⟩ := Step.readUniform_eq hr
    exact ⟨{ Generated.bare_resource u.type hu with }, [u.name], by simpa using hu,
      .thenMark (.trans (.report c s es) (.useUniforms c _ c.stage [u])) _⟩
  | «attribute» id a =>
    have ha : IsResource a.name := ⟨a.id, .inr (.inl rfl)⟩
    obtain ⟨rfl, es, -, rfl⟩ := Step.readAttribute_eq hr
    exact ⟨{ Generated.bare_resource a.type ha with }, [a.name], by simpa using ha,
      .thenMark (.trans (.report c s es) (.addAttribute c _ a)) _⟩
  | _ => cases hn

end ShaderGraph
