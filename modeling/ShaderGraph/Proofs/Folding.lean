import ShaderGraph.Proofs.Declarations

/-!
# Constant folding

Two evaluations of a graph without loops, one that folds and one that does not, go in lockstep:
they take the same numbers, mark the same variables, remember the same nodes and record the same
errors. Their results differ in the values of declarations only, and where they do the folding
side declares a literal: the value that the other declaration computes from the values of its
operands.
-/

namespace ShaderGraph

open Eval List

variable {e : Expr} {x : Float32} {xs : List Float32} {a : Atom} {y : Code} {f k : Function}
  {fs ks : List Function} {type : GlType} {φ ψ : Form} {n : Node} {vs ws : List VaryingDef} {name : String}
  {u' s u : Session} {c : Scope} {id : NodeId} {G : Graph} {D : String → Expr → Prop} {r q : Registry}
  {g h : Generated}

/-! ## Values of declarations -/

/-- The operands of an operation or of a call of a builtin, and what folding makes of their
values. -/
def Expr.folding? : Expr → Option (List Atom × (List Float32 → Option Float32))
  | .operation op args => some (args, op.fold?)
  | .call f args => (Builtin.ofName? f).map fun b => (args, b.fold?)
  | _ => none

/-- The value of an operand, given the declarations: a literal is its own value, and a variable has
the value that its declaration computes from the values of the operands there. -/
inductive Atom.Evaluates (D : String → Expr → Prop) : Atom → Float32 → Prop where
  | literal (x : Float32) : Evaluates D (.float x) x
  | declared {v : String} {e : Expr} {args : List Atom} {fold : List Float32 → Option Float32}
      {xs : List Float32} {x : Float32} (hd : D v e) (he : e.folding? = some (args, fold))
      (hlen : args.length = xs.length) (hargs : ∀ p ∈ args.zip xs, Evaluates D p.1 p.2)
      (hx : fold xs = some x) : Evaluates D (.name v) x

/-- The value that an expression computes from the values of its operands. -/
def Expr.Evaluates (D : String → Expr → Prop) (e : Expr) (x : Float32) : Prop :=
  ∃ args fold xs, e.folding? = some (args, fold) ∧ Forall₂ (Atom.Evaluates D) args xs ∧
    fold xs = some x

theorem Expr.Evaluates.declared {v : String} (hd : D v e) (h : e.Evaluates D x) :
    (Atom.name v).Evaluates D x := by
  obtain ⟨args, fold, xs, he, hargs, hx⟩ := h
  obtain ⟨hlen, hzip⟩ := forall₂_iff_zip.mp hargs
  exact .declared hd he hlen (fun p hp => hzip hp) hx

theorem values_unique {args : List Atom} {ys : List Float32} (hx : args.length = xs.length)
    (h : ∀ p ∈ args.zip xs, ∀ y, p.1.Evaluates D y → p.2 = y) (hy : Forall₂ (Atom.Evaluates D) args ys) :
    xs = ys := by
  induction hy generalizing xs with
  | nil => exact length_eq_zero_iff.mp hx.symm
  | @cons a y args ys ha _ ih =>
    cases xs with
    | nil => cases hx
    | cons x xs =>
      have hhead : x = y := h (a, x) mem_cons_self y ha
      rw [hhead, ih (Nat.succ.inj hx) fun p hp => h p (mem_cons_of_mem _ hp)]

theorem Atom.Evaluates.unique (hD : ∀ v e e', D v e → D v e' → e = e') (h : a.Evaluates D x) :
    ∀ y, a.Evaluates D y → x = y := by
  induction h with
  | literal x =>
    intro y hy
    cases hy
    rfl
  | @declared v e args fold xs x hd he hlen _ hx ih =>
    intro y hy
    cases hy with
    | @declared _ e' args' fold' ys _ hd' he' hlen' hargs' hy =>
      obtain rfl := hD _ _ _ hd hd'
      rw [he, Option.some.injEq, Prod.mk.injEq] at he'
      obtain ⟨rfl, rfl⟩ := he'
      have hys : Forall₂ (Atom.Evaluates D) args ys :=
        forall₂_iff_zip.mpr ⟨hlen', fun hp => hargs' _ hp⟩
      rw [values_unique hlen ih hys, hy] at hx
      exact (Option.some.inj hx).symm

theorem Expr.Evaluates.unique (hD : ∀ v e e', D v e → D v e' → e = e') {y : Float32} (hx : e.Evaluates D x)
    (hy : e.Evaluates D y) : x = y := by
  obtain ⟨args, fold, xs, he, hargs, hx⟩ := hx
  obtain ⟨args', fold', ys, he', hys, hy⟩ := hy
  rw [he, Option.some.injEq, Prod.mk.injEq] at he'
  obtain ⟨rfl, rfl⟩ := he'
  obtain ⟨hlen, hzip⟩ := forall₂_iff_zip.mp hargs
  have hxs : xs = ys := values_unique hlen (fun p hp y => (hzip hp).unique hD y) hys
  rw [hxs, hy] at hx
  exact (Option.some.inj hx).symm

/-! ## Corresponding code -/

/-- The same statement, or a declaration with its value computed. -/
inductive Stmt.Folds (D : String → Expr → Prop) : Stmt → Stmt → Prop where
  | same (st : Stmt) : Folds D st st
  | computed {v : String} {e : Expr} {x : Float32} (hx : Number.finite x) (he : e.Evaluates D x) :
      Folds D (.decl .float v (.cast (.keep (.float x)))) (.decl .float v e)

example (v : String) (x : Float32) : (Stmt.decl .float v (.cast (.keep (.float x)))).text =
    "float " ++ v ++ " = " ++ Glsl.literal x ++ ";" := rfl

inductive Code.Folds (D : String → Expr → Prop) : Code → Code → Prop where
  | reference : Folds D .reference .reference
  | statements {ss ts : List Stmt} (h : Forall₂ (Stmt.Folds D) ss ts) :
      Folds D (.statements ss) (.statements ts)

/-- Functions that differ in the code of their bodies and of those they call. -/
inductive Function.Folds (D : String → Expr → Prop) : Function → Function → Prop where
  | mk {id : NodeId} {name : String} {returns : GlType} {params : List Glsl.Declaration}
      {body body' : List Stmt} {result : Atom} {uniforms : List Uniform}
      {callees callees' : List Function} (hbody : Forall₂ (Stmt.Folds D) body body')
      (hcallees : Forall₂ (Function.Folds D) callees callees') :
      Folds D ⟨id, name, returns, params, body, result, uniforms, callees⟩
        ⟨id, name, returns, params, body', result, uniforms, callees'⟩

structure VaryingDef.Folds (D : String → Expr → Prop) (v w : VaryingDef) : Prop where
  name : v.name = w.name
  type : v.type = w.type
  source : v.source = w.source
  code : Forall₂ (Stmt.Folds D) v.code w.code
  uniforms : v.uniforms = w.uniforms
  functions : Forall₂ (Function.Folds D) v.functions w.functions

/-- Results of one node. What is known of the value on the unfolded side is known on the folding
side, and what is known there is the value of the operand. -/
structure Generated.Folds (D : String → Expr → Prop) (g h : Generated) : Prop where
  code : g.code.Folds D h.code
  var : g.var = h.var
  type : g.type = h.type
  declared : g.declared = h.declared
  uniforms : g.uniforms = h.uniforms
  attributes : g.attributes = h.attributes
  functions : Forall₂ (Function.Folds D) g.functions h.functions
  arguments : g.arguments = h.arguments
  accumulators : g.accumulators = h.accumulators
  function : Option.Rel (Function.Folds D) g.function h.function
  kept : ∀ x, h.constant = some x → g.constant = some x
  known : ∀ x, g.constant = some x → g.var.Evaluates D x

structure Registry.Folds (D : String → Expr → Prop) (r q : Registry) : Prop where
  uniforms : r.uniforms = q.uniforms
  attributes : r.attributes = q.attributes
  varyings : Forall₂ (VaryingDef.Folds D) r.varyings q.varyings
  textures : r.textures = q.textures
  errors : r.errors = q.errors

/-- Programs that correspond statement by statement. -/
structure StageProgram.Folds (D : String → Expr → Prop) (p q : StageProgram) : Prop where
  stage : p.stage = q.stage
  uniforms : p.uniforms = q.uniforms
  attributes : p.attributes = q.attributes
  varyings : Forall₂ (VaryingDef.Folds D) p.varyings q.varyings
  functions : Forall₂ (Function.Folds D) p.functions q.functions
  main : Forall₂ (Stmt.Folds D) p.main q.main
  result : p.result = q.result
  epilogue : Forall₂ (Stmt.Folds D) p.epilogue q.epilogue

def MemoEntry.Folds (D : String → Expr → Prop) (e e' : MemoEntry) : Prop :=
  e.scope = e'.scope ∧ e.generated.Folds D e'.generated

/-- A session that folds and one that does not, after the same evaluations. -/
structure Session.Folds (D : String → Expr → Prop) (s u : Session) : Prop where
  folding : s.folding = true
  unfolding : u.folding = false
  counter : s.counter = u.counter
  nextScope : s.nextScope = u.nextScope
  memo : Forall₂ (fun p q => p.1 = q.1 ∧ p.2.Folds D q.2) s.memo u.memo
  functions : Forall₂ (fun p q => p.1 = q.1 ∧ p.2.Folds D q.2) s.functions u.functions
  emitted : s.emitted = u.emitted
  vertex : s.vertex.Folds D u.vertex
  fragment : s.fragment.Folds D u.fragment

section
variable {gs hs : List Generated}

theorem Stmt.folds_refl (ss : List Stmt) : Forall₂ (Stmt.Folds D) ss ss :=
  forall₂_same.mpr fun st _ => .same st

theorem Code.Folds.stmts {x : Code} (h : x.Folds D y) : Forall₂ (Stmt.Folds D) x.stmts y.stmts := by
  cases h with
  | reference => exact .nil
  | statements h => exact h

theorem Code.Folds.isReference {x : Code} (h : x.Folds D y) : x.isReference = y.isReference := by
  cases h <;> rfl

/-! ## Lists of functions -/

theorem Function.Folds.beq_eq {f' k' : Function} (hf : f.Folds D k) (hf' : f'.Folds D k') :
    (f == f') = (k == k') := by
  cases hf
  cases hf'
  rfl

mutual

theorem Function.flatten_folds {fs ks : List Function} (h : Forall₂ (Function.Folds D) fs ks) :
    ∀ {f k : Function}, f.Folds D k →
      Forall₂ (Function.Folds D) (Function.flatten fs f) (Function.flatten ks k)
  | ⟨_, _, _, _, _, _, _, callees⟩, _, hf => by
    cases hf with
    | mk hbody hcallees =>
      unfold Function.flatten
      exact forall₂_adjoin Function.Folds.beq_eq (Function.flattenAll_folds h hcallees) (.cons (.mk hbody hcallees) .nil)

theorem Function.flattenAll_folds {fs ks : List Function}
    (h : Forall₂ (Function.Folds D) fs ks) : ∀ {gs hs : List Function},
      Forall₂ (Function.Folds D) gs hs →
      Forall₂ (Function.Folds D) (Function.flattenAll fs gs) (Function.flattenAll ks hs)
  | [], _, .nil => h
  | _ :: _, _, .cons hfirst hrest => by
    unfold Function.flattenAll
    exact Function.flattenAll_folds (Function.flatten_folds h hfirst) hrest

end

/-! ## Results -/

theorem Generated.Folds.reference (h' : g.Folds D h) : g.reference.Folds D h.reference :=
  { h' with code := .reference }

theorem folds_of_bare (hb : g.Bare) (hcode : g.code.Folds D g.code)
    (hknown : ∀ x, g.constant = some x → g.var.Evaluates D x) : g.Folds D g where
  code := hcode
  var := rfl
  type := rfl
  declared := rfl
  uniforms := rfl
  attributes := rfl
  functions := by
    rw [hb.functions]
    exact .nil
  arguments := rfl
  accumulators := rfl
  function := by
    rw [hb.function]
    exact .none
  kept _ hx := hx
  known := hknown

theorem folds_float (x : Float32) : (Generated.float x).Folds D (.float x) := by
  refine folds_of_bare (Generated.bare_float x) .reference fun y hy => ?_
  cases hy
  exact .literal x

section
variable (h' : Forall₂ (Generated.Folds D) gs hs)
include h'

theorem folds_types : gs.map (·.type) = hs.map (·.type) :=
  map_eq_of_forall₂ h' Generated.Folds.type

theorem folds_vars : gs.map (·.var) = hs.map (·.var) :=
  map_eq_of_forall₂ h' Generated.Folds.var

theorem folds_marks (v : Atom) : marks gs v = marks hs v := by
  unfold marks
  congr 1
  induction h' with
  | nil => rfl
  | @cons a b _ _ hfirst _ ih =>
    have hcode : a.isReference = b.isReference := hfirst.code.isReference
    simp only [filter_cons, hcode]
    split
    · simp only [map_cons, hfirst.var, ih]
    · exact ih

theorem folds_stmts : Forall₂ (Stmt.Folds D) (gs.flatMap (·.code.stmts)) (hs.flatMap (·.code.stmts)) := by
  induction h' with
  | nil => exact .nil
  | cons hfirst _ ih => exact rel_append hfirst.code.stmts ih

theorem folds_constants (hxs : Generated.constants? gs = some xs) :
    Forall₂ (Atom.Evaluates D) (hs.map (·.var)) xs := by
  induction h' generalizing xs with
  | nil =>
    cases hxs
    exact .nil
  | cons hfirst _ ih =>
    simp only [Generated.constants?, mapM_cons, Option.bind_eq_bind,
      Option.bind_eq_some_iff] at hxs
    obtain ⟨x, hx, ys, hys, hxs⟩ := hxs
    cases hxs
    have hv := hfirst.known x hx
    rw [hfirst.var] at hv
    exact .cons hv (ih hys)

theorem folds_called :
    Option.Rel (Function.Folds D) (gs.getLast?.bind (·.function)) (hs.getLast?.bind (·.function)) := by
  have hlast := forall₂_getLast? h'
  generalize gs.getLast? = a, hs.getLast? = b at hlast
  cases hlast with
  | none => exact .none
  | some hlast => exact hlast.function

end

/-- What a step adds on both sides to a result with the variable `a`. -/
structure Extras.Folds (D : String → Expr → Prop) (a : Atom) (x y : Extras) : Prop where
  uniforms : x.uniforms = y.uniforms
  attributes : x.attributes = y.attributes
  functions : Forall₂ (Function.Folds D) x.functions y.functions
  arguments : x.arguments = y.arguments
  accumulators : x.accumulators = y.accumulators
  kept : ∀ z, y.constant = some z → x.constant = some z
  known : ∀ z, x.constant = some z → a.Evaluates D z

theorem folds_gather {own own' : List Stmt} {x y : Extras} (hown : Forall₂ (Stmt.Folds D) own own')
    (h' : Forall₂ (Generated.Folds D) gs hs) (hx : x.Folds D a y) :
    ((Generated.gather type own a gs).extend x).Folds D ((Generated.gather type own' a hs).extend y) where
  code := .statements (rel_append (folds_stmts h') hown)
  var := rfl
  type := rfl
  declared := by
    have hempty : own.isEmpty = own'.isEmpty := by cases hown <;> rfl
    simp only [Generated.extend, Generated.gather, hempty, gathered_eq_of_forall₂ h' Generated.Folds.declared]
  uniforms := by
    simp only [Generated.extend, Generated.gather, gathered_eq_of_forall₂ h' Generated.Folds.uniforms,
      hx.uniforms]
  attributes := by
    simp only [Generated.extend, Generated.gather, gathered_eq_of_forall₂ h' Generated.Folds.attributes,
      hx.attributes]
  functions := forall₂_adjoin Function.Folds.beq_eq
    (forall₂_gathered Function.Folds.beq_eq h' (·.functions) .nil) hx.functions
  arguments := by
    simp only [Generated.extend, Generated.gather, gathered_eq_of_forall₂ h' Generated.Folds.arguments,
      hx.arguments]
  accumulators := by
    simp only [Generated.extend, Generated.gather, gathered_eq_of_forall₂ h' Generated.Folds.accumulators,
      hx.accumulators]
  function := .none
  kept := hx.kept
  known := hx.known

/-! ## Forms -/

/-- The declarations of a node on both sides. -/
structure Form.Folds (D : String → Expr → Prop) (φ ψ : Form) : Prop where
  base : φ.base = ψ.base
  type : φ.type = ψ.type
  deps : Forall₂ (Generated.Folds D) φ.deps ψ.deps
  extras : ∀ a, (∀ z, φ.extras.constant = some z → a.Evaluates D z) → φ.extras.Folds D a ψ.extras
  value : φ.value = ψ.value ∧ φ.extras.constant = none ∨
    ∃ x, φ.type = .float ∧ φ.value = .cast (.keep (.float x)) ∧ φ.extras.constant = some x ∧
      Number.finite x ∧ ψ.value.Evaluates D x

theorem Form.Folds.result (h : φ.Folds D ψ) (k : Nat) (hD : ψ.type = .float → D (ψ.name k) ψ.value) :
    (φ.result k).Folds D (ψ.result k) := by
  have hname : φ.name k = ψ.name k := by rw [Form.name, Form.name, h.base]
  unfold Form.result
  rw [hname, h.type]
  rcases h.value with ⟨hvalue, hnone⟩ | ⟨x, hfloat, hvalue, hsome, hfinite, heval⟩
  · rw [hvalue]
    refine folds_gather (Stmt.folds_refl _) h.deps (h.extras _ fun z hz => ?_)
    rw [hnone] at hz
    cases hz
  · have htype : ψ.type = .float := h.type ▸ hfloat
    rw [hvalue, htype]
    refine folds_gather (.cons (.computed hfinite heval) .nil) h.deps (h.extras _ fun z hz => ?_)
    rw [hsome, Option.some.injEq] at hz
    exact hz ▸ heval.declared (hD htype)

theorem Extras.folds_same {x : Extras} (hf : x.functions = []) (hc : x.constant = none) (a : Atom) :
    x.Folds D a x where
  uniforms := rfl
  attributes := rfl
  functions := by
    rw [hf]
    exact .nil
  arguments := rfl
  accumulators := rfl
  kept _ hz := hz
  known z hz := by
    rw [hc] at hz
    cases hz

theorem Form.folds_same {base : String} {value : Expr} {x y : Extras}
    (hdeps : Forall₂ (Generated.Folds D) gs hs) (hnone : x.constant = none) (hx : ∀ a, x.Folds D a y) :
    Form.Folds D ⟨base, type, value, gs, x⟩ ⟨base, type, value, hs, y⟩ :=
  ⟨rfl, rfl, hdeps, fun a _ => hx a, .inl ⟨rfl, hnone⟩⟩

theorem Form.folds_fold {base : String} {value : Expr} {fold? : List Float32 → Option Float32}
    (hdeps : Forall₂ (Generated.Folds D) gs hs) (he : value.folding? = some (hs.map (·.var), fold?)) :
    (Form.fold ⟨base, type, value, gs, {}⟩ true fold?).Folds D
      (Form.fold ⟨base, type, value, hs, {}⟩ false fold?) := by
  rw [Form.fold_false, Form.fold]
  split
  · next x hx =>
    obtain ⟨hfloat, hfinite, xs, hxs, hfold⟩ := Step.folded_eq_some hx
    refine ⟨rfl, hfloat.symm, hdeps, fun a ha => ?_,
      .inr ⟨x, rfl, rfl, rfl, hfinite, _, _, xs, he, folds_constants hdeps hxs, hfold⟩⟩
    exact { Extras.folds_same (x := {}) rfl rfl a with kept := fun _ hz => (by cases hz), known := ha }
  · exact Form.folds_same hdeps rfl (Extras.folds_same rfl rfl)

theorem Step.folds_castOf (type : GlType) (h' : g.Folds D h) : castOf type g = castOf type h := by
  rw [castOf, castOf, h'.type, h'.var]

theorem Node.folds_form (h' : Forall₂ (Generated.Folds D) gs hs) :
    Option.Rel (Form.Folds D) (n.form? true gs) (n.form? false hs) := by
  cases n with
  | coordinate id k => exact .some (Form.folds_same .nil rfl (Extras.folds_same rfl rfl))
  | resolution id => exact .some (Form.folds_same .nil rfl (Extras.folds_same rfl rfl))
  | operator id op args =>
    cases h' with
    | nil => exact .none
    | cons hfirst hrest =>
      have hall := Forall₂.cons hfirst hrest
      refine .some ?_
      rw [Form.operation, Form.operation, folds_types hall, folds_vars hall]
      exact Form.folds_fold hall rfl
  | builtin id f args =>
    refine .some ?_
    rw [Form.application, Form.application, folds_types h', folds_vars h']
    exact Form.folds_fold h' (by rw [Expr.folding?, Builtin.ofName_name, Option.map_some])
  | construct id k args =>
    simp only [form?, folds_vars h']
    exact .some (Form.folds_same h' rfl (Extras.folds_same rfl rfl))
  | constant id k => exact .some (Form.folds_same .nil rfl (Extras.folds_same rfl rfl))
  | swizzle id m fields =>
    rcases h' with _ | ⟨hg, _ | ⟨_, _⟩⟩
    · exact .none
    · simp only [form?, hg.var]
      exact .some (Form.folds_same (.cons hg .nil) rfl (Extras.folds_same rfl rfl))
    · exact .none
  | switch id cond yes no =>
    rcases h' with _ | ⟨hc, _ | ⟨hy, _ | ⟨hn, _ | ⟨_, _⟩⟩⟩⟩
    · exact .none
    · exact .none
    · exact .none
    · simp only [form?, hc.var, hy.type, hn.type, Step.folds_castOf _ hy, Step.folds_castOf _ hn]
      exact .some (Form.folds_same (.cons hc (.cons hy (.cons hn .nil))) rfl (Extras.folds_same rfl rfl))
    · exact .none
  | call id fn args =>
    have hcalled := folds_called h'
    have hdeps := forall₂_dropLast h'
    simp only [form?]
    generalize gs.getLast?.bind (·.function) = a, hs.getLast?.bind (·.function) = b at hcalled
    cases hcalled with
    | none => exact .none
    | some hf =>
      cases hf with
      | mk hbody hcallees =>
        simp only [folds_vars hdeps]
        exact .some (Form.folds_same hdeps rfl fun a =>
          { Extras.folds_same (x := {}) rfl rfl a with functions := .cons (.mk hbody hcallees) .nil, uniforms := rfl })
  | argument id name index type =>
    exact .some (Form.folds_same .nil rfl (Extras.folds_same rfl rfl))
  | _ => exact .none

theorem Step.folds_checkCast (type : GlType) (h' : g.Folds D h) :
    checkCast type g = checkCast type h := by
  rw [checkCast, checkCast, h'.type]

theorem Node.folds_check (c : Scope) (h' : Forall₂ (Generated.Folds D) gs hs) :
    n.check c gs = n.check c hs := by
  cases n with
  | operator id op args | builtin id f args | construct id k args => simp only [check, folds_types h']
  | swizzle id m fields =>
    rcases h' with _ | ⟨hg, _ | ⟨_, _⟩⟩
    · rfl
    · simp only [check, hg.type]
    · rfl
  | switch id cond yes no =>
    rcases h' with _ | ⟨hc, _ | ⟨hy, _ | ⟨hn, _ | ⟨_, _⟩⟩⟩⟩
    · rfl
    · rfl
    · rfl
    · simp only [check, hc.type, hy.type, hn.type, Step.folds_checkCast _ hy,
        Step.folds_checkCast _ hn]
    · rfl
  | call id fn args =>
    have hcalled := folds_called h'
    have hdeps := forall₂_dropLast h'
    simp only [check]
    generalize gs.getLast?.bind (·.function) = a, hs.getLast?.bind (·.function) = b at hcalled
    cases hcalled with
    | none => rfl
    | some hf =>
      cases hf
      simp only [Step.checkCall, hdeps.length_eq, folds_types hdeps]
  | _ => rfl

/-! ## Registries and sessions -/

namespace Registry.Folds

theorem hasVarying (h : Forall₂ (VaryingDef.Folds D) vs ws) (name : String) :
    vs.any (·.name == name) = ws.any (·.name == name) := by
  induction h with
  | nil => rfl
  | cons hfirst _ ih => simp only [any_cons, hfirst.name, ih]

variable (hr : r.Folds D q)
include hr

theorem addErrors (es : List GraphError) : (r.addErrors es).Folds D (q.addErrors es) :=
  { hr with errors := by simp only [Registry.addErrors, hr.errors] }

theorem addUniform (v : Uniform) : (r.addUniform v).Folds D (q.addUniform v) :=
  { hr with
    uniforms := by simp only [Registry.addUniform, hr.uniforms]
    textures := by simp only [Registry.addUniform, hr.textures] }

theorem addUniforms (vs : List Uniform) : (r.addUniforms vs).Folds D (q.addUniforms vs) := by
  induction vs generalizing r q with
  | nil => exact hr
  | cons v vs ih => exact ih (hr.addUniform v)

theorem addAttribute (a : Attribute) : (r.addAttribute a).Folds D (q.addAttribute a) :=
  { hr with attributes := by simp only [Registry.addAttribute, hr.attributes] }

theorem addVarying {v w : VaryingDef} (hv : v.Folds D w) : (r.addVarying v).Folds D (q.addVarying w) := by
  unfold Registry.addVarying
  rw [hasVarying hr.varyings, hv.name]
  split
  · exact hr
  · exact { hr with varyings := rel_append hr.varyings (.cons hv .nil) }

end Registry.Folds

namespace Session.Folds

theorem initial (i j : NodeId) :
    Session.Folds D { nextId := i, folding := true } { nextId := j, folding := false } :=
  ⟨rfl, rfl, rfl, rfl, .nil, .nil, rfl, ⟨rfl, rfl, .nil, rfl, rfl⟩, ⟨rfl, rfl, .nil, rfl, rfl⟩⟩

variable (h' : s.Folds D u)
include h'

theorem registry (stage : Stage) : (s.registry stage).Folds D (u.registry stage) := by
  cases stage with
  | vertex => exact h'.vertex
  | fragment => exact h'.fragment

theorem update (stage : Stage) {f k : Registry → Registry}
    (hf : ∀ {r q : Registry}, r.Folds D q → (f r).Folds D (k q)) :
    (s.updateRegistry stage f).Folds D (u.updateRegistry stage k) := by
  cases stage with
  | vertex => exact { h' with vertex := hf h'.vertex }
  | fragment => exact { h' with fragment := hf h'.fragment }

theorem report (c : Scope) (es : List GraphError) : (s.report c es).Folds D (u.report c es) :=
  h'.update c.stage fun h => h.addErrors es

theorem useUniforms (stage : Stage) (vs : List Uniform) :
    (s.updateRegistry stage (·.addUniforms vs)).Folds D (u.updateRegistry stage (·.addUniforms vs)) :=
  h'.update stage fun h => h.addUniforms vs

theorem mark (c : Scope) (vs : List String) : (s.mark c vs).Folds D (u.mark c vs) :=
  { h' with emitted := by simp only [Session.mark, h'.emitted] }

theorem bump : s.bump.Folds D u.bump :=
  { h' with counter := by simp only [Session.bump, h'.counter] }

theorem openScope : s.openScope.Folds D u.openScope :=
  { h' with nextScope := by simp only [Session.openScope, h'.nextScope] }

theorem takeIds (i j : NodeId) : Session.Folds D { s with nextId := i } { u with nextId := j } :=
  { h' with }

theorem remember (hg : g.Folds D h) (c : Scope) (id : NodeId) :
    (s.remember c id g).Folds D (u.remember c id h) :=
  { h' with memo := .cons ⟨rfl, rfl, hg⟩ h'.memo }

theorem define (hf : f.Folds D k) (id : NodeId) :
    Session.Folds D { s with functions := (id, f) :: s.functions }
      { u with functions := (id, k) :: u.functions } :=
  { h' with functions := .cons ⟨rfl, hf⟩ h'.functions }

theorem isEmitted (c : Scope) (v : String) : s.isEmitted c v = u.isEmitted c v := by
  unfold Session.isEmitted
  rw [h'.emitted]

end Session.Folds

theorem lookup_rel {α β : Type} {R : α → β → Prop} {xs : List (NodeId × α)} {ys : List (NodeId × β)}
    (h : Forall₂ (fun p q => p.1 = q.1 ∧ R p.2 q.2) xs ys) (id : NodeId) :
    Option.Rel R (xs.lookup id) (ys.lookup id) := by
  induction h with
  | nil => exact .none
  | @cons p q xs ys hfirst _ ih =>
    obtain ⟨i, a⟩ := p
    obtain ⟨j, b⟩ := q
    obtain ⟨hi, hR⟩ := hfirst
    change i = j at hi
    subst hi
    rw [lookup_cons, lookup_cons]
    cases id == i with
    | true => exact .some hR
    | false => exact ih

/-- Results with the sessions after them. -/
def Paired (D : String → Expr → Prop) (r q : Generated × Session) : Prop :=
  r.1.Folds D q.1 ∧ r.2.Folds D q.2

theorem Session.Folds.lookup (h' : s.Folds D u) (c : Scope) (id : NodeId) :
    Option.Rel (Paired D) (s.lookup? c id) (u.lookup? c id) := by
  have hentry := lookup_rel h'.memo id
  unfold lookup?
  generalize s.memo.lookup id = a, u.memo.lookup id = b at hentry
  cases hentry with
  | none => exact .none
  | @some e e' he =>
    obtain ⟨hscope, hg⟩ := he
    have hemitted : s.isEmitted c = u.isEmitted c := funext (h'.isEmitted c)
    simp only [hemitted, hg.var, hg.declared, hscope]
    split
    · exact .some ⟨hg.reference, h'⟩
    · split
      · exact .some ⟨hg, h'⟩
      · split
        · exact .none
        · refine .some ⟨hg, ?_⟩
          rw [hg.uniforms]
          exact (h'.mark c _).useUniforms c.stage _

theorem Form.Folds.session (h : φ.Folds D ψ) (h' : s.Folds D u) (c : Scope) (es : List GraphError) :
    (φ.session c es s).Folds D (ψ.session c es u) := by
  have hname : φ.name s.counter = ψ.name u.counter := by
    rw [Form.name, Form.name, h.base, h'.counter]
  unfold Form.session
  rw [hname, folds_marks h.deps]
  exact ((h'.report c es).bump).mark c _

/-! ## Steps -/

namespace Step

def checkAttribute (c : Scope) (a : Attribute) : List GraphError :=
  (if c.stage ≠ .vertex then [.attributeStage a.name] else []) ++
    if a.size < 1 ∨ 4 < a.size ∨ a.size ≠ a.type.components then
      [.attributeSize a.name a.size a.type] else []

theorem run_readAttribute (c : Scope) (a : Attribute) (s : Session) :
    (readAttribute c a).run s = ({ Generated.resource a.type a.name with attributes := [a] },
      ((s.report c (checkAttribute c a)).updateRegistry c.stage (·.addAttribute a)).mark c [a.name]) := by
  unfold readAttribute checkAttribute
  rw [run_report_then, run_report_then, Session.report_report]
  rfl

def checkFunction (name : String) (type : GlType) (args : List ArgumentDef) : List GraphError :=
  (if type = .function ∨ type = .sampler2D then [.functionResult name type] else []) ++
    (parameters name [] (byIndex args)).2

theorem run_function (c : Scope) (id : NodeId) (name : String) (g : Generated) (s : Session) :
    (function c id name g).run s =
      (functionOf id name g, s.report c (checkFunction name g.type g.arguments)) := by
  unfold function checkFunction
  rw [run_report_then, ← Session.report_report]
  rfl

theorem folds_functionOf (id : NodeId) (name : String) (h' : g.Folds D h) :
    (functionOf id name g).Folds D (functionOf id name h) := by
  unfold functionOf
  rw [h'.arguments, h'.type, h'.var, h'.uniforms]
  exact .mk h'.code.stmts h'.functions

theorem folds_varyingDef (id : NodeId) (h' : g.Folds D h) :
    (varyingDef id g).Folds D (varyingDef id h) :=
  ⟨rfl, h'.type, h'.var, h'.code.stmts, h'.uniforms, h'.functions⟩

theorem folds_readFunction (hf : f.Folds D k) (h' : s.Folds D u) (c : Scope) :
    Paired D ((readFunction c f).run s) ((readFunction c k).run u) := by
  have hname : f.name = k.name := by cases hf; rfl
  have huniforms : f.uniforms = k.uniforms := by cases hf; rfl
  refine ⟨⟨.statements .nil, congrArg Atom.name hname, rfl, rfl, huniforms, rfl, .cons hf .nil, rfl, rfl,
    .some hf, fun _ hx => hx, fun _ hx => (nomatch hx)⟩, ?_⟩
  change Session.Folds D (s.updateRegistry c.stage (·.addUniforms f.uniforms)) _
  rw [huniforms]
  exact h'.useUniforms c.stage k.uniforms

def checkBreak (c : Scope) (type : GlType) : List GraphError :=
  (if !c.inLoop then [.breakOutside] else []) ++ if type ≠ .bool then [.breakCondition type] else []

theorem run_breakIf (c : Scope) (cond value : Generated) (s : Session) :
    (breakIf c cond value).run s =
      (.gather value.type [.breakIf cond.var] value.var [cond, value],
        (s.report c (checkBreak c cond.type)).mark c (marks [cond, value] value.var)) := by
  unfold breakIf checkBreak
  rw [run_report_then, run_report_then, Session.report_report]
  rfl

theorem folds_breakIf {cond value cond' value' : Generated} (hc : cond.Folds D cond')
    (hv : value.Folds D value') (h' : s.Folds D u) (c : Scope) :
    Paired D ((breakIf c cond value).run s) ((breakIf c cond' value').run u) := by
  have hdeps : Forall₂ (Generated.Folds D) [cond, value] [cond', value'] :=
    .cons hc (.cons hv .nil)
  rw [run_breakIf, run_breakIf, hc.type, hc.var, hv.var, hv.type, folds_marks hdeps]
  exact ⟨folds_gather (x := {}) (y := {}) (Stmt.folds_refl _) hdeps (Extras.folds_same rfl rfl _),
    (h'.report c _).mark c _⟩

theorem folds_callOperand (hg : g.Folds D h) (hnone : g.function = none)
    (hgs : Forall₂ (Generated.Folds D) gs hs) (h' : s.Folds D u) (c : Scope) :
    Paired D ((call c g gs).run s) ((call c h hs).run u) := by
  have hnone' : h.function = none := by
    have hrel := hg.function
    rw [hnone] at hrel
    generalize h.function = b at hrel
    cases hrel
    rfl
  unfold call
  rw [hnone, hnone', hg.type]
  cases hgs with
  | nil => exact ⟨folds_float 0, (h'.report c _).takeIds _ _⟩
  | cons hfirst _ => exact ⟨hfirst, h'.report c _⟩

end Step

theorem folds_resource (type : GlType) (hr : IsResource name) :
    (Generated.resource type name).Folds D (Generated.resource type name) :=
  folds_of_bare (Generated.bare_resource type hr) (.statements .nil) fun _ hx => by cases hx

theorem folds_immediate (hn : n.isImmediate) (h' : s.Folds D u) (c : Scope) :
    Paired D ((n.step c []).run s) ((n.step c []).run u) := by
  cases n with
  | absent => exact ⟨folds_float 0, h'.report c _⟩
  | float id x => exact ⟨folds_float x, h'⟩
  | bool id b => exact ⟨folds_of_bare (Generated.bare_bool b) .reference fun _ hx => (by cases hx), h'⟩
  | uniform id v =>
    exact ⟨{ folds_resource v.type ⟨v.id, .inl rfl⟩ with uniforms := rfl },
      ((h'.report c _).useUniforms c.stage [v]).mark c [v.name]⟩
  | «attribute» id a =>
    simp only [Node.step, Step.run_readAttribute]
    exact ⟨{ folds_resource a.type ⟨a.id, .inr (.inl rfl)⟩ with attributes := rfl },
      ((h'.report c _).update c.stage fun h => h.addAttribute a).mark c [a.name]⟩
  | _ => cases hn

theorem folds_step (hn : n.isPlain) (h' : s.Folds D u) (c : Scope) (hlen : gs.length = n.operands.length)
    (hgs : Forall₂ (Generated.Folds D) gs hs)
    (hD : ∀ v e, .decl .float v e ∈ ((n.step c hs).run u).1.code.stmts → D v e) :
    Paired D ((n.step c gs).run s) ((n.step c hs).run u) := by
  have hform := n.folds_form hgs
  cases hφ : n.form? true gs with
  | some φ =>
    rw [hφ] at hform
    obtain ⟨ψ, hψ, hfolds⟩ : ∃ ψ, n.form? false hs = some ψ ∧ φ.Folds D ψ := by
      generalize n.form? false hs = b at hform
      cases hform with
      | some hfolds => exact ⟨_, rfl, hfolds⟩
    rw [← h'.folding] at hφ
    rw [← h'.unfolding] at hψ
    rw [Node.run_step hψ] at hD ⊢
    rw [Node.run_step hφ, n.folds_check c hgs, h'.counter]
    refine ⟨hfolds.result _ fun hfloat => hD _ _ ?_, hfolds.session h' c _⟩
    rw [← hfloat]
    exact mem_concat_self
  | none =>
    cases Node.formless hn hlen hφ with
    | operator =>
      cases hgs
      exact ⟨folds_float 0, (h'.report c _).takeIds _ _⟩
    | call hf =>
      obtain ⟨hs', hf', rfl, hrest, hfn⟩ := forall₂_concat hgs
      simp only [Node.step, getLast?_concat, dropLast_concat]
      exact Step.folds_callOperand hfn hf hrest h' c
    | broken =>
      rcases hgs with _ | ⟨hc, _ | ⟨hv, _ | _⟩⟩
      exact Step.folds_breakIf hc hv h' c

/-! ## Evaluations in lockstep -/

/-- The declarations of the session are among those given. -/
def Session.Within (D : String → Expr → Prop) (u : Session) : Prop :=
  ∀ v e, u.Declares .float v e → D v e

theorem Session.Within.of_grows (h : u'.Within D) (hg : u.Grows u') : u.Within D :=
  fun v e he => h v e (he.mono hg)

theorem Session.Within.of_memo (h : u'.Within D) (hm : u'.memo = u.memo) : u.Within D := by
  rintro v e ⟨p, hp, he⟩
  exact h v e ⟨p, hm ▸ hp, he⟩

/-- A folding evaluation of the node and one that does not fold stay in correspondence. -/
def Node.Lockstep (i j : Node → Scope → Eval Generated) (n : Node) : Prop :=
  ∀ D c s u, Session.Folds D s u → ((n.eval j c).run u).2.Within D →
    Paired D ((n.eval i c).run s) ((n.eval j c).run u)

variable {i j : Node → Scope → Eval Generated}

def Growing (j : Node → Scope → Eval Generated) : Prop :=
  ∀ (m : Node) (c : Scope) (u : Session), u.Grows ((m.eval j c).run u).2

theorem grows_evalAll (hj : Growing j) (ns : List Node) (c : Scope)
    (u : Session) : u.Grows ((Node.evalAll j ns c).run u).2 := by
  induction ns generalizing u with
  | nil => exact .refl u
  | cons n ns ih => exact (hj n c u).trans (ih _)

theorem lockstep_evalAll (hj : Growing j) {ns : List Node} (hns : ∀ n ∈ ns, n.Lockstep i j) (h' : s.Folds D u)
    (hD : ((Node.evalAll j ns c).run u).2.Within D) :
    Forall₂ (Generated.Folds D) ((Node.evalAll i ns c).run s).1 ((Node.evalAll j ns c).run u).1 ∧
      ((Node.evalAll i ns c).run s).2.Folds D ((Node.evalAll j ns c).run u).2 := by
  induction ns generalizing s u with
  | nil => exact ⟨.nil, h'⟩
  | cons n ns ih =>
    obtain ⟨hn, hns⟩ := forall_mem_cons.mp hns
    obtain ⟨hg, hs⟩ := hn D c s u h' (hD.of_grows (grows_evalAll hj ns c _))
    obtain ⟨hgs, hs'⟩ := ih hns hs hD
    exact ⟨.cons hg hgs, hs'⟩

/-- A memoized evaluation. -/
theorem lockstep_memoized {e e' : Eval Generated} (h' : s.Folds D u)
    (hD : ((memoized c id e').run u).2.Within D)
    (he : ((e'.run u).2.remember c id (e'.run u).1).Within D → Paired D (e.run s) (e'.run u)) :
    Paired D ((memoized c id e).run s) ((memoized c id e').run u) := by
  rw [run_memoized] at hD ⊢
  rw [run_memoized]
  have hlook := h'.lookup c id
  generalize s.lookup? c id = a, u.lookup? c id = b at hlook hD
  cases hlook with
  | some hfound => exact hfound
  | none =>
    obtain ⟨hg, hs⟩ := he hD
    exact ⟨hg, hs.remember hg c id⟩

/-- What a remembered result declares is among the declarations. -/
theorem Session.Within.remembered (hD : (u.remember c id h).Within D) :
    u.Within D ∧ ∀ v e, .decl .float v e ∈ h.code.stmts → D v e :=
  ⟨hD.of_grows (.remember ..), fun v e he => hD v e ⟨_, mem_cons_self, he⟩⟩

theorem eval_plain_memoized (hn : n.isPlain) (c : Scope) (s : Session) :
    (n.eval i c).run s = (memoized c n.id (Node.evalAll i n.operands c >>= fun gs => n.step c gs)).run s := by
  rw [eval_plain hn, run_memoized]
  rfl

theorem length_evalAll (i : Node → Scope → Eval Generated) (ns : List Node) (c : Scope) (s : Session) :
    ((Node.evalAll i ns c).run s).1.length = ns.length := by
  induction ns generalizing s with
  | nil => rfl
  | cons n ns ih => exact congrArg (· + 1) (ih _)

theorem Node.step_grows (hn : n.isPlain) (hlen : gs.length = n.operands.length) (c : Scope) (s : Session) :
    s.Grows ((n.step c gs).run s).2 :=
  Outcome.grows (Node.step_outcome hn hlen rfl)

theorem lockstep_plain (hj : Growing j) (hn : n.isPlain) (hoperands : ∀ m ∈ n.operands, m.Lockstep i j) :
    n.Lockstep i j := by
  intro D c s u h' hD
  rw [eval_plain_memoized hn] at hD ⊢
  rw [eval_plain_memoized hn]
  refine lockstep_memoized h' hD fun hD => ?_
  obtain ⟨hD', hdeclared⟩ := hD.remembered
  rw [run_bind] at hD' hdeclared ⊢
  rw [run_bind]
  have hstep := Node.step_grows hn (length_evalAll j n.operands c u) c
    ((Node.evalAll j n.operands c).run u).2
  obtain ⟨hgs, hs⟩ := lockstep_evalAll hj hoperands h' (hD'.of_grows hstep)
  exact folds_step hn hs c (length_evalAll i n.operands c s) hgs hdeclared

theorem Step.run_accumulator (c : Scope) (name : String) (initial : Node) (type : GlType)
    (s : Session) : (accumulator c name initial type).run s =
      ((accumulatorForm name initial type s.counter).result s.bump.counter,
        (accumulatorForm name initial type s.counter).session c [] s.bump) := by
  simp only [Form.session, Session.report_nil]
  rfl

theorem Step.folds_accumulator (h' : s.Folds D u) (c : Scope) (name : String) (initial : Node)
    (type : GlType) : Paired D ((accumulator c name initial type).run s)
      ((accumulator c name initial type).run u) := by
  have hfolds : Form.Folds D (accumulatorForm name initial type u.counter)
      (accumulatorForm name initial type u.counter) :=
    Form.folds_same .nil rfl (Extras.folds_same rfl rfl)
  rw [run_accumulator, run_accumulator, h'.counter, h'.bump.counter]
  refine ⟨?_, hfolds.session h'.bump c []⟩
  exact folds_gather (Stmt.folds_refl _) .nil (hfolds.extras _ fun _ hz => (nomatch hz))

theorem run_probe (c : Scope) (e : Scope → Eval Generated) (s : Session) :
    (probe c e).run s =
      let r := (e (.lone c.stage)).run { nextId := s.nextId, folding := s.folding }
      (r.1.type, { s with nextId := r.2.nextId }) := rfl

/-- Of a value in a session of its own only the type is used, so its declarations need not be among
those given. -/
theorem lockstep_probe (hn : n.Lockstep i j) (h' : s.Folds D u) (c : Scope) :
    ((probe c (n.eval i)).run s).1 = ((probe c (n.eval j)).run u).1 ∧
      ((probe c (n.eval i)).run s).2.Folds D ((probe c (n.eval j)).run u).2 := by
  have hall := hn (fun _ _ => True) (.lone c.stage) _ _ (.initial s.nextId u.nextId)
    fun _ _ _ => True.intro
  rw [run_probe, run_probe]
  refine ⟨?_, h'.takeIds _ _⟩
  rw [h'.folding, h'.unfolding]
  exact hall.1.type

theorem lockstep_accumulator {start : Node} (hstart : start.Lockstep i j) :
    (Node.accumulator id name start).Lockstep i j := by
  intro D c s u h' hD
  simp only [Node.eval] at hD ⊢
  refine lockstep_memoized h' hD fun _ => ?_
  rw [run_report_then, run_report_then, run_bind, run_bind]
  obtain ⟨htype, hs⟩ := lockstep_probe hstart
    (h'.report c (if (!c.inLoop) = true then [.accumulatorOutside name] else [])) c
  rw [htype]
  exact Step.folds_accumulator hs c name start _

theorem Session.memo_update (s : Session) (stage : Stage) (f : Registry → Registry) :
    (s.updateRegistry stage f).memo = s.memo := by
  cases stage <;> rfl

theorem Step.memo_readFunction (c : Scope) (f : Function) (s : Session) :
    ((readFunction c f).run s).2.memo = s.memo := Session.memo_update ..

theorem lockstep_defun {body : Node} (hbody : body.Lockstep i j) : (Node.defun id name body).Lockstep i j := by
  intro D c s u h' hD
  simp only [Node.eval, run_bind, run_get] at hD ⊢
  have hlook := lookup_rel h'.functions id
  generalize s.functions.lookup id = a, u.functions.lookup id = b at hlook hD
  cases hlook with
  | some hf => exact Step.folds_readFunction hf h' c
  | none =>
    simp only [run_bind, run_newScope, Step.run_function, h'.nextScope] at hD ⊢
    have hmemo : ((body.eval j (c.functionBody u.nextScope)).run u.openScope).2.Within D := by
      refine hD.of_memo ?_
      rw [Step.memo_readFunction]
      exact Session.memo_update ..
    obtain ⟨hg, hs⟩ := hbody D _ _ _ h'.openScope hmemo
    rw [hg.type, hg.arguments]
    exact Step.folds_readFunction (Step.folds_functionOf id name hg)
      ((hs.report c _).define (Step.folds_functionOf id name hg) id) c

theorem lockstep_varying (hn : n.Lockstep i j) : (Node.varying id n).Lockstep i j := by
  intro D c s u h' hD
  simp only [Node.eval, run_ite] at hD ⊢
  by_cases hc : c.stage = .fragment ∧ c.paired
  · rw [if_pos hc] at hD ⊢
    rw [if_pos hc]
    rw [run_bind, Step.run_readVarying] at hD ⊢
    rw [run_bind, Step.run_readVarying]
    have hmemo : ((n.eval j .vertexMain).run u).2.Within D := by
      refine hD.of_memo ?_
      simp only [Session.mark, Session.report, Session.memo_update]
    obtain ⟨hg, hs⟩ := hn D _ _ _ h' hmemo
    rw [hg.type, hg.uniforms]
    exact ⟨folds_resource _ ⟨id, .inr (.inr rfl)⟩,
      (((hs.report c _).useUniforms .vertex _).update c.stage
        fun h => h.addVarying (Step.folds_varyingDef id hg)).mark c _⟩
  · rw [if_neg hc] at hD ⊢
    rw [if_neg hc]
    rw [run_bind] at hD ⊢
    exact hn D c _ _ (h'.report c _) hD

/-- Every node of a graph without loops, by recursion on the node. -/
theorem lockstep (hG : G.LoopFree) (hj : Growing j) (n : Node) (hn : n ∈ G.nodes) : n.Lockstep i j := by
  by_cases hp : n.isPlain
  · exact lockstep_plain hj hp fun m hm =>
      have := sizeOf_operand_lt hm
      lockstep hG hj m (G.operand_mem hp hn hm)
  by_cases hi : n.isImmediate
  · intro D c s u h' _
    rw [eval_immediate hi, eval_immediate hi]
    exact folds_immediate hi h' c
  cases n with
  | sumLoop id body count start => exact absurd hn (hG _ _ _ _)
  | accumulator id name start =>
    exact lockstep_accumulator (lockstep hG hj start (G.only_mem hn rfl))
  | defun id name body =>
    exact lockstep_defun (lockstep hG hj body (G.only_mem hn rfl))
  | varying id n =>
    exact lockstep_varying (lockstep hG hj n (G.only_mem hn rfl))
  | absent | float | bool | uniform | «attribute» => exact absurd rfl hi
  | _ => exact absurd rfl hp
termination_by sizeOf n

end

/-! ## Programs -/

theorem lockstep_generate (hG : G.LoopFree) (hn : n ∈ G.nodes) (h : s.Folds D u)
    (hD : ((n.generate c).run u).2.Within D) : Paired D ((n.generate c).run s) ((n.generate c).run u) := by
  unfold Node.generate at hD ⊢
  have hgrows := grows_everywhere.eval n.id
  obtain ⟨i, hi⟩ := evalWithin_eq_eval n.id
  rw [hi] at hD hgrows ⊢
  exact lockstep hG hgrows n hn D c s u h hD

theorem StageProgram.folds_ofResult {stage : Stage} (hr : r.Folds D q) (hg : g.Folds D h)
    (hv : Forall₂ (VaryingDef.Folds D) vs ws) :
    (ofResult stage r g vs).Folds D (ofResult stage q h ws) where
  stage := rfl
  uniforms := hr.uniforms
  attributes := by
    cases stage with
    | vertex => exact hr.attributes
    | fragment => rfl
  varyings := rel_append hr.varyings hv
  functions := by
    refine Function.flattenAll_folds .nil (rel_append hg.functions ?_)
    induction hv with
    | nil => exact .nil
    | cons hfirst _ ih => exact rel_append hfirst.functions ih
  main := hg.code.stmts
  result := by
    change (outputText? g.type g.var).getD _ = (outputText? h.type h.var).getD _
    rw [hg.type, hg.var]
  epilogue := by
    induction hv with
    | nil => exact .nil
    | @cons v w _ _ hfirst _ ih =>
      have hstmts : Forall₂ (Stmt.Folds D) v.statements w.statements := by
        unfold VaryingDef.statements
        rw [hfirst.name, hfirst.source]
        exact rel_append hfirst.code (Stmt.folds_refl _)
      exact rel_append hstmts ih

/-- The declarations that a session makes of floats. -/
def Session.floats (u : Session) : String → Expr → Prop := fun v e => u.Declares .float v e

/-- The job is written from the programs of the evaluation, and has its registries with the errors
of writing added. -/
structure Job.Writes (j : Job) (r : Compiled) : Prop where
  vertexSource : j.vertexSource = r.vertexProgram.sections.assemble.1
  fragmentSource : j.fragmentSource = r.fragmentProgram.sections.assemble.1
  registry : ∀ stage, ∃ es, j.session.registry stage = (r.session.registry stage).addErrors es

theorem compilePair_writes (vertex fragment : Node) (o : CompileOptions) (nextId : NodeId) :
    (compilePair vertex fragment o nextId).Writes (compiled vertex fragment o.folding nextId) where
  vertexSource := rfl
  fragmentSource := rfl
  registry stage := by
    cases stage with
    | vertex => exact ⟨_, rfl⟩
    | fragment => exact ⟨_, rfl⟩

/-- A pair of graphs without loops, compiled with and without folding: the registries agree, errors
included, and the programs correspond statement by statement. A declaration that differs declares a
finite literal, the one value that the other declaration has when every variable has the value of
its own unfolded declaration; there is one such declaration for each variable. -/
theorem compilePair_folding {G : Graph} (hG : G.LoopFree) {vertex fragment : Node}
    (hv : vertex ∈ G.nodes) (hf : fragment ∈ G.nodes) (o : CompileOptions) {i j : NodeId}
    {r u : Compiled} (hr : compiled vertex fragment true i = r)
    (hu : compiled vertex fragment false j = u) :
    (compilePair vertex fragment { o with folding := true } i).Writes r ∧
    (compilePair vertex fragment { o with folding := false } j).Writes u ∧
    (∀ stage, (r.session.registry stage).Folds u.session.floats (u.session.registry stage)) ∧
    r.vertexProgram.Folds u.session.floats u.vertexProgram ∧
    r.fragmentProgram.Folds u.session.floats u.fragmentProgram ∧
    u.session.Covers u.vertexProgram.stmts ∧ u.session.Covers u.fragmentProgram.stmts ∧
    (∀ type type' v e e', u.session.Declares type v e → u.session.Declares type' v e' →
      type = type' ∧ e = e') ∧
    ∀ (e : Expr) (x y : Float32), e.Evaluates u.session.floats x → e.Evaluates u.session.floats y →
      x = y := by
  obtain ⟨hsingle, hvertex, hfragment⟩ := compiled_single hG hv hf hu
  have hunique (v : String) (e e' : Expr) (h : u.session.floats v e) (h' : u.session.floats v e') :
      e = e' := (hsingle.unique h h').2
  have hwithin : u.session.Within u.session.floats := fun _ _ h => h
  subst hr hu
  have hgrows := grows_of_generate (n := fragment) (c := .fragmentMain)
    (s := ((vertex.generate .vertexMain).run { nextId := j, folding := false }).2) rfl
  obtain ⟨hgv, hs₁⟩ := lockstep_generate hG hv (.initial i j) (hwithin.of_grows hgrows)
  obtain ⟨hgf, hs₂⟩ := lockstep_generate hG hf hs₁ hwithin
  exact ⟨compilePair_writes .., compilePair_writes .., hs₂.registry,
    StageProgram.folds_ofResult (hs₂.registry .vertex) hgv (hs₂.registry .fragment).varyings,
    StageProgram.folds_ofResult (hs₂.registry .fragment) hgf .nil, hvertex, hfragment,
    fun _ _ _ _ _ h h' => hsingle.unique h h', fun _ _ _ h h' => h.unique hunique h'⟩

/-- A sum of literals, used twice. -/
def toneSum : Node := .operator 3 .add [.float 1 1, .float 2 2]

def toneWave : Node := .builtin 4 .sin [toneSum]

def tone : Node := .operator 5 .mult [toneSum, toneWave]

def toneNodes : List Node := [.float 1 1, .float 2 2, toneSum, toneWave, tone]

def toneGraph : Graph := .ofList toneNodes <| by
  simp [toneNodes, toneSum, toneWave, tone, Node.children, Node.operands]

/-- The unfolded stage declares the sum, its sine and their product; the folding one declares the same
variables, each in the same way or by its value. -/
theorem tone_folding : toneGraph.LoopFree ∧ tone ∈ toneGraph.nodes ∧
    let u := compiled toneSum tone false 6
    List.Forall₂ (Stmt.Folds u.session.floats) (compiled toneSum tone true 6).fragmentProgram.main
      [.decl .float "addVal0" (.operation .add [.float 1, .float 2]),
        .decl .float "sinVal1" (.call "sin" [.name "addVal0"]),
        .decl .float "multVal2" (.operation .mult [.name "addVal0", .name "sinVal1"])] := by
  have hfree : toneGraph.LoopFree := by
    intro id body count start h
    simp [toneGraph, Graph.ofList, toneNodes, toneSum, toneWave, tone] at h
  have hsum : toneSum ∈ toneGraph.nodes := show toneSum ∈ toneNodes by simp [toneNodes]
  have htone : tone ∈ toneGraph.nodes := show tone ∈ toneNodes by simp [toneNodes]
  obtain ⟨-, -, -, -, hfragment, -⟩ := compilePair_folding hfree hsum htone {} (i := 6) (j := 6) rfl rfl
  exact ⟨hfree, htone, hfragment.main⟩

end ShaderGraph
