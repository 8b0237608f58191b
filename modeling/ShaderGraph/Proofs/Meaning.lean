import Mathlib.Algebra.GroupWithZero.Nat
import ShaderGraph.Proofs.Sharing

/-!
# The meaning of generated code

An interpretation gives values to literals, resources and operations. `Node.denote` is the value
of the tree that a node denotes, `exec` runs declarations in a store. However nodes are shared,
the code that evaluation generates in one scope computes the values of the trees: every variable
is declared once, before it is read, and holds the value of its node.
-/

namespace ShaderGraph

open Eval List

universe u

variable {r : Registry} {g : Generated} {gs : List Generated} {n : Node} {ns : List Node} {c : Scope} {φ : Form}
  {s s' : Session} {vs : List String} {t : Trace}

/-- Values of what expressions are made of, over any domain. -/
structure Interpretation (V : Type u) where
  float : Float32 → V
  bool : Bool → V
  /-- Uniforms and attributes. -/
  resource : String → V
  coordinate : Coordinate → V
  resolution : V
  operation : Operator → List V → V
  /-- Builtins and constructors. -/
  call : String → List V → V
  literals : GlType → List Float32 → V
  field : String → V → V
  select : V → V → V → V
  convert : GlType → V → V

section
variable {V : Type u} (I : Interpretation V)

def Interpretation.widen (type : GlType) (x : GlType × V) : V :=
  if x.1 = type then x.2 else I.convert type x.2

/-! ## Denotation -/

mutual

/-- The type and the value of the tree under a node that is built from expressions. -/
def Node.denote : Node → Option (GlType × V)
  | .float _ v => some (.float, I.float v)
  | .bool _ b => some (.bool, I.bool b)
  | .uniform _ u => some (u.type, I.resource u.name)
  | .attribute _ a => some (a.type, I.resource a.name)
  | .coordinate _ k => some (k.type, I.coordinate k)
  | .resolution _ => some (.vec2, I.resolution)
  | .operator _ op args => (Node.denoteAll args).map fun xs =>
    (op.resultType (xs.map (·.1)), I.operation op (xs.map (·.2)))
  | .builtin _ f args => (Node.denoteAll args).map fun xs =>
    (f.resultType (xs.map (·.1)), I.call f.name (xs.map (·.2)))
  | .construct _ k args => (Node.denoteAll args).map fun xs =>
    (k.type, I.call k.type.name (xs.map (·.2)))
  | .constant _ k => some (k.type, I.literals k.type k.values)
  | .swizzle _ n fields => n.denote.map fun x =>
    ((GlType.ofLength? fields.utf8ByteSize).getD .float, I.field fields x.2)
  | .switch _ cond yes no => do
    let x ← cond.denote
    let y ← yes.denote
    let z ← no.denote
    let type := GlType.promote [y.1, z.1]
    some (type, I.select x.2 (I.widen type y) (I.widen type z))
  | _ => none

def Node.denoteAll : List Node → Option (List (GlType × V))
  | [] => some []
  | n :: ns => do
    let x ← n.denote
    let xs ← Node.denoteAll ns
    some (x :: xs)

end

/-- The nodes that have a value of their own: literals, resources, and operations on values. -/
def Node.isExpression : Node → Bool
  | .float .. | .bool .. | .uniform .. | .attribute .. | .coordinate .. | .resolution ..
  | .operator .. | .builtin .. | .construct .. | .constant .. | .swizzle .. | .switch .. => true
  | _ => false

/-! ## Execution -/

/-- The values of variables and resources. -/
abbrev Store (V : Type u) := String → Option V

def Atom.value (ρ : Store V) : Atom → Option V
  | .name r => ρ r
  | .float v => some (I.float v)
  | .bool b => some (I.bool b)

def Cast.value (ρ : Store V) : Cast → Option V
  | .keep a => a.value I ρ
  | .convert type a => (a.value I ρ).map (I.convert type)

/-- The value of an expression, if all that it reads has one. -/
def Expr.value (ρ : Store V) : Expr → Option V
  | .cast c => c.value I ρ
  | .operation op args => (args.mapM (Atom.value I ρ)).map (I.operation op)
  | .call f args => (args.mapM (Atom.value I ρ)).map (I.call f)
  | .literals type vs => some (I.literals type vs)
  | .field a fields => (a.value I ρ).map (I.field fields)
  | .select c a b => do some (I.select (← c.value I ρ) (← a.value I ρ) (← b.value I ρ))
  | .coordinate k => some (I.coordinate k)
  | .resolution => some I.resolution

def Store.set (ρ : Store V) (v : String) (x : V) : Store V := fun w => if w = v then some x else ρ w

/-- Runs declarations in order. It is stuck where a name is declared again or is read before it
has a value, and at any other statement. -/
def exec : List Stmt → Store V → Option (Store V)
  | [], ρ => some ρ
  | .decl _ v e :: ss, ρ =>
    match ρ v, e.value I ρ with
    | none, some x => exec ss (ρ.set v x)
    | _, _ => none
  | _ :: _, _ => none

def Store.initial (r : Registry) : Store V := fun v =>
  if (∃ u ∈ r.uniforms, v = u.name) ∨ ∃ a ∈ r.attributes, v = a.name then some (I.resource v) else none

variable {I} {ρ ρ' ρ1 ρ2 : Store V} {x : GlType × V} {xs : List (GlType × V)}

theorem exec_append {ss ts : List Stmt} (hs : exec I ss ρ = some ρ1) (ht : exec I ts ρ1 = some ρ2) :
    exec I (ss ++ ts) ρ = some ρ2 := by
  fun_induction exec I ss ρ with
  | case1 ρ =>
    cases hs
    exact ht
  | case2 ρ type v e ss x hv hx ih =>
    simp only [cons_append, exec, hv, hx]
    exact ih hs
  | case3 => cases hs
  | case4 => cases hs

/-! ## Stores that extend each other -/

namespace Store

/-- Every value stays. -/
def Extends (ρ ρ' : Store V) : Prop := ∀ v x, ρ v = some x → ρ' v = some x

theorem Extends.refl (ρ : Store V) : ρ.Extends ρ := fun _ _ h => h

theorem Extends.trans (h : ρ.Extends ρ1) (h' : ρ1.Extends ρ2) : ρ.Extends ρ2 :=
  fun v x hx => h' v x (h v x hx)

theorem extends_set {v : String} (hv : ρ v = none) (x : V) : ρ.Extends (ρ.set v x) := by
  intro w y hy
  have hne : w ≠ v := by
    rintro rfl
    rw [hv] at hy
    cases hy
  simp only [Store.set, if_neg hne, hy]

theorem Extends.atom (h : ρ.Extends ρ1) {a : Atom} {x : V} (hx : a.value I ρ = some x) :
    a.value I ρ1 = some x := by
  cases a with
  | name r => exact h r x hx
  | float v => exact hx
  | bool b => exact hx

/-- What a stage registers has its value. -/
structure Binds (I : Interpretation V) (ρ : Store V) (r : Registry) : Prop where
  uniforms : ∀ u ∈ r.uniforms, ρ u.name = some (I.resource u.name)
  attributes : ∀ a ∈ r.attributes, ρ a.name = some (I.resource a.name)

theorem binds_initial (I : Interpretation V) (r : Registry) : (initial I r).Binds I r where
  uniforms u hu := if_pos (.inl ⟨u, hu, rfl⟩)
  attributes a ha := if_pos (.inr ⟨a, ha, rfl⟩)

theorem Binds.extend (h : ρ.Binds I r) (he : ρ.Extends ρ1) : ρ1.Binds I r :=
  ⟨fun u hu => he _ _ (h.uniforms u hu), fun a ha => he _ _ (h.attributes a ha)⟩

theorem Binds.mono {r' : Registry} (h : ρ.Binds I r') (hr : r.Grows r') : ρ.Binds I r :=
  ⟨fun u hu => h.uniforms u (hr.uniforms hu), fun a ha => h.attributes a (hr.attributes ha)⟩

end Store

/-! ## Operands -/

/-- A result has the type and the value `x`. -/
def Holds (I : Interpretation V) (ρ : Store V) (g : Generated) (x : GlType × V) : Prop :=
  g.type = x.1 ∧ g.var.value I ρ = some x.2

theorem Holds.extend (h : Holds I ρ g x) (he : ρ.Extends ρ') : Holds I ρ' g x := ⟨h.1, he.atom h.2⟩

theorem map_type_of_holds (h : Forall₂ (Holds I ρ) gs xs) : gs.map (·.type) = xs.map (·.1) :=
  map_eq_of_forall₂ h And.left

theorem mapM_value_of_holds (h : Forall₂ (Holds I ρ) gs xs) :
    (gs.map (·.var)).mapM (Atom.value I ρ) = some (xs.map (·.2)) := by
  induction h with
  | nil => rfl
  | cons h _ ih => simp [h.2, ih]

theorem value_castOf {type : GlType} (h : Holds I ρ g x) (hc : Step.checkCast type g = []) :
    (Step.castOf type g).value I ρ = some (I.widen type x) := by
  obtain ⟨t, v⟩ := x
  obtain ⟨ht, hv⟩ := h
  dsimp only at ht hv
  subst ht
  unfold Step.castOf Interpretation.widen
  by_cases hg : g.type = type
  · simp only [hg, ne_eq, not_true_eq_false, false_and, if_false, if_true, Cast.value, hv]
  · have hf : g.type = .float := by
      unfold Step.checkCast at hc
      by_contra hne
      simp [hg, hne] at hc
    rw [if_pos ⟨hg, hf⟩, if_neg hg]
    simp only [Cast.value, hv, Option.map_some]

theorem denoteAll_cons (h : Node.denoteAll I (n :: ns) = some xs) :
    ∃ x ys, n.denote I = some x ∧ Node.denoteAll I ns = some ys ∧ xs = x :: ys := by
  rw [Node.denoteAll] at h
  obtain ⟨x, hx, h⟩ := Option.bind_eq_some_iff.mp h
  obtain ⟨ys, hys, h⟩ := Option.bind_eq_some_iff.mp h
  exact ⟨x, ys, hx, hys, (Option.some.inj h).symm⟩

/-- Without folding, the declaration of an expression computes what its tree denotes. -/
theorem Node.value_form (hn : n.isExpression) (hp : n.isPlain) (hφ : n.form? false gs = some φ)
    (hc : n.check c gs = []) (hx : Node.denoteAll I n.operands = some xs) (h : Forall₂ (Holds I ρ) gs xs) :
    φ.deps = gs ∧ ∃ v, n.denote I = some (φ.type, v) ∧ φ.value.value I ρ = some v := by
  cases n with
  | coordinate id k | resolution id | constant id k =>
    cases hφ
    cases hx
    cases h
    exact ⟨rfl, _, rfl, rfl⟩
  | operator id op args =>
    obtain ⟨-, rfl⟩ := form_operator hφ
    have hx : Node.denoteAll I args = some xs := hx
    rw [Form.fold_false]
    refine ⟨rfl, ?_⟩
    simp only [Node.denote, hx, Form.operation, Expr.value, mapM_value_of_holds h,
      map_type_of_holds h, Option.map_some]
    exact ⟨_, rfl, rfl⟩
  | builtin id f args =>
    simp only [Node.form?, Form.fold_false] at hφ
    cases hφ
    have hx : Node.denoteAll I args = some xs := hx
    refine ⟨rfl, ?_⟩
    simp only [Node.denote, hx, Form.application, Expr.value, mapM_value_of_holds h,
      map_type_of_holds h, Option.map_some]
    exact ⟨_, rfl, rfl⟩
  | construct id k args =>
    cases hφ
    have hx : Node.denoteAll I args = some xs := hx
    refine ⟨rfl, ?_⟩
    simp only [Node.denote, hx, Expr.value, mapM_value_of_holds h, Option.map_some]
    exact ⟨_, rfl, rfl⟩
  | swizzle id m fields =>
    obtain ⟨x, _, hm, ⟨⟩, rfl⟩ := denoteAll_cons hx
    obtain ⟨g, _, hg, ⟨⟩, rfl⟩ := forall₂_cons_right_iff.mp h
    cases hφ
    refine ⟨rfl, ?_⟩
    simp only [Node.denote, hm, Expr.value, hg.2, Option.map_some]
    exact ⟨_, rfl, rfl⟩
  | switch id cond yes no =>
    obtain ⟨x, _, hdx, hrest, rfl⟩ := denoteAll_cons hx
    obtain ⟨y, _, hdy, hlast, rfl⟩ := denoteAll_cons hrest
    obtain ⟨z, _, hdz, ⟨⟩, rfl⟩ := denoteAll_cons hlast
    obtain ⟨gx, _, hgx, hrest, rfl⟩ := forall₂_cons_right_iff.mp h
    obtain ⟨gy, _, hgy, hlast, rfl⟩ := forall₂_cons_right_iff.mp hrest
    obtain ⟨gz, _, hgz, ⟨⟩, rfl⟩ := forall₂_cons_right_iff.mp hlast
    cases hφ
    simp only [Node.check, append_eq_nil_iff, hgy.1, hgz.1] at hc
    refine ⟨rfl, ?_⟩
    simp only [Node.denote, hdx, hdy, hdz, Expr.value, hgx.2, hgy.1, hgz.1, value_castOf hgy hc.2.1,
      value_castOf hgz hc.2.2]
    exact ⟨_, rfl, rfl⟩
  | _ => simp [Node.isExpression, Node.isPlain] at hn hp

/-! ## Evaluation -/

/-- The store agrees with the session: numbers to come are free, and what a scope remembers of
the nodes of a graph is declared in it, with the values that the nodes denote. -/
structure Agrees (I : Interpretation V) (G : Graph) (c : Scope) (ρ : Store V) (s : Session) : Prop where
  folding : s.folding = false
  fresh : ∀ k v, s.counter ≤ k → Numbered k v → ρ v = none
  memo : ∀ n ∈ G.nodes, ∀ e, s.memo.lookup n.id = some e → s.isEmitted c e.generated.var.text ∧
    ∃ x, n.denote I = some x ∧ Holds I ρ e.generated x

/-- Running the code of a result takes one store to another and gives the node its value. -/
structure Computes (I : Interpretation V) (G : Graph) (c : Scope) (n : Node) (g : Generated)
    (s' : Session) (ρ ρ' : Store V) : Prop where
  exec : exec I g.code.stmts ρ = some ρ'
  «extends» : ρ.Extends ρ'
  agrees : Agrees I G c ρ' s'
  value : ∃ x, n.denote I = some x ∧ Holds I ρ' g x

variable {G : Graph}

theorem Agrees.advance (h : Agrees I G c ρ s) (ha : s.Advance c vs s') : Agrees I G c ρ s' where
  folding := ha.folding.trans h.folding
  fresh k v hk := h.fresh k v (ha.counter.trans hk)
  memo n hn e he := by
    rw [ha.memo] at he
    obtain ⟨hv, x, hx, hx'⟩ := h.memo n hn e he
    exact ⟨Session.isEmitted_mono (ha.emitted ▸ subset_append_right ..) hv, x, hx, hx'⟩

theorem Computes.ofBare (h : Agrees I G c ρ s) (hg : g.Bare) (ha : s.Advance c vs s') (hx : n.denote I = some x)
    (hv : Holds I ρ g x) : Computes I G c n g s' ρ ρ where
  exec := by rw [hg.code]; rfl
  «extends» := .refl ρ
  agrees := h.advance ha
  value := ⟨x, hx, hv⟩

/-- The judgement: evaluation in the scope generates code that computes the node's value, unless
an error is recorded. -/
def computes (I : Interpretation V) (G : Graph) (c : Scope) : Judgement := fun n c' s g s' _ =>
  n ∈ G.nodes → c' = c → (s'.registry c.stage).errors = [] → ∀ ρ, Agrees I G c ρ s →
    ρ.Binds I (s'.registry c.stage) → ∃ ρ', Computes I G c n g s' ρ ρ'

theorem mem_addUniforms (r : Registry) (u : Uniform) : u ∈ (r.addUniforms [u]).uniforms :=
  mem_adjoin_iff.mpr (.inr (mem_singleton_self u))

theorem computes_immediate (hG : ∀ n ∈ G.nodes, n.isExpression) (hi : n.isImmediate)
    (hr : (n.step c []).run s = (g, s')) (hbare : g.Bare) (ha : s.Advance c vs s') :
    computes I G c n c s g s' [] := by
  intro hn _ herr ρ hρ hb
  refine ⟨ρ, ?_⟩
  have hexp := hG n hn
  cases n with
  | float id v =>
    cases hr
    exact .ofBare hρ hbare ha rfl ⟨rfl, rfl⟩
  | bool id b =>
    cases hr
    exact .ofBare hρ hbare ha rfl ⟨rfl, rfl⟩
  | uniform id u =>
    obtain ⟨rfl, es, rfl⟩ := Step.readUniform_eq hr
    refine .ofBare hρ hbare ha rfl ⟨rfl, hb.uniforms u ?_⟩
    simp only [Session.registry_mark, Session.registry_update_self]
    exact mem_addUniforms _ u
  | «attribute» id a =>
    obtain ⟨rfl, es, -, rfl⟩ := Step.readAttribute_eq hr
    refine .ofBare hρ hbare ha rfl ⟨rfl, hb.attributes a ?_⟩
    simp only [Session.registry_mark, Session.registry_update_self]
    exact mem_adjoin_iff.mpr (.inr (mem_singleton_self a))
  | absent => cases hexp
  | _ => cases hi

theorem computes_threads (h : Threads (grows.both (computes I G c)) c ns s gs s' t)
    (hns : ∀ n ∈ ns, n ∈ G.nodes) (herr : (s'.registry c.stage).errors = []) (hρ : Agrees I G c ρ s)
    (hb : ρ.Binds I (s'.registry c.stage)) :
    ∃ ρ' xs, exec I (gs.flatMap (·.code.stmts)) ρ = some ρ' ∧ ρ.Extends ρ' ∧ Agrees I G c ρ' s' ∧
      Node.denoteAll I ns = some xs ∧ Forall₂ (Holds I ρ') gs xs := by
  induction h generalizing ρ with
  | nil => exact ⟨ρ, [], rfl, .refl ρ, hρ, rfl, .nil⟩
  | @cons n ns s s1 s2 g gs t ts hn hrest ih =>
    have hgrow : s1.Grows s2 := hrest.growing fun h => h.1
    have hreg := hgrow.registry c.stage
    obtain ⟨ρ1, h1⟩ := hn.2 (hns n mem_cons_self) rfl (hreg.errors_nil herr) ρ hρ
      (hb.mono hreg)
    obtain ⟨ρ2, xs, hexec, hext, hagree, hxs, hholds⟩ :=
      ih (fun m hm => hns m (mem_cons_of_mem _ hm)) herr h1.agrees (hb.extend h1.extends)
    obtain ⟨x, hx, hxv⟩ := h1.value
    refine ⟨ρ2, x :: xs, ?_, h1.extends.trans hext, hagree, ?_, .cons (hxv.extend hext) hholds⟩
    · rw [flatMap_cons]
      exact exec_append h1.exec hexec
    · simp only [Node.denoteAll, hx, hxs]
      rfl

/-- A declaration after the code of its operands gives its variable the value, and uses up one number. -/
theorem Form.exec_result {x : V} (hbase : IsBase φ.base)
    (hexec : exec I (φ.deps.flatMap (·.code.stmts)) ρ = some ρ1)
    (hfresh : ∀ k v, s.counter ≤ k → Numbered k v → ρ1 v = none) (hx : φ.value.value I ρ1 = some x) (c : Scope)
    (es : List GraphError) :
    ∃ ρ2, exec I (φ.result s.counter).code.stmts ρ = some ρ2 ∧ ρ1.Extends ρ2 ∧
      (∀ k v, (φ.session c es s).counter ≤ k → Numbered k v → ρ2 v = none) ∧
      (φ.result s.counter).var.value I ρ2 = some x ∧ (c.id, φ.name s.counter) ∈ (φ.session c es s).emitted := by
  have hnum : Numbered s.counter (φ.name s.counter) := ⟨φ.base, hbase, rfl⟩
  have hnone : ρ1 (φ.name s.counter) = none := hfresh _ _ (Nat.le_refl _) hnum
  have hdecl : exec I [.decl φ.type (φ.name s.counter) φ.value] ρ1 = some (ρ1.set (φ.name s.counter) x) := by
    simp only [exec, hnone, hx]
  refine ⟨ρ1.set (φ.name s.counter) x, exec_append hexec hdecl, Store.extends_set hnone x, fun k v hk hv => ?_,
    if_pos rfl, (φ.advance c es s).mem_emitted mem_concat_self hnum.ne_empty⟩
  have hlt : s.counter < k := (φ.lt_session_counter c es s).trans_le hk
  have hne : v ≠ φ.name s.counter := by
    rintro rfl
    exact hlt.ne (hnum.unique hv)
  simp only [Store.set, if_neg hne]
  exact hfresh k v hlt.le hv

theorem computes_declared (hshared : G.Shared) (hc : c.id ∈ c.visible) (hn : n ∈ G.nodes) {v : V}
    (hbase : IsBase φ.base) (hdeps : φ.deps = gs) (hexec : exec I (gs.flatMap (·.code.stmts)) ρ = some ρ1)
    (hext : ρ.Extends ρ1) (hρ : Agrees I G c ρ1 s) (hd : n.denote I = some (φ.type, v))
    (hv : φ.value.value I ρ1 = some v) (es : List GraphError) :
    ∃ ρ2, Computes I G c n (φ.result s.counter)
      ((φ.session c es s).remember c n.id (φ.result s.counter)) ρ ρ2 := by
  subst hdeps
  obtain ⟨ρ2, hexec2, hext2, hfresh, hvar, hmark⟩ := φ.exec_result hbase hexec hρ.fresh hv c es
  have hold := hρ.advance (φ.advance c es s)
  refine ⟨ρ2, hexec2, hext.trans hext2, ⟨hold.folding, hfresh, fun m hm e he => ?_⟩, _, hd, rfl, hvar⟩
  rcases Session.lookup_remember he with ⟨hid, rfl⟩ | ⟨-, he⟩
  · cases hshared m hm n hn hid
    exact ⟨Session.isEmitted_iff.mpr ⟨c.id, hc, hmark⟩, _, hd, rfl, hvar⟩
  · obtain ⟨hem, x, hx, hx'⟩ := hold.memo m hm e he
    exact ⟨hem, x, hx, hx'.extend hext2⟩

theorem computes_reuse (ht : s.Takes c n.id g s') : computes I G c n c s g s' [.taken c g] := by
  intro hn _ _ ρ hρ _
  cases ht with
  | @reference e he hv =>
    obtain ⟨-, x, hx, hx'⟩ := hρ.memo n hn e he
    exact ⟨ρ, rfl, .refl ρ, hρ, x, hx, hx'⟩
  | @again e he hv => exact absurd (hρ.memo n hn e he).1 hv
  | @whole e he hv => exact absurd (hρ.memo n hn e he).1 hv

theorem computes_plain (hshared : G.Shared) (hG : ∀ n ∈ G.nodes, n.isExpression) (hc : c.id ∈ c.visible)
    {s1 s2 : Session} (hp : n.isPlain) (ht : Threads (grows.both (computes I G c)) c n.operands s gs s1 t)
    (hout : Outcome n c gs s1 g s2) : computes I G c n c s g (s2.remember c n.id g) t := by
  intro hn _ herr ρ hρ hb
  rw [Session.registry_remember] at herr hb
  have hreg := hout.grows.registry c.stage
  obtain ⟨ρ1, xs, hexec, hext, hagree, hxs, hholds⟩ := computes_threads ht
    (fun m hm => G.operand_mem hp hn hm) (hreg.errors_nil herr) hρ (hb.mono hreg)
  cases hout with
  | declared φ hφ hg hs =>
    subst hg hs
    rw [φ.session_errors, append_eq_nil_iff] at herr
    have hfits := Node.form_fits c ht.length hφ
    rw [hagree.folding] at hφ
    obtain ⟨hdeps, v, hd, hv⟩ := Node.value_form (hG n hn) hp hφ herr.2 hxs hholds
    exact computes_declared hshared hc hn hfits.base hdeps hexec hext hagree hd hv _
  | broken hb =>
    subst hb
    cases hG _ hn
  | failed hne => exact absurd herr hne

theorem computes_rules (hshared : G.Shared) (hG : ∀ n ∈ G.nodes, n.isExpression)
    (hc : c.id ∈ c.visible) : Rules grows (computes I G c) where
  immediate hi hr hbare _ ha _ := by
    rintro hn rfl
    exact computes_immediate hG hi hr hbare ha hn rfl
  reuse _ _ ht _ _ := by
    rintro hn rfl
    exact computes_reuse ht hn rfl
  compute hp _ ht _ ho _ := by
    rintro hn rfl
    exact computes_plain hshared hG hc hp ht ho hn rfl
  loop _ _ _ _ _ _ _ _ _ _ _ hn := by cases hG _ hn
  accumulator _ _ _ _ _ _ _ _ hn := by cases hG _ hn
  knownFunction _ _ _ _ _ hn := by cases hG _ hn
  newFunction _ _ _ _ _ _ _ _ hn := by cases hG _ hn
  varying _ _ _ _ hn := by cases hG _ hn
  strayVarying _ _ _ hn := by cases hG _ hn
  exhausted hr _ := by
    rintro hn rfl herr
    cases hr
    exact absurd herr (Session.report_errors_ne_nil _ _ _)

theorem forall₂_denote (hxs : Node.denoteAll I ns = some xs) (h : Forall₂ (Holds I ρ) gs xs) :
    Forall₂ (fun n g => ∃ v, n.denote I = some (g.type, v) ∧ g.var.value I ρ = some v) ns gs := by
  induction ns generalizing gs xs with
  | nil =>
    cases hxs
    cases h
    exact .nil
  | cons n ns ih =>
    obtain ⟨x, ys, hx, hys, rfl⟩ := denoteAll_cons hxs
    obtain ⟨g, gs', hg, hgs, rfl⟩ := forall₂_cons_right_iff.mp h
    refine .cons ⟨x.2, ?_, hg.2⟩ (ih hys hgs)
    rw [hx, hg.1]

theorem Store.initial_fresh (r : Registry) {k : Nat} {v : String} (hv : Numbered k v) : Store.initial I r v = none := by
  refine if_neg ?_
  rintro (⟨u, -, rfl⟩ | ⟨a, -, rfl⟩)
  · exact IsResource.not_numbered ⟨u.id, .inl rfl⟩ k hv
  · exact IsResource.not_numbered ⟨a.id, .inr (.inl rfl)⟩ k hv

theorem agrees_initial (r : Registry) (nextId : NodeId) :
    Agrees I G c (Store.initial I r) { nextId, folding := false } where
  folding := rfl
  fresh k v _ hv := Store.initial_fresh r hv
  memo n _ e he := by cases he

end

/-- However the nodes of a graph of expressions are shared, evaluating roots one after another in
a scope of a new session generates declarations that run to the end: none reads a variable before
it is declared or declares one twice, and each root's variable holds the value that the tree under
the root denotes. This holds over every interpretation, without folding, if no error is recorded. -/
theorem exec_generate_denote {V : Type u} (I : Interpretation V) (G : Graph) (hshared : G.Shared)
    (hG : ∀ n ∈ G.nodes, n.isExpression) {c : Scope} (hc : c.id ∈ c.visible) {roots : List Node}
    (hroots : ∀ n ∈ roots, n ∈ G.nodes) {nextId : NodeId} {gs : List Generated} {s : Session}
    (hrun : (roots.mapM (Node.generate · c)).run { nextId, folding := false } = (gs, s))
    (herr : (s.registry c.stage).errors = []) :
    ∃ ρ, exec I (gs.flatMap (·.code.stmts)) (Store.initial I (s.registry c.stage)) = some ρ ∧
      List.Forall₂ (fun n g => ∃ v, n.denote I = some (g.type, v) ∧ g.var.value I ρ = some v)
        roots gs := by
  have hev : (grows.both (computes I G c)).Everywhere :=
    grows_everywhere.both ((computes_rules hshared hG hc).everywhere grows_everywhere)
  obtain ⟨t, ht⟩ := threads_generate hev hrun
  obtain ⟨ρ, xs, hexec, -, -, hxs, hholds⟩ := computes_threads ht hroots herr
    (agrees_initial _ nextId) (Store.binds_initial I _)
  exact ⟨ρ, hexec, forall₂_denote hxs hholds⟩

def leafCount : Interpretation Nat where
  float _ := 1
  bool _ := 1
  resource _ := 1
  coordinate _ := 1
  resolution := 1
  operation _ xs := xs.sum
  call _ xs := xs.sum
  literals _ _ := 1
  field _ x := x
  select x y z := x + y + z
  convert _ x := x

def sharedSum : Node := .operator 3 .add [.uniform 1 { id := 1, type := .float }, .float 2 1]

def sharedSquare : Node := .operator 4 .mult [sharedSum, sharedSum]

/-- A choice between a sum and its square. -/
def sharedChoice : Node := .switch 6 (.operator 5 .lt [sharedSum, sharedSquare]) sharedSum sharedSquare

def sharedNodes : List Node :=
  [.uniform 1 { id := 1, type := .float }, .float 2 1, sharedSum, sharedSquare,
    .operator 5 .lt [sharedSum, sharedSquare], sharedChoice]

def sharedGraph : Graph := .ofList sharedNodes <| by
  simp [sharedNodes, sharedSum, sharedSquare, sharedChoice, Node.children, Node.operands]

def sharedRun : List Generated × Session :=
  ([sharedChoice, sharedSum].mapM (Node.generate · .fragmentMain)).run { nextId := 7, folding := false }

/-- The choice and then the sum: the second is a reference to what the first declares. -/
theorem exec_generate_shared :
    ∃ ρ, exec leafCount (sharedRun.1.flatMap (·.code.stmts))
        (Store.initial leafCount (sharedRun.2.registry Scope.fragmentMain.stage)) = some ρ ∧
      List.Forall₂ (fun n g => ∃ v, n.denote leafCount = some (g.type, v) ∧
        g.var.value leafCount ρ = some v) [sharedChoice, sharedSum] sharedRun.1 := by
  have hshared : sharedGraph.Shared := Graph.shared_ofList (by decide)
  have hG : ∀ n ∈ sharedNodes, n.isExpression := by decide
  have hroots : ∀ n ∈ [sharedChoice, sharedSum], n ∈ sharedNodes := by simp [sharedNodes]
  have hvisible : Scope.fragmentMain.id ∈ Scope.fragmentMain.visible := by decide
  have hrun : ([sharedChoice, sharedSum].mapM (Node.generate · .fragmentMain)).run
      { nextId := 7, folding := false } = (sharedRun.1, sharedRun.2) := (Prod.eta sharedRun).symm
  have herr : (sharedRun.2.registry Scope.fragmentMain.stage).errors = [] := by decide +kernel
  exact exec_generate_denote leafCount sharedGraph hshared hG hvisible hroots hrun herr

end ShaderGraph
