import ShaderGraph.Proofs.Meaning
import ShaderGraph.Proofs.Positional

/-!
# Bodies of functions

Every body of a function of a position is evaluated in a scope of its own, which also evaluates the
functions that it calls when it comes to them. `home` gives each remembered node the function whose
body it belongs to, so a scope never takes what another one remembers. Running the body of a function
at a position then computes the value of its node there, given the values of the functions called.
-/

namespace ShaderGraph

open Eval List

universe u

variable {us ws : List Uniform} {body n m : Node} {f : Function} {id h : NodeId} {name : String}
  {ns : List Node} {gs : List Generated} {t : Trace} {φ : Form} {vs : List String} {s2 : Session}
  {gb : Generated} {G : Graph} {home : NodeId → NodeId}

/-! ## Values at a position -/

section
variable {V : Type u} (I : Interpretation V) (q : V)

mutual

/-- The value of a node at the position `q`. The interpretation has the values of functions. -/
def Node.valueAt : Node → V
  | .uniform _ u => I.resource u.name
  | .coordinate _ k => I.coordinate k
  | .argument .. => q
  | .constant _ k => I.literals k.type k.values
  | .operator _ op args => I.operation op (Node.valuesAt args)
  | .builtin _ f args => I.call f.name (Node.valuesAt args)
  | .construct _ k args => I.call k.type.name (Node.valuesAt args)
  | .swizzle _ n fields => I.field fields n.valueAt
  | .call _ (.defun _ name _) args => I.call name (Node.valuesAt args)
  | .float _ v => I.float v
  | _ => I.float 0

def Node.valuesAt : List Node → List V
  | [] => []
  | n :: ns => n.valueAt :: Node.valuesAt ns

end

/-- The store of a function that is called with the position `q`. -/
def Store.position (us : List Uniform) : Store V := fun v =>
  if v = "p" then some q
  else if ∃ u ∈ us, v = u.name then some (I.resource v) else none

end

def Store.Reads {V : Type u} (I : Interpretation V) (ρ : Store V) (us : List Uniform) : Prop :=
  ∀ u ∈ us, ρ u.name = some (I.resource u.name)

/-- A declaration that reads names and literals only. -/
def Stmt.isNamed : Stmt → Bool
  | .decl _ _ e => e.isNamed
  | _ => false

/-- Running the body of the function computes the values of a node from the position and the
uniforms. -/
structure Function.Evaluates (V : Type u) (us : List Uniform) (body : Node) (f : Function) : Prop where
  runs : ∀ (I : Interpretation V) (q : V) (ws : List Uniform), us ⊆ ws →
    ∃ ρ, exec I f.body (Store.position I q ws) = some ρ ∧ f.result.value I ρ = some (body.valueAt I q)
  named : ∀ st ∈ f.body, st.isNamed

theorem Function.Evaluates.mono {V : Type u} (h : f.Evaluates V us body) (hsub : us ⊆ ws) :
    f.Evaluates V ws body :=
  { h with runs := fun I q ws' hws => h.runs I q ws' (List.Subset.trans hsub hws) }

/-! ## Homes -/

/-- The nodes of a body have the function as their home, and a body calls functions with smaller
ids. Functions do not read the coordinates of the fragment. -/
structure Graph.Layered (G : Graph) (home : NodeId → NodeId) : Prop where
  operand : ∀ {n m}, n ∈ G.nodes → n.isPlain → m ∈ n.operands → m.isPlain → home m.id = home n.id
  callee : ∀ {n id name body}, n ∈ G.nodes → n.isPlain → .defun id name body ∈ n.operands → id < home n.id
  body : ∀ {id name body}, .defun id name body ∈ G.nodes → body.isPlain ∧ home body.id = id
  coordinate : ∀ {i k id name body}, .coordinate i k ∈ G.nodes → .defun id name body ∈ G.nodes →
    home i ≠ id

/-- No fragment coordinate has its home in the body. -/
def Graph.Quiet (G : Graph) (home : NodeId → NodeId) (h : NodeId) : Prop :=
  ∀ i k, .coordinate i k ∈ G.nodes → home i ≠ h

/-- Whether a node is evaluated in the scope of the home `h`. -/
structure Node.At (home : NodeId → NodeId) (h : NodeId) (n : Node) : Prop where
  plain : n.isPlain → home n.id = h
  function : ∀ {id name body}, n = .defun id name body → id < h

theorem Graph.Layered.operands (hG : G.Layered home) (hn : n ∈ G.nodes) (hp : n.isPlain) (hm : m ∈ n.operands) :
    m.At home (home n.id) where
  plain hmp := hG.operand hn hp hm hmp
  function hd := hG.callee hn hp (hd ▸ hm)

theorem Graph.Layered.at_body (hG : G.Layered home) (hn : .defun id name body ∈ G.nodes) : body.At home id where
  plain _ := (hG.body hn).2
  function hd := by
    have hp := (hG.body hn).1
    rw [hd] at hp
    cases hp

/-! ## Sessions and stores -/

/-- A function that is yet to be defined has nothing remembered of its body, and those that are
defined evaluate their bodies. Functions from `h` on may be under way. What is remembered of a quiet
body reads names only. -/
structure Session.Orderly (V : Type u) (G : Graph) (home : NodeId → NodeId) (h : NodeId) (s : Session) :
    Prop where
  unvisited : ∀ {id name body}, .defun id name body ∈ G.nodes → id < h → s.functions.lookup id = none →
    ∀ n ∈ G.nodes, n.isPlain → home n.id = id → s.memo.lookup n.id = none
  table : ∀ {id name body}, .defun id name body ∈ G.nodes → ∀ f, s.functions.lookup id = some f →
    f.Evaluates V s.fragment.uniforms body
  named : ∀ n ∈ G.nodes, n.isPlain → G.Quiet home (home n.id) → ∀ e, s.memo.lookup n.id = some e →
    ∀ st ∈ e.generated.code.stmts, st.isNamed

/-- What is remembered of bodies above stays. -/
def Session.Frames (G : Graph) (home : NodeId → NodeId) (h : NodeId) (s s' : Session) : Prop :=
  ∀ n ∈ G.nodes, n.isPlain → h < home n.id → s'.memo.lookup n.id = s.memo.lookup n.id

/-- The store of a scope agrees with the session: numbers to come are free, the position has its
value, and what the scope remembers is declared with the values of the nodes. -/
structure Suits {V : Type u} (I : Interpretation V) (G : Graph) (home : NodeId → NodeId) (h : NodeId)
    (q : V) (c : Scope) (ρ : Store V) (s : Session) : Prop where
  fresh : ∀ k v, s.counter ≤ k → Numbered k v → ρ v = none
  position : ∀ {id name index type}, .argument id name index type ∈ G.nodes → home id = h →
    ρ "p" = some q
  memo : ∀ n ∈ G.nodes, n.isPlain → home n.id = h → ∀ e, s.memo.lookup n.id = some e →
    s.isEmitted c e.generated.var.text ∧ e.generated.var.value I ρ = some (n.valueAt I q)

/-- The code of a result takes one store to another, in which its variable has the value of the
node. -/
structure Runs {V : Type u} (I : Interpretation V) (G : Graph) (home : NodeId → NodeId) (h : NodeId)
    (q : V) (c : Scope) (n : Node) (g : Generated) (s' : Session) (ρ ρ' : Store V) : Prop where
  exec : exec I g.code.stmts ρ = some ρ'
  «extends» : ρ.Extends ρ'
  suits : Suits I G home h q c ρ' s'
  value : ¬ n.isFunction → g.var.value I ρ' = some (n.valueAt I q)

section
variable {V : Type u} {I : Interpretation V} {q : V} {c : Scope} {ρ ρ' : Store V} {s s1 s' : Session}
  {g : Generated}

theorem Store.Reads.mono (hr : ρ.Reads I ws) (hsub : us ⊆ ws) : ρ.Reads I us :=
  fun u hu => hr u (hsub hu)

theorem Store.Reads.extend (hr : ρ.Reads I us) (he : ρ.Extends ρ') : ρ'.Reads I us :=
  fun u hu => he _ _ (hr u hu)

theorem not_numbered_position (k : Nat) : ¬ Numbered k "p" := by
  exact EndsForeign.not_numbered ⟨['p'], [], 'p', by decide, forall_mem_nil _, by decide, by decide, .inl rfl⟩ k

theorem Store.reads_position (I : Interpretation V) (q : V) (us : List Uniform) :
    (Store.position I q us).Reads I us := by
  intro u hu
  have hne : u.name ≠ "p" := by
    intro heq
    have hlast := congrArg (fun s : String => s.toList.head?) heq
    simp [Uniform.name, uniformName] at hlast
  simp only [position, if_neg hne]
  exact if_pos ⟨u, hu, rfl⟩

theorem Store.position_fresh (I : Interpretation V) (q : V) (us : List Uniform) {k : Nat} {v : String}
    (hv : Numbered k v) : Store.position I q us v = none := by
  have hne : v ≠ "p" := by
    rintro rfl
    exact not_numbered_position k hv
  simp only [position, if_neg hne]
  refine if_neg ?_
  rintro ⟨u, -, rfl⟩
  exact IsResource.not_numbered ⟨u.id, .inl rfl⟩ k hv

/-! ## Declarations -/

theorem mapM_valuesAt {ts : List GlType} (hts : Node.types? ns = some ts)
    (hv : Forall₂ (fun m g => ¬ m.isFunction → g.var.value I ρ = some (m.valueAt I q)) ns gs) :
    (gs.map (·.var)).mapM (Atom.value I ρ) = some (Node.valuesAt I q ns) := by
  replace hts := Node.types?_eq_some hts
  induction hv generalizing ts with
  | nil => rfl
  | cons hg _ ih =>
    obtain ⟨t, _, ht, hts, -⟩ := forall₂_cons_left_iff.mp hts
    simp [hg (Node.not_isFunction_of_type? ht), ih hts, Node.valuesAt]

theorem Node.value_formAt (hp : n.isPlain) {t : GlType} (ht : n.type? = some t)
    (hgs : Regulars s n.operands gs) (hφ : n.form? false gs = some φ)
    (hpos : ∀ {id name index type}, n = .argument id name index type → ρ "p" = some q)
    (hv : Forall₂ (fun m g => ¬ m.isFunction → g.var.value I ρ = some (m.valueAt I q)) n.operands gs) :
    φ.deps.flatMap (·.code.stmts) = gs.flatMap (·.code.stmts) ∧ φ.value.value I ρ = some (n.valueAt I q) := by
  cases n with
  | coordinate id k | constant id k =>
    cases hφ
    cases hv
    exact ⟨rfl, rfl⟩
  | argument id name index type =>
    rw [type?, Option.ite_none_right_eq_some] at ht
    obtain ⟨⟨rfl, -, -⟩, -⟩ := ht
    cases hφ
    cases hv
    exact ⟨rfl, hpos rfl⟩
  | operator id op args =>
    obtain ⟨ts, hts, -⟩ := bind_guard_eq_some.mp ht
    have hmap := mapM_valuesAt hts hv
    obtain ⟨-, rfl⟩ := form_operator hφ
    rw [Form.fold_false]
    refine ⟨rfl, ?_⟩
    simp only [Form.operation, Expr.value, hmap, Option.map_some, valueAt]
  | builtin id f args =>
    obtain ⟨ts, hts, -⟩ := bind_guard_eq_some.mp ht
    have hmap := mapM_valuesAt hts hv
    rw [form?, Form.fold_false] at hφ
    cases hφ
    refine ⟨rfl, ?_⟩
    simp only [Form.application, Expr.value, hmap, Option.map_some, valueAt]
  | construct id k args =>
    obtain ⟨ts, hts, -⟩ := bind_guard_eq_some.mp ht
    have hmap := mapM_valuesAt hts hv
    cases hφ
    refine ⟨rfl, ?_⟩
    simp only [Expr.value, hmap, Option.map_some, valueAt]
  | swizzle id m fields =>
    obtain ⟨u, hu, -⟩ := bind_guard_eq_some.mp ht
    obtain ⟨g, _, hg, ⟨⟩, rfl⟩ := forall₂_cons_left_iff.mp hv
    cases hφ
    refine ⟨rfl, ?_⟩
    simp only [Expr.value, hg (not_isFunction_of_type? hu), Option.map_some, valueAt]
  | call id fn args =>
    cases fn with
    | defun fid name body =>
      rw [type?, Option.ite_none_right_eq_some] at ht
      obtain ⟨a, _, ha, hnil, rfl⟩ := forall₂_cons_right_iff.mp (types?_eq_some ht.1)
      cases hnil
      obtain ⟨ga, _, hga, hrest, rfl⟩ := forall₂_cons_left_iff.mp hv
      obtain ⟨gf, _, hgf, ⟨⟩, rfl⟩ := forall₂_cons_left_iff.mp hrest
      obtain ⟨-, hreg⟩ := forall₂_cons.mp hgs
      obtain ⟨f, rfl, hf⟩ := (forall₂_cons.mp hreg).1.function fid name body rfl
      cases hφ
      refine ⟨by simp [Step.functionResult, Code.stmts], ?_⟩
      have hga := hga (not_isFunction_of_type? ha)
      simp [Expr.value, hga, valueAt, valuesAt, hf.name]
    | _ => cases ht
  | _ => simp [type?, isPlain] at ht hp

theorem Form.isNamed_result (hdeps : ∀ d ∈ φ.deps, ∀ st ∈ d.code.stmts, st.isNamed) (hv : φ.value.isNamed)
    (k : Nat) : ∀ st ∈ (φ.result k).code.stmts, st.isNamed := by
  intro st hst
  rcases mem_append.mp hst with hst | hst
  · obtain ⟨d, hd, hst⟩ := mem_flatMap.mp hst
    exact hdeps d hd st hst
  · rw [mem_singleton.mp hst]
    exact hv

/-! ## Every evaluation -/

/-- What evaluating a node in the scope of its home does: the session stays orderly, bodies above are
left alone, and the code runs in every store that suits the scope. -/
structure Performs (V : Type u) (G : Graph) (home : NodeId → NodeId) (h : NodeId) (c : Scope) (n : Node)
    (s : Session) (g : Generated) (s' : Session) : Prop where
  orderly : s'.Orderly V G home h
  frames : s.Frames G home h s'
  named : G.Quiet home h → ∀ st ∈ g.code.stmts, st.isNamed
  runs : ∀ (I : Interpretation V) (q : V) (ρ : Store V), Suits I G home h q c ρ s →
    ρ.Reads I s'.fragment.uniforms → ∃ ρ', Runs I G home h q c n g s' ρ ρ'

def performs (V : Type u) (G : Graph) (home : NodeId → NodeId) : Judgement := fun n c s g s' _ =>
  n ∈ G.nodes → c.stage = .fragment → c.id ∈ c.visible → s.Regular G → ∀ h, n.At home h →
    s.Orderly V G home h → Performs V G home h c n s g s'

theorem Session.Orderly.congr (ho : s.Orderly V G home h) (hm : s'.memo = s.memo)
    (hf : s'.functions = s.functions) (hu : s.fragment.uniforms ⊆ s'.fragment.uniforms) :
    s'.Orderly V G home h where
  unvisited hd hlt hl n hn hp hid := by
    rw [hm]
    exact ho.unvisited hd hlt (hf ▸ hl) n hn hp hid
  table hd f hl := (ho.table hd f (hf ▸ hl)).mono hu
  named n hn hp hq e he := ho.named n hn hp hq e (hm ▸ he)

theorem Session.Orderly.advance (ho : s.Orderly V G home h) (ha : s.Advance c vs s') : s'.Orderly V G home h :=
  ho.congr ha.memo ha.functions (ha.registry .fragment).uniforms

theorem Session.Frames.of_eq (hm : s'.memo = s.memo) : s.Frames G home h s' :=
  fun n _ _ _ => by rw [hm]

theorem Session.Frames.trans (hf : s.Frames G home h s1) (hf' : s1.Frames G home h s') :
    s.Frames G home h s' :=
  fun n hn hp hlt => (hf' n hn hp hlt).trans (hf n hn hp hlt)

theorem Suits.grow (hs : Suits I G home h q c ρ s) (hg : s.Grows s')
    (hm : ∀ n ∈ G.nodes, n.isPlain → home n.id = h → s'.memo.lookup n.id = s.memo.lookup n.id) :
    Suits I G home h q c ρ s' where
  fresh k v hk := hs.fresh k v (hg.counter.trans hk)
  position := hs.position
  memo n hn hp hid e he := by
    rw [hm n hn hp hid] at he
    obtain ⟨hv, hx⟩ := hs.memo n hn hp hid e he
    exact ⟨Session.isEmitted_mono hg.emitted.subset hv, hx⟩

theorem Suits.advance (hs : Suits I G home h q c ρ s) (ha : s.Advance c vs s') : Suits I G home h q c ρ s' :=
  hs.grow (.advance ha) fun n _ _ _ => by rw [ha.memo]

theorem Performs.ofAdvance (ho : s.Orderly V G home h) (ha : s.Advance c vs s')
    (hcode : g.code.stmts = [])
    (hv : ∀ (I : Interpretation V) (q : V) (ρ : Store V), Suits I G home h q c ρ s →
      ρ.Reads I s'.fragment.uniforms → ¬ n.isFunction → g.var.value I ρ = some (n.valueAt I q)) :
    Performs V G home h c n s g s' where
  orderly := ho.advance ha
  frames := .of_eq ha.memo
  named _ st hst := by
    rw [hcode] at hst
    cases hst
  runs I q ρ hs hr := ⟨ρ, by rw [hcode]; rfl, .refl ρ, hs.advance ha, hv I q ρ hs hr⟩

theorem performs_immediate (hG : G.Positional) (hn : n ∈ G.nodes) (hi : n.isImmediate)
    (hr : (n.step c []).run s = (g, s')) (hbare : g.Bare) (ha : s.Advance c vs s') :
    performs V G home n c s g s' [] := by
  intro _ hc _ _ h _ ho
  refine .ofAdvance ho ha hbare.code fun I q ρ _ hreads _ => ?_
  cases n with
  | float id v =>
    cases hr
    rfl
  | uniform id u =>
    obtain ⟨rfl, es, rfl⟩ := Step.readUniform_eq hr
    refine hreads u ?_
    rw [hc]
    exact mem_addUniforms _ u
  | absent | bool | «attribute» =>
    obtain ⟨t, ht⟩ := (hG.typed _ hn).resolve_left Bool.false_ne_true
    cases ht
  | _ => cases hi

theorem performs_reuse (hp : n.isPlain) (ht : s.Takes c n.id g s') (ha : s.Advance c vs s') :
    performs V G home n c s g s' [.taken c g] := by
  intro hn _ _ _ h hat ho
  have hhome := hat.plain hp
  refine ⟨ho.advance ha, .of_eq ha.memo, fun hq => ?_, fun I q ρ hs _ => ?_⟩
  · cases ht with
    | reference => exact fun st hst => by cases hst
    | again he | whole he => exact ho.named n hn hp (hhome ▸ hq) _ he
  · cases ht with
    | @reference e he hv =>
      exact ⟨ρ, rfl, .refl ρ, hs, fun _ => (hs.memo n hn hp hhome e he).2⟩
    | @again e he hv => exact absurd (hs.memo n hn hp hhome e he).1 hv
    | @whole e he hv => exact absurd (hs.memo n hn hp hhome e he).1 hv

theorem performs_threads (ht : Threads ((grows.both (regular G)).both (performs V G home)) c ns s gs s' t)
    (hns : ∀ n ∈ ns, n ∈ G.nodes ∧ n.At home h) (hc : c.stage = .fragment) (hvis : c.id ∈ c.visible)
    (hreg : s.Regular G) (ho : s.Orderly V G home h) :
    s'.Orderly V G home h ∧ s.Frames G home h s' ∧
      (G.Quiet home h → ∀ g ∈ gs, ∀ st ∈ g.code.stmts, st.isNamed) ∧
      ∀ (I : Interpretation V) (q : V) (ρ : Store V), Suits I G home h q c ρ s →
        ρ.Reads I s'.fragment.uniforms → ∃ ρ', exec I (gs.flatMap (·.code.stmts)) ρ = some ρ' ∧
          ρ.Extends ρ' ∧ Suits I G home h q c ρ' s' ∧
          Forall₂ (fun m g => ¬ m.isFunction → g.var.value I ρ' = some (m.valueAt I q)) ns gs := by
  induction ht with
  | nil =>
    exact ⟨ho, .of_eq rfl, fun _ _ hg => absurd hg not_mem_nil, fun I q ρ hs _ => ⟨ρ, rfl, .refl ρ, hs, .nil⟩⟩
  | @cons n ns s s1 s2 g gs t ts hn hrest ih =>
    obtain ⟨⟨hmem, hat⟩, hns⟩ := forall_mem_cons.mp hns
    have hset := hn.2 hmem hc hvis hreg h hat ho
    obtain ⟨ho', hframes, hnamed, hruns⟩ := ih hns (hn.1.2 hmem hc hreg).2.1 hset.orderly
    have hgrow : s1.Grows s2 := hrest.growing fun hm => hm.1.1
    refine ⟨ho', hset.frames.trans hframes,
      fun hq => forall_mem_cons.mpr ⟨hset.named hq, hnamed hq⟩, fun I q ρ hs hreads => ?_⟩
    obtain ⟨ρ1, h1⟩ := hset.runs I q ρ hs (hreads.mono (hgrow.registry .fragment).uniforms)
    obtain ⟨ρ2, hexec, hext, hs2, hvalues⟩ := hruns I q ρ1 h1.suits (hreads.extend h1.extends)
    refine ⟨ρ2, ?_, h1.extends.trans hext, hs2, .cons (fun hf => hext.atom (h1.value hf)) hvalues⟩
    rw [flatMap_cons]
    exact exec_append h1.exec hexec

theorem runs_declared (hG : G.Positional) (hn : n ∈ G.nodes) (hp : n.isPlain) (hvis : c.id ∈ c.visible)
    (hbase : IsBase φ.base) {ρ1 : Store V} (hexec : exec I (φ.deps.flatMap (·.code.stmts)) ρ = some ρ1)
    (hext : ρ.Extends ρ1) (hs : Suits I G home h q c ρ1 s) (hv : φ.value.value I ρ1 = some (n.valueAt I q)) :
    ∃ ρ2, Runs I G home h q c n (φ.result s.counter)
      ((φ.session c [] s).remember c n.id (φ.result s.counter)) ρ ρ2 := by
  obtain ⟨ρ2, hexec2, hext2, hfresh, hvar, hmark⟩ := φ.exec_result hbase hexec hs.fresh hv c []
  have hold := hs.advance (φ.advance c [] s)
  refine ⟨ρ2, hexec2, hext.trans hext2, ⟨hfresh, fun hmem hid => hext2 _ _ (hs.position hmem hid),
    fun m hm hpm hmid e he => ?_⟩, fun _ => hvar⟩
  rcases Session.lookup_remember he with ⟨hid, rfl⟩ | ⟨-, he⟩
  · cases hG.shared m hm n hn (Node.not_isImmediate_of_isPlain hpm) (Node.not_isImmediate_of_isPlain hp) hid
    exact ⟨Session.isEmitted_iff.mpr ⟨c.id, hvis, hmark⟩, hvar⟩
  · obtain ⟨hem, hx⟩ := hold.memo m hm hpm hmid e he
    exact ⟨hem, hext2.atom hx⟩

theorem lookup_remember_of_home (hne : home m.id ≠ home n.id) (c : Scope) (g : Generated) :
    (s.remember c n.id g).memo.lookup m.id = s.memo.lookup m.id := by
  have hid : m.id ≠ n.id := fun hid => hne (congrArg home hid)
  change ((n.id, _) :: s.memo).lookup m.id = _
  rw [lookup_cons, beq_eq_false_iff_ne.mpr hid]

theorem performs_compute (hG : G.Positional) (hlayers : G.Layered home) (hp : n.isPlain)
    (ht : Threads ((grows.both (regular G)).both (performs V G home)) c n.operands s gs s1 t)
    (hr : (n.step c gs).run s1 = (g, s2)) : performs V G home n c s g (s2.remember c n.id g) t := by
  intro hn hc hvis hreg h hat ho
  have hhome := hat.plain hp
  subst hhome
  have hmem : ∀ m ∈ n.operands, m ∈ G.nodes := fun m hm => G.operand_mem hp hn hm
  obtain ⟨ho1, hframes, hnamed, hruns⟩ := performs_threads ht
    (fun m hm => ⟨hmem m hm, hlayers.operands hn hp hm⟩) hc hvis hreg ho
  obtain ⟨hgs, -, -⟩ := regular_threads (ht.imp fun hm => hm.1.2) hmem hc hreg
  obtain ⟨type, htype⟩ := hG.type_of_isPlain hn hp
  obtain ⟨φ, hform, hcheck, -, -, hvalue⟩ := Node.form_typed hp htype hgs hc
  rw [Node.run_step (hform _) c, hcheck] at hr
  cases hr
  have ha := φ.advance c [] s1
  have ho2 := ho1.advance ha
  have hfits := Node.form_fits c ht.length (hform false)
  have hcode : G.Quiet home (home n.id) → ∀ st ∈ (φ.result s1.counter).code.stmts, st.isNamed := by
    intro hq
    refine Form.isNamed_result (fun d hd => hnamed hq d (hfits.deps.subset hd))
      (hvalue fun id k hn' => ?_) _
    subst hn'
    exact hq id k hn rfl
  refine ⟨⟨fun hd hlt hl m hm hpm hid => ?_, fun hd f hl => ?_, fun m hm hpm hq e he => ?_⟩,
    hframes.trans fun m hm hpm hlt => ?_, hcode, fun I q ρ hs hreads => ?_⟩
  · rw [lookup_remember_of_home (hid ▸ hlt.ne)]
    exact ho2.unvisited hd hlt hl m hm hpm hid
  · exact ho2.table hd f hl
  · rcases Session.lookup_remember he with ⟨hid, rfl⟩ | ⟨-, he⟩
    · exact hcode (hid ▸ hq)
    · exact ho2.named m hm hpm hq e he
  · rw [lookup_remember_of_home hlt.ne', ha.memo]
  · obtain ⟨ρ1, hexec, hext, hs1, hvalues⟩ :=
      hruns I q ρ hs (hreads.mono (ha.registry .fragment).uniforms)
    have hpos {id name index type} (hn' : n = .argument id name index type) : ρ1 "p" = some q := by
      subst hn'
      exact hs1.position hn rfl
    obtain ⟨hdeps, hv⟩ := Node.value_formAt hp htype hgs (hform _) hpos hvalues
    exact runs_declared hG hn hp hvis hfits.base (hdeps ▸ hexec) hext hs1 hv

theorem suits_position (I : Interpretation V) (q : V) (ws : List Uniform)
    (hnone : ∀ n ∈ G.nodes, n.isPlain → home n.id = h → s.memo.lookup n.id = none) :
    Suits I G home h q c (Store.position I q ws) s where
  fresh k v _ hv := Store.position_fresh I q ws hv
  position _ _ := if_pos rfl
  memo n hn hp hid e he := by
    rw [hnone n hn hp hid] at he
    cases he

theorem Performs.evaluates (hb : Performs V G home id (c.functionBody s.nextScope) body s.openScope gb s1)
    (hbody : ¬ body.isFunction) (hq : G.Quiet home id)
    (hnone : ∀ n ∈ G.nodes, n.isPlain → home n.id = id → s.memo.lookup n.id = none) (name : String) :
    (Step.functionOf id name gb).Evaluates V s1.fragment.uniforms body := by
  refine ⟨fun I q ws hws => ?_, hb.named hq⟩
  obtain ⟨ρ, hρ⟩ := hb.runs I q _ (suits_position I q ws hnone) ((Store.reads_position I q ws).mono hws)
  exact ⟨ρ, hρ.exec, hρ.value hbody⟩

theorem Session.Orderly.define (ho : s.Orderly V G home h) (hG : G.Positional)
    (hn : .defun id name body ∈ G.nodes) (ho1 : s1.Orderly V G home id) (hframes : s.Frames G home id s1)
    (hkeeps : s.Keeps s1) (hmemo : s'.memo = s1.memo) (htable : s'.functions = (id, f) :: s1.functions)
    (hsub : s1.fragment.uniforms ⊆ s'.fragment.uniforms) (hf : f.Evaluates V s1.fragment.uniforms body) :
    s'.Orderly V G home h where
  unvisited {i _ _} hd hlt hl n hn' hp hid := by
    rw [htable, lookup_cons] at hl
    split at hl
    · cases hl
    · next hne =>
      rw [hmemo]
      -- functions below were left alone by the body, and those above by what came before
      rcases Nat.lt_or_gt_of_ne (beq_eq_false_iff_ne.mp hne) with hi | hi
      · exact ho1.unvisited hd hi hl n hn' hp hid
      · rw [hframes n hn' hp (hid ▸ hi)]
        refine ho.unvisited hd hlt ?_ n hn' hp hid
        by_contra hsome
        obtain ⟨k, hk⟩ := Option.ne_none_iff_exists'.mp hsome
        rw [hkeeps _ _ hk] at hl
        cases hl
  table {i _ _} hd k hk := by
    rw [htable, lookup_cons] at hk
    split at hk
    · next heq =>
      cases beq_iff_eq.mp heq
      cases hk
      cases hG.shared _ hd _ hn Bool.false_ne_true Bool.false_ne_true rfl
      exact hf.mono hsub
    · exact (ho1.table hd k hk).mono hsub
  named n hn' hp hq e he := ho1.named n hn' hp hq e (hmemo ▸ he)

theorem performs_newFunction (hG : G.Positional) (hlayers : G.Layered home)
    (hl : s.functions.lookup id = none)
    (hb : ((grows.both (regular G)).both (performs V G home)) body (c.functionBody s.nextScope)
      s.openScope gb s1 t)
    (ha : (s1.define id (Step.functionOf id name gb)).Advance c [] s') :
    performs V G home (.defun id name body) c s (Step.functionResult (Step.functionOf id name gb)) s' t := by
  intro hn hc _ hreg h hat ho
  have hlt : id < h := hat.function rfl
  have hbody := G.only_mem hn rfl
  have hbelow : s.openScope.Orderly V G home id :=
    ⟨fun hd hlt' hl' => ho.unvisited hd (hlt'.trans hlt) hl', ho.table, ho.named⟩
  have hperf := hb.2 hbody hc mem_cons_self hreg.openScope id (hlayers.at_body hn) hbelow
  have heval := hperf.evaluates (Node.not_isFunction_of_isPlain (hlayers.body hn).1)
    (fun i k hi => hlayers.coordinate hi hn) (ho.unvisited hn hlt hl) name
  have hmemo : s'.memo = s1.memo := ha.memo
  have hgrow : s1.Grows s' := (Session.Grows.define ..).trans ha.grows
  have hkeeps := (hb.1.2 hbody hc hreg.openScope).2.2.keeps
  refine ⟨ho.define hG hn hperf.orderly hperf.frames hkeeps hmemo ha.functions (hgrow.registry .fragment).uniforms
    heval, fun n hn' hp hlt' => ?_, fun _ _ hst => absurd hst not_mem_nil,
    fun I q ρ hs _ => ⟨ρ, rfl, .refl ρ, ?_, fun hf => absurd rfl hf⟩⟩
  · rw [hmemo]
    exact hperf.frames n hn' hp (hlt.trans hlt')
  · refine hs.grow (((Session.Grows.openScope s).trans hb.1.1).trans hgrow) fun n hn' hp hid => ?_
    rw [hmemo]
    exact hperf.frames n hn' hp (hid ▸ hlt)

theorem performs_rules (hG : G.Positional) (hlayers : G.Layered home) :
    OpenRules .trivial (grows.both (regular G)) (performs V G home) where
  immediate hi hr hbare _ ha _ hn := performs_immediate hG hn hi hr hbare ha hn
  reuse hm _ ht ha _ hn := performs_reuse (hG.isPlain_of_isMemoized hn hm) ht ha hn
  compute hp _ ht hr _ _ := performs_compute hG hlayers hp ht hr
  loop _ _ _ _ _ _ _ _ _ _ _ hn := hG.elim hn rfl
  accumulator _ _ _ _ _ _ _ _ hn := hG.elim hn rfl
  knownFunction _ _ hg ha _ _ _ _ _ _ _ ho := by
    subst hg
    exact .ofAdvance ho ha rfl fun _ _ _ _ _ hf => absurd rfl hf
  newFunction hl hb _ _ hf hg ha _ := by
    subst hf hg
    exact performs_newFunction hG hlayers hl hb ha
  varying _ _ _ _ hn := hG.elim hn rfl
  strayVarying _ _ _ hn := hG.elim hn rfl

theorem performs_within (hG : G.Positional) (hlayers : G.Layered home) (depth : Nat) :
    (performs V G home).Within depth :=
  (performs_rules hG hlayers).within fun n c s =>
    ⟨grows_everywhere.eval depth n c s, regular_within hG depth n c s⟩

end

end ShaderGraph
