import ShaderGraph.Proofs.Functions
import ShaderGraph.Proofs.Ordering

/-!
# Functions of a position

Graphs in which every function takes a position to a float, and which have neither loops nor
varyings. `Node.type?` computes the type of a node of such a graph, if the node passes its checks and
nothing of it is folded. Evaluation then records no error, results have the types computed, and what
they capture and call can be read off the graph.
-/

namespace ShaderGraph

open Eval List

variable {n body m : Node} {id : NodeId} {name : String} {G : Graph} {c : Scope} {ns ms : List Node} {s s' s2 : Session}
  {gs : List Generated} {t : Trace} {ts : List GlType} {φ : Form}

/-- Functions are the nodes that have a body. -/
def Node.isFunction : Node → Bool
  | .defun .. => true
  | _ => false

/-! ## Types of nodes -/

/-- Whether the value of a node is known. -/
def Node.isLiteral : Node → Bool
  | .float .. => true
  | _ => false

mutual

/-- The type of a node, if its operands pass the checks of its kind. An operation needs an operand
whose value is not known, and a function is called with a position. -/
def Node.type? : Node → Option GlType
  | .float .. => some .float
  | .uniform _ u => if u.misfit = none then some u.type else none
  | .coordinate _ k => some k.type
  | .argument _ name index type => if name = "p" ∧ index = 0 ∧ type = .vec2 then some .vec2 else none
  | .constant _ k => some k.type
  | .operator _ op args => (Node.types? args).bind fun ts =>
    if op.check ts = [] ∧ args.any (!·.isLiteral) then some (op.resultType ts) else none
  | .builtin _ f args => (Node.types? args).bind fun ts =>
    if f.check ts = [] ∧ args.any (!·.isLiteral) then some (f.resultType ts) else none
  | .construct _ k args => (Node.types? args).bind fun ts =>
    if Step.checkConstruct k.type ts = [] then some k.type else none
  | .swizzle _ n fields => n.type?.bind fun t =>
    if Step.checkSwizzle fields t = [] then
      some ((GlType.ofLength? fields.utf8ByteSize).getD .float) else none
  | .call _ (.defun ..) args => if Node.types? args = some [.vec2] then some .float else none
  | _ => none

def Node.types? : List Node → Option (List GlType)
  | [] => some []
  | n :: ns => n.type?.bind fun t => (Node.types? ns).map (t :: ·)

end

theorem Node.not_isFunction_of_type? {t : GlType} (h : n.type? = some t) : ¬ n.isFunction := by
  cases n with
  | defun => cases h
  | _ => exact Bool.false_ne_true

theorem Node.types?_eq_some (h : types? ns = some ts) : Forall₂ (fun n t => n.type? = some t) ns ts := by
  induction ns generalizing ts with
  | nil =>
    cases h
    exact .nil
  | cons n ns ih =>
    rw [types?] at h
    obtain ⟨t, ht, h⟩ := Option.bind_eq_some_iff.mp h
    obtain ⟨us, hus, rfl⟩ := Option.map_eq_some_iff.mp h
    exact .cons ht (ih hus)

/-- A node that is the other one or an operand of a node that is, functions not being entered. -/
inductive Node.Inline (m : Node) : Node → Prop where
  | refl : Inline m m
  | operand {k n : Node} (hk : k ∈ n.operands) (h : Inline m k) : Inline m n

theorem Node.inline_iff : m.Inline n ↔ m = n ∨ ∃ k ∈ n.operands, m.Inline k := by
  constructor
  · rintro (_ | ⟨hk, h⟩)
    · exact .inl rfl
    · exact .inr ⟨_, hk, h⟩
  · rintro (rfl | ⟨k, hk, h⟩)
    · exact .refl
    · exact .operand hk h

/-- The node that a function node of these graphs has its position from. -/
def Node.IsPosition (n : Node) : Prop := ∃ id, n = .argument id "p" 0 .vec2


/-! ## Regular results -/

/-- The function of a defining node: it takes a position to a float and lists the functions that its
body calls, as they are in the table. -/
structure Function.Renders (s : Session) (id : NodeId) (name : String) (body : Node) (f : Function) :
    Prop where
  id : f.id = id
  name : f.name = name
  params : f.params = [⟨.vec2, "p"⟩]
  returns : f.returns = .float
  functions : ∀ k ∈ f.functions, s.functions.lookup k.id = some k
  calls : ∀ i, i ∈ Function.ids f.functions ↔ ∃ name body', (Node.defun i name body').Inline body

/-- A result has the type of its node, is known only for a literal, captures nothing but the
position, and lists the functions that the node calls. -/
structure Generated.Regular (s : Session) (n : Node) (g : Generated) : Prop where
  type : ∀ t, n.type? = some t → g.type = t
  constant : ¬ n.isLiteral → g.constant = none
  arguments : ∀ a ∈ g.arguments, a.name = "p" ∧ a.type = .vec2
  captures : ∀ m : Node, m.IsPosition → m.Inline n → g.arguments ≠ []
  functions : ∀ f ∈ g.functions, s.functions.lookup f.id = some f
  calls : ∀ i, i ∈ Function.ids g.functions ↔ ∃ name body, (Node.defun i name body).Inline n
  value : ¬ n.isFunction → g.function = none
  function : ∀ id name body, n = .defun id name body →
    ∃ f, g = Step.functionResult f ∧ f.Renders s id name body

abbrev Regulars (s : Session) : List Node → List Generated → Prop := Forall₂ fun n g => g.Regular s n

/-- No errors are recorded, and what is remembered of the nodes of the graph is regular. -/
structure Session.Regular (G : Graph) (s : Session) : Prop where
  errors : ∀ stage, (s.registry stage).errors = []
  memo : ∀ n ∈ G.nodes, n.isPlain → ∀ e, s.memo.lookup n.id = some e → e.generated.Regular s n
  functions : ∀ id name body, .defun id name body ∈ G.nodes → ∀ f, s.functions.lookup id = some f →
    f.Renders s id name body

/-- The table keeps its functions. -/
def Session.Keeps (s s' : Session) : Prop :=
  ∀ i f, s.functions.lookup i = some f → s'.functions.lookup i = some f

section
variable {s1 : Session} {g : Generated} {f : Function}

theorem Session.Keeps.refl (s : Session) : s.Keeps s := fun _ _ h => h

theorem Session.Keeps.trans (h : s.Keeps s1) (h' : s1.Keeps s') : s.Keeps s' :=
  fun i f hf => h' i f (h i f hf)

theorem Session.Keeps.of_eq (h : s'.functions = s.functions) : s.Keeps s' :=
  fun i f hf => by rw [h]; exact hf

theorem Session.Keeps.define (h : s.functions.lookup id = none) (f : Function) :
    s.Keeps { s with functions := (id, f) :: s.functions } := by
  intro i k hk
  have hne : i ≠ id := by
    rintro rfl
    rw [h] at hk
    cases hk
  rw [lookup_cons, beq_eq_false_iff_ne.mpr hne]
  exact hk

theorem Function.Renders.mono (h : f.Renders s id name body) (hk : s.Keeps s') : f.Renders s' id name body :=
  { h with functions := fun k hk' => hk _ _ (h.functions k hk') }

theorem Generated.Regular.mono (h : g.Regular s n) (hk : s.Keeps s') : g.Regular s' n :=
  { h with
    functions := fun f hf => hk _ _ (h.functions f hf)
    function := fun id name body hn => by
      obtain ⟨f, hg, hf⟩ := h.function id name body hn
      exact ⟨f, hg, hf.mono hk⟩ }

theorem Generated.Regular.reference (h : g.Regular s n) (hn : n.isPlain) : g.reference.Regular s n :=
  { h with
    function := fun id name body hd => by
      subst hd
      cases hn }

theorem Session.Regular.congr (h : s.Regular G) (hm : s'.memo = s.memo)
    (hf : s'.functions = s.functions) (he : ∀ stage, (s'.registry stage).errors = []) : s'.Regular G where
  errors := he
  memo n hn hp e hl := (h.memo n hn hp e (hm ▸ hl)).mono (.of_eq hf)
  functions id name body hn f hl := (h.functions id name body hn f (hf ▸ hl)).mono (.of_eq hf)

theorem Session.Regular.openScope (h : s.Regular G) : s.openScope.Regular G := by
  refine h.congr rfl rfl fun stage => ?_
  have herr := h.errors stage
  cases stage <;> exact herr

/-! ## Steps without errors -/

theorem Form.session_nil_errors (φ : Form) (c : Scope) (s : Session) (o : Stage) :
    ((φ.session c [] s).registry o).errors = (s.registry o).errors := by
  simp [session]

theorem Step.readUniform_errors {u : Uniform} (hu : u.misfit = none)
    (hr : (readUniform c u).run s = (g, s')) (o : Stage) :
    (s'.registry o).errors = (s.registry o).errors := by
  have hs' : s' = ((s.report c []).updateRegistry c.stage (·.addUniforms [u])).mark c [u.name] := by
    unfold readUniform at hr
    rw [hu] at hr
    cases hr
    rfl
  rw [hs', Session.report_nil, Session.registry_mark, Session.useUniforms_errors]

theorem Step.readFunction_errors (hr : (readFunction c f).run s = (g, s')) (o : Stage) :
    (s'.registry o).errors = (s.registry o).errors := by
  cases hr
  exact s.useUniforms_errors c.stage f.uniforms o

/-! ## Operands -/

/-- A value that comes from names and literals alone. -/
def Expr.isNamed : Expr → Bool
  | .coordinate _ | .resolution => false
  | _ => true

theorem bind_guard_eq_some {α β : Type} {o : Option α} {p : α → Prop} [DecidablePred p] {f : α → β} {b : β} :
    (o.bind fun a => if p a then some (f a) else none) = some b ↔ ∃ a, o = some a ∧ p a ∧ f a = b := by
  simp [Option.bind_eq_some_iff]

theorem map_type_of_regular (h : Regulars s ns gs) (ht : Node.types? ns = some ts) :
    gs.map (·.type) = ts := by
  replace ht := Node.types?_eq_some ht
  induction ht generalizing gs with
  | nil =>
    cases h
    rfl
  | cons htype _ ih =>
    cases h with
    | cons hg hgs => rw [map_cons, hg.type _ htype, ih hgs]

theorem unknown_of_regular (h : Regulars s ns gs) (hn : ns.any (!·.isLiteral)) :
    ∃ g ∈ gs, g.constant = none := by
  induction h with
  | nil => simp at hn
  | @cons n g ns gs hg _ ih =>
    by_cases hl : n.isLiteral
    · have hn : ns.any (!·.isLiteral) := by simpa [hl] using hn
      obtain ⟨d, hd, hnone⟩ := ih hn
      exact ⟨d, mem_cons_of_mem _ hd, hnone⟩
    · exact ⟨g, mem_cons_self, hg.constant hl⟩

theorem Node.form_typed (hp : n.isPlain) {t : GlType} (ht : n.type? = some t)
    (hgs : Regulars s n.operands gs) (hc : c.stage = .fragment) :
    ∃ φ, (∀ folding, n.form? folding gs = some φ) ∧ n.check c gs = [] ∧ φ.type = t ∧
      φ.extras.constant = none ∧ ((∀ id k, n ≠ .coordinate id k) → φ.value.isNamed) := by
  cases n with
  | coordinate id k =>
    cases ht
    exact ⟨_, fun _ => rfl, by simp [check, hc], rfl, rfl, fun hk => absurd rfl (hk id k)⟩
  | constant id k =>
    cases ht
    exact ⟨_, fun _ => rfl, rfl, rfl, rfl, fun _ => rfl⟩
  | argument id name index type =>
    rw [type?, Option.ite_none_right_eq_some] at ht
    obtain ⟨h, ⟨⟩⟩ := ht
    exact ⟨_, fun _ => rfl, rfl, h.2.2, rfl, fun _ => rfl⟩
  | operator id op args =>
    obtain ⟨ts, hts, h, rfl⟩ := bind_guard_eq_some.mp ht
    have htypes := map_type_of_regular hgs hts
    have hunknown := unknown_of_regular hgs h.2
    have hne : ¬ gs.isEmpty := by
      obtain ⟨d, hd, -⟩ := hunknown
      intro hempty
      rw [List.isEmpty_iff.mp hempty] at hd
      cases hd
    refine ⟨Form.operation op gs, fun _ => ?_, ?_, ?_, rfl, fun _ => rfl⟩
    · rw [form?, if_neg hne, Form.fold_of_unknown hunknown]
    · rw [check, htypes, h.1]
    · rw [Form.operation, htypes]
  | builtin id f args =>
    obtain ⟨ts, hts, h, rfl⟩ := bind_guard_eq_some.mp ht
    have htypes := map_type_of_regular hgs hts
    refine ⟨Form.application f gs, fun _ => ?_, ?_, ?_, rfl, fun _ => rfl⟩
    · rw [form?, Form.fold_of_unknown (unknown_of_regular hgs h.2)]
    · rw [check, htypes, h.1]
    · rw [Form.application, htypes]
  | construct id k args =>
    obtain ⟨ts, hts, h, rfl⟩ := bind_guard_eq_some.mp ht
    exact ⟨_, fun _ => rfl, by rw [check, map_type_of_regular hgs hts, h], rfl, rfl, fun _ => rfl⟩
  | swizzle id m fields =>
    obtain ⟨u, hu, h, rfl⟩ := bind_guard_eq_some.mp ht
    obtain ⟨g, _, hg, ⟨⟩, rfl⟩ := forall₂_cons_left_iff.mp hgs
    exact ⟨_, fun _ => rfl, by rw [check, hg.type u hu, h], rfl, rfl, fun _ => rfl⟩
  | call id fn args =>
    cases fn with
    | defun fid name body =>
      rw [type?, Option.ite_none_right_eq_some] at ht
      obtain ⟨hts, ⟨⟩⟩ := ht
      obtain ⟨a, _, ha, hnil, rfl⟩ := forall₂_cons_right_iff.mp (types?_eq_some hts)
      cases hnil
      obtain ⟨ga, _, hga, hrest, rfl⟩ := forall₂_cons_left_iff.mp hgs
      obtain ⟨gf, _, hgf, ⟨⟩, rfl⟩ := forall₂_cons_left_iff.mp hrest
      obtain ⟨f, rfl, hf⟩ := hgf.function fid name body rfl
      refine ⟨_, fun _ => rfl, ?_, hf.returns, rfl, fun _ => rfl⟩
      have hga := hga.type _ ha
      simp [check, Step.functionResult, Step.checkCall, Step.checkCallArguments, hf.params, hga]
    | _ => cases ht
  | _ => simp [type?, isPlain] at ht hp

theorem Generated.Regular.eq_functionResult (h : g.Regular s n) (hf : g.function = some f) :
    g = Step.functionResult f ∧ n.isFunction := by
  by_cases hn : n.isFunction
  · cases n with
    | defun id name body =>
      obtain ⟨k, rfl, -⟩ := h.function id name body rfl
      cases hf
      exact ⟨rfl, rfl⟩
    | _ => cases hn
  · rw [h.value hn] at hf
    cases hf

theorem Node.not_inline_function (hm : ¬ m.isFunction) (hn : n.isFunction) : ¬ m.Inline n := by
  cases n with
  | defun id name body =>
    intro h
    rcases inline_iff.mp h with rfl | ⟨k, hk, -⟩
    · exact hm hn
    · cases hk
  | _ => cases hn

theorem Node.IsPosition.not_isFunction (h : n.IsPosition) : ¬ n.isFunction := by
  obtain ⟨id, rfl⟩ := h
  exact Bool.false_ne_true

section
variable (hφ : φ.Fits n c gs) (hgs : Regulars s n.operands gs)
include hφ hgs

theorem mem_ids_result (k : Nat) {i : NodeId} :
    i ∈ Function.ids (φ.result k).functions ↔ ∃ g ∈ gs, i ∈ Function.ids g.functions := by
  obtain ⟨rest, hrest⟩ := hφ.deps
  have hmem : i ∈ Function.ids (φ.result k).functions ↔
      (∃ g ∈ φ.deps, i ∈ Function.ids g.functions) ∨ i ∈ Function.ids φ.extras.functions := by
    refine Function.mem_ids_adjoin.trans (or_congr_left ?_)
    exact Function.mem_ids_foldl.trans (or_iff_right not_mem_nil)
  rw [hmem, ← hrest]
  constructor
  · rintro (⟨g, hg, hi⟩ | hi)
    · exact ⟨g, mem_append_left _ hg, hi⟩
    · obtain ⟨f, hf, rfl⟩ := mem_map.mp hi
      obtain ⟨d, hd, hdf⟩ := hφ.functions f hf
      obtain ⟨m, -, hm⟩ := exists_of_forall₂_right hgs hd
      refine ⟨d, hrest ▸ hd, ?_⟩
      rw [(hm.eq_functionResult hdf).1]
      exact mem_cons_self
  · rintro ⟨g, hg, hi⟩
    rcases mem_append.mp hg with hg | hg
    · exact .inl ⟨g, hg, hi⟩
    · obtain ⟨f, hf, hgf⟩ := hφ.rest rest hrest.symm g hg
      obtain ⟨m, -, hm⟩ := exists_of_forall₂_right hgs (hrest ▸ mem_append_right _ hg)
      rw [(hm.eq_functionResult hgf).1] at hi
      rw [mem_singleton.mp hi]
      exact .inr (mem_map_of_mem hf)

theorem captures_result (hform : n.form? false gs = some φ) (k : Nat) (hm : m.IsPosition) (hin : m.Inline n) :
    (φ.result k).arguments ≠ [] := by
  rcases Node.inline_iff.mp hin with rfl | ⟨j, hj, hin⟩
  · obtain ⟨id, rfl⟩ := hm
    cases hform
    exact ne_nil_of_mem (mem_adjoin_foldl_iff.mpr (.inr mem_cons_self))
  · obtain ⟨d, hd, hreg⟩ := exists_of_forall₂_left hgs hj
    obtain ⟨a, ha⟩ := exists_mem_of_ne_nil _ (hreg.captures m hm hin)
    obtain ⟨rest, hrest⟩ := hφ.deps
    rw [← hrest] at hd
    rcases mem_append.mp hd with hd | hd
    · exact ne_nil_of_mem (mem_adjoin_foldl_iff.mpr (.inl ⟨d, hd, ha⟩))
    · -- the function called captures nothing
      obtain ⟨f, -, hdf⟩ := hφ.rest rest hrest.symm d hd
      exact absurd hin (Node.not_inline_function hm.not_isFunction (hreg.eq_functionResult hdf).2)

theorem regular_result (hp : n.isPlain) {t : GlType} (ht : n.type? = some t) (hform : n.form? false gs = some φ)
    (htype : φ.type = t) (hconst : φ.extras.constant = none) (k : Nat) : (φ.result k).Regular s n where
  type u hu := htype.trans (Option.some.inj (ht.symm.trans hu))
  constant _ := hconst
  arguments a ha := by
    rcases mem_adjoin_foldl ha with ⟨d, hd, ha⟩ | ha
    · obtain ⟨m, -, hm⟩ := exists_of_forall₂_right hgs (hφ.deps.subset hd)
      exact hm.arguments a ha
    · have hn := hφ.arguments a ha
      rw [hn, Node.type?, Option.ite_none_right_eq_some] at ht
      exact ⟨ht.1.1, ht.1.2.2⟩
  captures m hm hin := captures_result hφ hgs hform k hm hin
  functions f hf := by
    rcases mem_adjoin_foldl hf with ⟨d, hd, hf⟩ | hf
    · obtain ⟨m, -, hm⟩ := exists_of_forall₂_right hgs (hφ.deps.subset hd)
      exact hm.functions f hf
    · obtain ⟨d, hd, hdf⟩ := hφ.functions f hf
      obtain ⟨m, -, hm⟩ := exists_of_forall₂_right hgs hd
      refine hm.functions f ?_
      rw [(hm.eq_functionResult hdf).1]
      exact mem_cons_self
  calls i := by
    rw [mem_ids_result hφ hgs k]
    constructor
    · rintro ⟨g, hg, hi⟩
      obtain ⟨m, hm, hreg⟩ := exists_of_forall₂_right hgs hg
      obtain ⟨name, body, hin⟩ := (hreg.calls i).mp hi
      exact ⟨name, body, .operand hm hin⟩
    · rintro ⟨name, body, hin⟩
      rcases Node.inline_iff.mp hin with rfl | ⟨m, hm, hin⟩
      · cases hp
      · obtain ⟨g, hg, hreg⟩ := exists_of_forall₂_left hgs hm
        exact ⟨g, hg, (hreg.calls i).mpr ⟨name, body, hin⟩⟩
  value _ := rfl
  function id name body hn := by
    subst hn
    cases hp

end

/-! ## Functions -/

theorem Step.parameters_position {as : List ArgumentDef} (h : ∀ a ∈ as, a.name = "p" ∧ a.type = .vec2) :
    parameters name [⟨.vec2, "p"⟩] as = ([⟨.vec2, "p"⟩], []) ∧
      (as ≠ [] → parameters name [] as = ([⟨.vec2, "p"⟩], [])) := by
  induction as with
  | nil => exact ⟨rfl, fun hne => absurd rfl hne⟩
  | cons a as ih =>
    obtain ⟨⟨hname, htype⟩, has⟩ := forall_mem_cons.mp h
    obtain ⟨hknown, -⟩ := ih has
    constructor
    · simp [parameters, hname, htype, hknown]
    · intro _
      simp [parameters, hname, htype, hknown]

theorem Generated.Regular.parameters (h : g.Regular s n) (hm : m.IsPosition) (hin : m.Inline n) (name : String) :
    Step.parameters name [] (Step.byIndex g.arguments) = ([⟨.vec2, "p"⟩], []) := by
  refine (Step.parameters_position fun a ha => h.arguments a (mem_mergeSort.mp ha)).2 ?_
  obtain ⟨a, ha⟩ := exists_mem_of_ne_nil _ (h.captures m hm hin)
  exact ne_nil_of_mem (mem_mergeSort.mpr ha)

theorem Generated.Regular.function_eq (h : g.Regular s body) (ht : body.type? = some .float) (hm : m.IsPosition)
    (hin : m.Inline body) (hr : (Step.function c id name g).run s = (f, s')) :
    s' = s ∧ f.Renders s id name body := by
  have hparams := h.parameters hm hin name
  have htype := h.type _ ht
  simp only [Step.function, htype, hparams] at hr
  cases hr
  exact ⟨s.report_nil c, rfl, rfl, rfl, rfl, h.functions, h.calls⟩

theorem Function.Renders.regular (h : f.Renders s id name body) (hl : s.functions.lookup id = some f) :
    (Step.functionResult f).Regular s (.defun id name body) where
  type t ht := by cases ht
  constant _ := rfl
  arguments a ha := by cases ha
  captures m hm hin := absurd hin (Node.not_inline_function hm.not_isFunction rfl)
  functions k hk := by
    rw [mem_singleton.mp hk, h.id]
    exact hl
  calls i := by
    have hids : i ∈ Function.ids (Step.functionResult f).functions ↔ i = id := by
      rw [← h.id]
      exact mem_singleton
    rw [hids]
    constructor
    · rintro rfl
      exact ⟨name, body, .refl⟩
    · rintro ⟨name', body', hin⟩
      rcases Node.inline_iff.mp hin with heq | ⟨k, hk, -⟩
      · cases heq
        rfl
      · cases hk
  value hn := absurd rfl hn
  function id' name' body' hn := by
    cases hn
    exact ⟨f, rfl, h⟩

theorem Node.not_inline_immediate (hm : m.isImmediate = false) (hn : n.isImmediate) : ¬ m.Inline n := by
  intro hin
  rcases inline_iff.mp hin with rfl | ⟨k, hk, -⟩
  · exact Bool.false_ne_true (hm.symm.trans hn)
  · cases n with
    | absent | float | bool | uniform | «attribute» => cases hk
    | _ => cases hn

theorem Generated.Bare.regular (h : g.Bare) (hn : n.isImmediate) (ht : ∀ t, n.type? = some t → g.type = t)
    (hc : ¬ n.isLiteral → g.constant = none) : g.Regular s n where
  type := ht
  constant := hc
  arguments a ha := by
    rw [h.arguments] at ha
    cases ha
  captures m hm hin := by
    obtain ⟨id, rfl⟩ := hm
    exact absurd hin (Node.not_inline_immediate rfl hn)
  functions f hf := by
    rw [h.functions] at hf
    cases hf
  calls i := by
    rw [h.functions]
    refine iff_of_false not_mem_nil ?_
    rintro ⟨name, body, hin⟩
    exact Node.not_inline_immediate rfl hn hin
  value _ := h.function
  function id name body hd := by
    subst hd
    cases hn

/-! ## Every evaluation -/

/-- Every node has a type or is a function from a position to a float, and what is remembered under
an id belongs to one node. -/
structure Graph.Positional (G : Graph) : Prop where
  typed : ∀ n ∈ G.nodes, n.isFunction ∨ ∃ t, n.type? = some t
  shared : ∀ m ∈ G.nodes, ∀ n ∈ G.nodes, ¬ m.isImmediate → ¬ n.isImmediate → m.id = n.id → m = n
  body : ∀ {id name body}, .defun id name body ∈ G.nodes →
    body.type? = some .float ∧ ∃ m : Node, m.IsPosition ∧ m.Inline body

theorem Node.kind_of_type? {t : GlType} (h : n.type? = some t) : n.isImmediate ∨ n.isPlain := by
  cases n with
  | float | uniform => exact .inl rfl
  | coordinate | argument | constant | operator | builtin | construct | swizzle | call => exact .inr rfl
  | _ => cases h

theorem Node.not_isFunction_of_isPlain (h : n.isPlain) : ¬ n.isFunction := by
  cases n with
  | defun => cases h
  | _ => exact Bool.false_ne_true

theorem Graph.Positional.kinds (hG : G.Positional) : ∀ n ∈ G.nodes,
    n.isImmediate ∨ n.isPlain ∨ n.isFunction := by
  intro n hn
  rcases hG.typed n hn with hf | ⟨t, ht⟩
  · exact .inr (.inr hf)
  · exact (Node.kind_of_type? ht).imp_right .inl

theorem Graph.Positional.elim {P : Prop} (hG : G.Positional) (hn : n ∈ G.nodes)
    (h : (n.isImmediate || n.isPlain || n.isFunction) = false) : P := by
  have hkinds := hG.kinds n hn
  simp_all

theorem Node.not_isImmediate_of_isPlain (h : n.isPlain) : ¬ n.isImmediate := by
  cases n with
  | absent | float | bool | uniform | «attribute» => cases h
  | _ => exact Bool.false_ne_true

theorem Graph.Positional.type_of_isPlain (hG : G.Positional) (hn : n ∈ G.nodes) (hp : n.isPlain) :
    ∃ t, n.type? = some t :=
  (hG.typed n hn).resolve_left (Node.not_isFunction_of_isPlain hp)

theorem Graph.Positional.isPlain_of_isMemoized (hG : G.Positional) (hn : n ∈ G.nodes) (hm : n.isMemoized) :
    n.isPlain := by
  cases n with
  | sumLoop | accumulator => exact hG.elim hn rfl
  | absent | float | bool | uniform | «attribute» | defun | varying => cases hm
  | _ => rfl

/-- What evaluating nodes does to the session: the table keeps its functions, those added are defined
inside of the nodes, and no varyings are passed. -/
structure Session.Adds (ns : List Node) (s s' : Session) : Prop where
  keeps : s.Keeps s'
  inside : ∀ p ∈ s'.functions, p ∈ s.functions ∨ ∃ name body, ∃ n ∈ ns, (Node.defun p.1 name body).Within n
  varyings : s'.fragment.varyings = s.fragment.varyings

theorem Session.Adds.advance {vs : List String} (ha : s.Advance c vs s') : s.Adds ns s' :=
  ⟨.of_eq ha.functions, fun _ hp => .inl (ha.functions ▸ hp), ha.varyings .fragment⟩

theorem Session.Adds.trans (h : s.Adds ns s1) (h' : s1.Adds ns s') : s.Adds ns s' :=
  ⟨h.keeps.trans h'.keeps, fun p hp => (h'.inside p hp).elim (h.inside p) .inr, h'.varyings.trans h.varyings⟩

theorem Session.Adds.mono (h : s.Adds ns s') (hns : ∀ m ∈ ns, ∃ n ∈ ms, m.Within n) : s.Adds ms s' := by
  refine { h with inside := fun p hp => (h.inside p hp).imp_right ?_ }
  rintro ⟨name, body, m, hm, hd⟩
  obtain ⟨n, hn, hin⟩ := hns m hm
  exact ⟨name, body, n, hn, hd.trans hin⟩

theorem Session.Adds.cons (h : s.Adds [n] s1) (h' : s1.Adds ns s') : s.Adds (n :: ns) s' :=
  (h.mono fun m hm => ⟨m, mem_cons.mpr (.inl (mem_singleton.mp hm)), .refl⟩).trans
    (h'.mono fun m hm => ⟨m, mem_cons_of_mem _ hm, .refl⟩)

theorem Session.Adds.parent (h : s.Adds n.children s') : s.Adds [n] s' :=
  h.mono fun _ hm => ⟨n, mem_singleton_self n, .child hm .refl⟩

def regular (G : Graph) : Judgement := fun n c s g s' _ => n ∈ G.nodes → c.stage = .fragment →
  s.Regular G → g.Regular s' n ∧ s'.Regular G ∧ s.Adds [n] s'

theorem regular_threads (h : Threads (regular G) c ns s gs s' t) (hns : ∀ n ∈ ns, n ∈ G.nodes)
    (hc : c.stage = .fragment) (hs : s.Regular G) :
    Regulars s' ns gs ∧ s'.Regular G ∧ s.Adds ns s' := by
  induction h with
  | nil => exact ⟨.nil, hs, .refl _, fun _ hp => .inl hp, rfl⟩
  | cons hn _ ih =>
    obtain ⟨hmem, hns⟩ := forall_mem_cons.mp hns
    obtain ⟨hg, hs1, hk⟩ := hn hmem hc hs
    obtain ⟨hgs, hs2, hk'⟩ := ih hns hs1
    exact ⟨.cons (hg.mono hk'.keeps) hgs, hs2, hk.cons hk'⟩

theorem regular_immediate (hn : n ∈ G.nodes) (hG : G.Positional) (hi : n.isImmediate)
    (hr : (n.step c []).run s = (g, s')) (hbare : g.Bare) {vs : List String} (ha : s.Advance c vs s') :
    regular G n c s g s' [] := by
  intro _ _ hs
  cases n with
  | float id v =>
    cases hr
    refine ⟨hbare.regular rfl (fun t ht => ?_) fun hl => absurd rfl hl, hs, .advance ha⟩
    cases ht
    rfl
  | uniform id u =>
    obtain ⟨t, ht⟩ := (hG.typed _ hn).resolve_left Bool.false_ne_true
    rw [Node.type?, Option.ite_none_right_eq_some] at ht
    have herr := Step.readUniform_errors ht.1 hr
    obtain ⟨rfl, es, rfl⟩ := Step.readUniform_eq hr
    refine ⟨hbare.regular rfl (fun t' ht' => ?_) fun _ => rfl, hs.congr ha.memo ha.functions ?_, .advance ha⟩
    · rw [Node.type?, if_pos ht.1] at ht'
      cases ht'
      rfl
    · exact fun stage => (herr stage).trans (hs.errors stage)
  | absent | bool | «attribute» =>
    obtain ⟨t, ht⟩ := (hG.typed _ hn).resolve_left Bool.false_ne_true
    cases ht
  | _ => cases hi

theorem regular_reuse (hp : n.isPlain) (ht : s.Takes c n.id g s') {vs : List String} (ha : s.Advance c vs s') :
    regular G n c s g s' [.taken c g] := by
  intro hn _ hs
  cases ht with
  | reference he => exact ⟨(hs.memo n hn hp _ he).reference hp, hs, .advance ha⟩
  | again he => exact ⟨hs.memo n hn hp _ he, hs, .advance ha⟩
  | @whole e he =>
    refine ⟨(hs.memo n hn hp _ he).mono (.of_eq ha.functions),
      hs.congr ha.memo ha.functions fun stage => ?_, .advance ha⟩
    rw [Session.useUniforms_errors, Session.registry_mark]
    exact hs.errors stage

theorem Session.Regular.remember (hs : s.Regular G) (hG : G.Positional) (hn : n ∈ G.nodes)
    (hp : n.isPlain) (hg : g.Regular s n) (c : Scope) : (s.remember c n.id g).Regular G where
  errors stage := by
    rw [Session.registry_remember]
    exact hs.errors stage
  memo m hm hpm e he := by
    rcases Session.lookup_remember he with ⟨hid, rfl⟩ | ⟨-, he⟩
    · have hmn := hG.shared m hm n hn (Node.not_isImmediate_of_isPlain hpm)
        (Node.not_isImmediate_of_isPlain hp) hid
      subst hmn
      exact hg.mono (.of_eq rfl)
    · exact (hs.memo m hm hpm e he).mono (.of_eq rfl)
  functions id name body hd f hf := (hs.functions id name body hd f hf).mono (.of_eq rfl)

theorem regular_compute (hG : G.Positional) (hp : n.isPlain)
    (ht : Threads (regular G) c n.operands s gs s1 t) (hr : (n.step c gs).run s1 = (g, s2)) :
    regular G n c s g (s2.remember c n.id g) t := by
  intro hn hc hs
  obtain ⟨hgs, hs1, hadds⟩ := regular_threads ht (fun m hm => G.operand_mem hp hn hm) hc hs
  obtain ⟨type, htype⟩ := hG.type_of_isPlain hn hp
  obtain ⟨φ, hform, hcheck, hφ, hconst, -⟩ := Node.form_typed hp htype hgs hc
  rw [Node.run_step (hform _) c, hcheck] at hr
  cases hr
  have hadvance := φ.advance c [] s1
  have hreg := (regular_result (Node.form_fits c ht.length (hform false)) hgs hp htype (hform _) hφ hconst
    s1.counter).mono (.of_eq hadvance.functions)
  have hs2 : (φ.session c [] s1).Regular G := hs1.congr hadvance.memo hadvance.functions
    fun stage => (φ.session_nil_errors c s1 stage).trans (hs1.errors stage)
  have hadds' : (φ.session c [] s1).Adds [n] ((φ.session c [] s1).remember c n.id (φ.result s1.counter)) :=
    ⟨.of_eq rfl, fun _ hp => .inl hp, rfl⟩
  refine ⟨hreg.mono (.of_eq rfl), hs2.remember hG hn hp hreg c, ?_⟩
  exact ((Node.children_of_isPlain hp ▸ hadds).parent.trans (.advance hadvance)).trans hadds'

theorem regular_knownFunction (hl : s.functions.lookup id = some f)
    (hr : (Step.readFunction c f).run s = (g, s')) : regular G (.defun id name body) c s g s' [.taken c g] := by
  intro hn _ hs
  have herr := Step.readFunction_errors hr
  obtain ⟨rfl, ha⟩ := Step.readFunction_eq hr
  have hf := (hs.functions id name body hn f hl).regular hl
  exact ⟨hf.mono (.of_eq ha.functions), hs.congr ha.memo ha.functions fun o => (herr o).trans (hs.errors o),
    .advance ha⟩

theorem lookup_body (hG : G.Positional) (hn : .defun id name body ∈ G.nodes) (hl : s.functions.lookup id = none)
    (hb : s.Adds [body] s1) : s1.functions.lookup id = none := by
  by_contra hne
  obtain ⟨f, hf⟩ := Option.ne_none_iff_exists'.mp hne
  rcases hb.inside _ (mem_of_lookup hf) with hmem | ⟨name', body', m, hm, hin⟩
  · simpa using lookup_eq_none_iff.mp hl _ hmem
  · cases mem_singleton.mp hm
    have hbody : body ∈ (Node.defun id name body).children := mem_cons_self
    have heq := hG.shared _ (G.mem_of_within (G.closed _ hn _ hbody) hin) _ hn Bool.false_ne_true
      Bool.false_ne_true rfl
    have hle := hin.sizeOf_le
    rw [heq] at hle
    exact absurd (Node.sizeOf_child_lt hbody) (Nat.not_lt.mpr hle)

theorem Session.Regular.define (hs : s.Regular G) (hG : G.Positional) (hn : .defun id name body ∈ G.nodes)
    (hl : s.functions.lookup id = none) (hf : f.Renders s id name body) :
    (s.define id f).Regular G where
  errors := hs.errors
  memo m hm hp e he := (hs.memo m hm hp e he).mono (.define hl f)
  functions i name' body' hd k hk := by
    by_cases hi : i = id
    · subst hi
      have hk : some f = some k := by rwa [lookup_cons_self] at hk
      cases hG.shared _ hd _ hn Bool.false_ne_true Bool.false_ne_true rfl
      cases hk
      exact hf.mono (.define hl f)
    · rw [lookup_cons, beq_eq_false_iff_ne.mpr hi] at hk
      exact (hs.functions i name' body' hd k hk).mono (.define hl f)

theorem regular_newFunction (hG : G.Positional) {gb : Generated} (hl : s.functions.lookup id = none)
    (hb : regular G body (c.functionBody s.nextScope) s.openScope gb s1 t)
    (hf : (Step.function c id name gb).run s1 = (f, s2))
    (hr : (Step.readFunction c f).run (s2.define id f) = (g, s')) :
    regular G (.defun id name body) c s g s' t := by
  intro hn hc hs
  obtain ⟨htype, m, hm, hin⟩ := hG.body hn
  obtain ⟨hgb, hs1, hadds⟩ := hb (G.only_mem hn rfl) hc hs.openScope
  have hadds : s.Adds (Node.defun id name body).children s1 := ⟨hadds.keeps, hadds.inside, hadds.varyings⟩
  have hnone := lookup_body hG hn hl hadds
  obtain ⟨rfl, hrenders⟩ := hgb.function_eq htype hm hin hf
  obtain ⟨hg, hs', hadds'⟩ := regular_knownFunction lookup_cons_self hr hn hc (hs1.define hG hn hnone hrenders)
  refine ⟨hg, hs', hadds.parent.trans (.trans ⟨.define hnone f, fun p hp => ?_, rfl⟩ hadds')⟩
  refine (mem_cons.mp hp).symm.imp_right fun hp => ⟨name, body, _, mem_cons_self, ?_⟩
  subst hp
  exact .refl

theorem regular_rules (hG : G.Positional) : OpenRules .trivial .trivial (regular G) where
  immediate hi hr hbare _ ha _ hn := regular_immediate hn hG hi hr hbare ha hn
  reuse hm _ ht ha _ hn := regular_reuse (hG.isPlain_of_isMemoized hn hm) ht ha hn
  compute hp _ ht hr _ _ := regular_compute hG hp (ht.imp And.right) hr
  loop _ _ _ _ _ _ _ _ _ _ _ hn := hG.elim hn rfl
  accumulator _ _ _ _ _ _ _ _ hn := hG.elim hn rfl
  knownFunction hl hr _ _ _ := regular_knownFunction hl hr
  newFunction hl hb hf hr _ _ _ _ := regular_newFunction hG hl hb.2 hf hr
  varying _ _ _ _ hn := hG.elim hn rfl
  strayVarying _ _ _ hn := hG.elim hn rfl

theorem regular_within (hG : G.Positional) (depth : Nat) : (regular G).Within depth :=
  (regular_rules hG).within fun _ _ _ => trivial

end

end ShaderGraph
