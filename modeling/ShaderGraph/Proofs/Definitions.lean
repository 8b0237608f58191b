import ShaderGraph.Proofs.Bodies

/-!
# Definitions of a stage

The functions that a stage lists are those of the graph, each once and after the ones that it calls.
Their bodies read the position, what they declare before and uniforms, and nothing else.
`Interpretation.install` adds definitions to an interpretation one after another; in what it makes of
the functions of a stage, each function has the values of its node.
-/

namespace ShaderGraph

open Eval List

universe u

variable {body m n : Node} {f : Function} {name : String} {fs : List Function} {id : NodeId} {c : Scope}
  {G : Graph} {s : Session} {g : Generated}

/-! ## What bodies read -/

/-- Declarations, and a result after them, that read nothing but what is known or declared before. -/
def Stmt.ReadsOnly (result : Atom) : List String → List Stmt → Prop
  | known, [] => ∀ r ∈ result.names, r ∈ known
  | known, .decl _ v e :: ss => e.isNamed ∧ (∀ r ∈ e.names, r ∈ known) ∧ ReadsOnly result (v :: known) ss
  | _, _ :: _ => False

/-- The body of a function reads its parameters, what it declares before and uniforms, and nothing
else. -/
def Function.ReadsOnly (us : List Uniform) (f : Function) : Prop :=
  Stmt.ReadsOnly f.result (f.params.map (·.name) ++ us.map (·.name)) f.body

section
variable {V : Type u} {I : Interpretation V} {ρ ρ' : Store V}

theorem Atom.ne_none_of_value {a : Atom} {x : V} (h : a.value I ρ = some x) : ∀ r ∈ a.names, ρ r ≠ none := by
  intro r hr
  rw [Atom.mem_names.mp hr] at h
  rw [show ρ r = some x from h]
  exact Option.some_ne_none x

theorem Atom.ne_none_of_mapM {as : List Atom} {xs : List V} (h : as.mapM (Atom.value I ρ) = some xs) :
    ∀ r ∈ as.flatMap (·.names), ρ r ≠ none := by
  induction as generalizing xs with
  | nil => exact fun r hr => absurd hr not_mem_nil
  | cons a as ih =>
    rw [mapM_cons] at h
    obtain ⟨x, hx, h⟩ := Option.bind_eq_some_iff.mp h
    obtain ⟨ys, hys, -⟩ := Option.bind_eq_some_iff.mp h
    intro r hr
    rcases mem_append.mp hr with hr | hr
    · exact ne_none_of_value hx r hr
    · exact ih hys r hr

theorem Cast.ne_none_of_value {a : Cast} {x : V} (h : a.value I ρ = some x) : ∀ r ∈ a.names, ρ r ≠ none := by
  cases a with
  | keep a => exact Atom.ne_none_of_value h
  | convert type a =>
    obtain ⟨y, hy, -⟩ := Option.map_eq_some_iff.mp h
    exact Atom.ne_none_of_value hy

theorem Expr.ne_none_of_value {e : Expr} {x : V} (h : e.value I ρ = some x) : ∀ r ∈ e.names, ρ r ≠ none := by
  cases e with
  | cast a => exact Cast.ne_none_of_value h
  | operation op args | call fn args =>
    obtain ⟨xs, hxs, -⟩ := Option.map_eq_some_iff.mp h
    exact Atom.ne_none_of_mapM hxs
  | field a fields =>
    obtain ⟨y, hy, -⟩ := Option.map_eq_some_iff.mp h
    exact Atom.ne_none_of_value hy
  | select cond a b =>
    obtain ⟨y, hy, h⟩ := Option.bind_eq_some_iff.mp h
    obtain ⟨z, hz, h⟩ := Option.bind_eq_some_iff.mp h
    obtain ⟨w, hw, -⟩ := Option.bind_eq_some_iff.mp h
    intro r hr
    rcases mem_append.mp hr with hr | hr
    · rcases mem_append.mp hr with hr | hr
      · exact Atom.ne_none_of_value hy r hr
      · exact Cast.ne_none_of_value hz r hr
    · exact Cast.ne_none_of_value hw r hr
  | literals | coordinate | resolution => exact fun r hr => absurd hr not_mem_nil

/-- Code that runs reads nothing but what the store has and what it declares before. -/
theorem readsOnly_of_exec {ss : List Stmt} {result : Atom} {x : V} {known : List String}
    (hexec : exec I ss ρ = some ρ') (hnamed : ∀ st ∈ ss, st.isNamed)
    (hx : result.value I ρ' = some x) (hknown : ∀ v, ρ v ≠ none → v ∈ known) :
    Stmt.ReadsOnly result known ss := by
  fun_induction exec I ss ρ generalizing known with
  | case1 ρ =>
    cases hexec
    exact fun r hr => hknown r (Atom.ne_none_of_value hx r hr)
  | case2 type v e ss ρ y hy hv ih =>
    obtain ⟨he, hss⟩ := forall_mem_cons.mp hnamed
    refine ⟨he, fun r hr => hknown r (Expr.ne_none_of_value hy r hr), ih hexec hss fun w hw => ?_⟩
    by_cases hwv : w = v
    · exact hwv ▸ mem_cons_self
    · refine mem_cons_of_mem _ (hknown w ?_)
      rwa [Store.set, if_neg hwv] at hw
  | case3 => cases hexec
  | case4 => cases hexec

theorem Function.Evaluates.readsOnly [Nonempty V] {us : List Uniform} (h : f.Evaluates V us body)
    (hparams : f.params = [⟨.vec2, "p"⟩]) : f.ReadsOnly us := by
  obtain ⟨x⟩ := ‹Nonempty V›
  let I : Interpretation V := ⟨fun _ => x, fun _ => x, fun _ => x, fun _ => x, x, fun _ _ => x,
    fun _ _ => x, fun _ _ => x, fun _ _ => x, fun _ _ _ => x, fun _ _ => x⟩
  obtain ⟨ρ, hexec, hx⟩ := h.runs I x us (List.Subset.refl us)
  refine readsOnly_of_exec hexec h.named hx fun v hv => ?_
  rw [hparams]
  by_cases hp : v = "p"
  · exact hp ▸ mem_cons_self
  · refine mem_cons_of_mem _ ?_
    rw [Store.position, if_neg hp] at hv
    split at hv
    · next hu =>
      obtain ⟨u, hu, rfl⟩ := hu
      exact mem_map_of_mem hu
    · exact absurd rfl hv

end

/-! ## The functions of a result -/

theorem Node.operands_eq_nil (h : n.isPlain = false) : n.operands = [] := by
  cases n with
  | operator | builtin | construct | swizzle | switch | breakIf | call => cases h
  | _ => rfl

theorem Node.Inline.within (h : m.Inline n) : m.Within n := by
  induction h with
  | refl => exact .refl
  | @operand k n hk _ ih =>
    refine .child ?_ ih
    by_cases hp : n.isPlain
    · exact children_of_isPlain hp ▸ hk
    · rw [operands_eq_nil (Bool.eq_false_iff.mpr hp)] at hk
      cases hk

theorem lookup_of_below (hs : s.Regular G) {k : Function} (hf : f.Below k)
    (hk : s.functions.lookup k.id = some k) (hin : (Node.defun k.id name body).Within n) (hn : n ∈ G.nodes) :
    s.functions.lookup f.id = some f ∧ ∃ name body, (Node.defun f.id name body).Within n := by
  induction hf generalizing name body with
  | refl => exact ⟨hk, name, body, hin⟩
  | @callee j k hj _ ih =>
    have hr := hs.functions _ _ _ (G.mem_of_within hn hin) k hk
    obtain ⟨name', body', hcall⟩ := (hr.calls j.id).mp (mem_map_of_mem hj)
    have hbody : body.Within (.defun k.id name body) := .child mem_cons_self .refl
    exact ih (hr.functions j hj) ((hcall.within.trans hbody).trans hin)

theorem Generated.Regular.lookup_of_mem (hg : g.Regular s n) (hs : s.Regular G) (hn : n ∈ G.nodes)
    (hf : f ∈ Function.flattenAll [] g.functions) :
    s.functions.lookup f.id = some f ∧ ∃ name body, (Node.defun f.id name body).Within n := by
  rcases Function.below_of_mem_flattenAll hf with hf | ⟨k, hk, hbelow⟩
  · cases hf
  · obtain ⟨name, body, hin⟩ := (hg.calls k.id).mp (mem_map_of_mem hk)
    exact lookup_of_below hs hbelow (hg.functions k hk) hin.within hn

/-- A list of functions that has those called inside of a node has those inside of the functions too,
if it has what its functions call. -/
theorem mem_ids_of_within (hG : G.Positional) (hs : s.Regular G)
    (hfs : ∀ f ∈ fs, s.functions.lookup f.id = some f)
    (hclosed : ∀ f ∈ fs, ∀ k ∈ f.functions, k.id ∈ Function.ids fs) (hm : m.Within n)
    (hd : m = .defun id name body) (hn : n ∈ G.nodes)
    (hlist : ∀ i name body, (Node.defun i name body).Inline n → i ∈ Function.ids fs) :
    id ∈ Function.ids fs := by
  induction hm with
  | refl => exact hlist id name body (hd ▸ .refl)
  | @child k n hk _ ih =>
    have hmem := G.closed n hn k hk
    refine ih hmem fun i name' body' hin => ?_
    rcases hG.kinds n hn with hi | hp | hf
    · cases n with
      | absent | float | bool | uniform | «attribute» => cases hk
      | _ => cases hi
    · rw [Node.children_of_isPlain hp] at hk
      exact hlist i name' body' (.operand hk hin)
    · cases n with
      | defun j jname jbody =>
        obtain ⟨f, hmem, rfl⟩ := mem_map.mp (hlist j jname jbody .refl)
        have hr := hs.functions _ _ _ hn f (hfs f hmem)
        rw [mem_singleton.mp hk] at hin
        obtain ⟨k, hk, rfl⟩ := mem_map.mp ((hr.calls i).mpr ⟨name', body', hin⟩)
        exact hclosed f hmem k hk
      | _ => cases hf

theorem Generated.Regular.mem_ids_iff (hg : g.Regular s n) (hG : G.Positional) (hs : s.Regular G)
    (hn : n ∈ G.nodes) : id ∈ Function.ids (Function.flattenAll [] g.functions) ↔
      ∃ name body, (Node.defun id name body).Within n := by
  obtain ⟨hordered, -, hbelow⟩ := Function.ordered_flattenAll Function.ordered_nil g.functions
  constructor
  · intro hid
    obtain ⟨f, hf, rfl⟩ := mem_map.mp hid
    exact (hg.lookup_of_mem hs hn hf).2
  · rintro ⟨name, body, hin⟩
    refine mem_ids_of_within hG hs (fun f hf => (hg.lookup_of_mem hs hn hf).1) (fun f hf k hk => ?_)
      hin rfl hn fun i name' body' hin' => ?_
    · obtain ⟨before, after, hsplit⟩ := append_of_mem hf
      rw [hsplit, Function.ids, map_append]
      exact mem_append_left _ (hordered.callees hsplit k hk)
    · obtain ⟨k, hk, rfl⟩ := mem_map.mp ((hg.calls i).mpr ⟨name', body', hin'⟩)
      exact hbelow k hk k .refl

/-! ## Installed definitions -/

section
variable {V : Type u}

/-- The store of a function that is called: its parameters have the values of the arguments, and
uniforms have theirs. -/
def Function.store (I : Interpretation V) (us : List Uniform) (f : Function) (args : List V) : Store V :=
  fun v => match ((f.params.map (·.name)).zip args).lookup v with
    | some x => some x
    | none => if ∃ u ∈ us, v = u.name then some (I.resource v) else none

/-- Runs the body of a function on as many arguments as it has parameters. -/
def Function.run (I : Interpretation V) (us : List Uniform) (f : Function) (args : List V) : Option V :=
  if args.length = f.params.length then
    (exec I f.body (f.store I us args)).bind (f.result.value I)
  else none

namespace Interpretation

def define (I : Interpretation V) (us : List Uniform) (f : Function) : Interpretation V :=
  { I with
    call := fun name args =>
      if name = f.name then (f.run I us args).getD (I.call name args) else I.call name args }

def install (I : Interpretation V) (us : List Uniform) : List Function → Interpretation V
  | [] => I
  | f :: fs => (I.define us f).install us fs

variable (I : Interpretation V) (us : List Uniform)

theorem install_append (fs gs : List Function) :
    I.install us (fs ++ gs) = (I.install us fs).install us gs := by
  induction fs generalizing I with
  | nil => rfl
  | cons f fs ih => exact ih (I.define us f)

/-- Only calls of the functions change. -/
theorem install_eq (fs : List Function) : I.install us fs = { I with call := (I.install us fs).call } := by
  induction fs generalizing I with
  | nil => rfl
  | cons f fs ih =>
    rw [install]
    exact ih (I.define us f)

theorem install_call_of_notMem (h : name ∉ fs.map (·.name)) : (I.install us fs).call name = I.call name := by
  induction fs generalizing I with
  | nil => rfl
  | cons f fs ih =>
    rw [map_cons, mem_cons, not_or] at h
    rw [install, ih _ h.2]
    funext args
    exact if_neg h.1

end Interpretation

def Node.calledName? : Node → Option String
  | .builtin _ f _ => some f.name
  | .construct _ k _ => some k.type.name
  | .defun _ name _ => some name
  | _ => none

theorem Node.valuesAt_eq_map (I : Interpretation V) (q : V) (ns : List Node) :
    valuesAt I q ns = ns.map (valueAt I q) := by
  induction ns with
  | nil => rfl
  | cons n ns ih => rw [valuesAt, ih, map_cons]

theorem Node.valueAt_congr (I : Interpretation V) (call : String → List V → V) (q : V) (n : Node)
    (h : ∀ (m : Node) (name : String), m.Inline n → m.calledName? = some name → I.call name = call name) :
    n.valueAt I q = n.valueAt { I with call } q := by
  have hoperand : ∀ a ∈ n.operands, a.valueAt I q = a.valueAt { I with call } q := fun a ha =>
    have := sizeOf_operand_lt ha
    valueAt_congr I call q a fun m name hin => h m name (.operand ha hin)
  have hargs (args : List Node) (hsub : ∀ a ∈ args, a ∈ n.operands) :
      valuesAt I q args = valuesAt { I with call } q args := by
    rw [valuesAt_eq_map, valuesAt_eq_map]
    exact map_congr_left fun a ha => hoperand a (hsub a ha)
  cases n with
  | operator id op args =>
    have hargs := hargs args fun _ ha => ha
    simp only [valueAt, hargs]
  | builtin id f args =>
    have hargs := hargs args fun _ ha => ha
    simp only [valueAt, hargs, h _ _ .refl rfl]
  | construct id k args =>
    have hargs := hargs args fun _ ha => ha
    simp only [valueAt, hargs, h _ _ .refl rfl]
  | swizzle id m fields =>
    have hvalue := hoperand m (mem_singleton_self m)
    simp only [valueAt, hvalue]
  | call id fn args =>
    cases fn with
    | defun fid name body =>
      have hfn : Node.defun fid name body ∈ (Node.call id (.defun fid name body) args).operands :=
        mem_concat_self
      have hargs := hargs args fun _ ha => mem_append_left _ ha
      simp only [valueAt, hargs, h _ _ (.operand hfn .refl) rfl]
    | _ => rfl
  | _ => rfl
termination_by sizeOf n

theorem Function.store_position (I : Interpretation V) (us : List Uniform) (hparams : f.params = [⟨.vec2, "p"⟩])
    (q : V) : f.store I us [q] = Store.position I q us := by
  funext v
  rw [store, hparams, Store.position]
  by_cases hv : v = "p"
  · simp [hv]
  · simp [lookup_cons, beq_eq_false_iff_ne.mpr hv, hv]

theorem Function.Evaluates.run {us : List Uniform} (h : f.Evaluates V us body)
    (hparams : f.params = [⟨.vec2, "p"⟩]) (I : Interpretation V) (q : V) :
    f.run I us [q] = some (body.valueAt I q) := by
  obtain ⟨ρ, hexec, hx⟩ := h.runs I q us (List.Subset.refl us)
  have hlen : [q].length = f.params.length := by
    rw [hparams]
    rfl
  rw [Function.run, if_pos hlen, store_position I us hparams, hexec, Option.bind_some, hx]

/-- A function has a name of its own, which is no name of the language. -/
structure Graph.Named (G : Graph) : Prop where
  unique : ∀ {i j name body body'}, .defun i name body ∈ G.nodes → .defun j name body' ∈ G.nodes → i = j
  builtin : ∀ {id name body}, .defun id name body ∈ G.nodes → ∀ f : Builtin, f.name ≠ name
  construct : ∀ {id name body}, .defun id name body ∈ G.nodes → ∀ k : Constructed, k.type.name ≠ name

/-- The functions of nodes of a graph, in an order in which they can be defined. -/
structure Function.Defines (V : Type u) (G : Graph) (us : List Uniform) (fs : List Function) : Prop where
  ordered : Ordered fs
  node : ∀ f ∈ fs, ∃ body, .defun f.id f.name body ∈ G.nodes
  params : ∀ f ∈ fs, f.params = [⟨.vec2, "p"⟩]
  returns : ∀ f ∈ fs, f.returns = .float
  calls : ∀ f ∈ fs, ∀ body, .defun f.id f.name body ∈ G.nodes → ∀ i, i ∈ ids f.functions ↔
    ∃ name body', (Node.defun i name body').Inline body
  evaluates : ∀ f ∈ fs, ∀ body, .defun f.id f.name body ∈ G.nodes → f.Evaluates V us body

namespace Function.Defines

variable {us : List Uniform}

theorem names_nodup (h : Defines V G us fs) (hG : G.Named) : (fs.map (·.name)).Nodup := by
  refine List.Nodup.map_on (fun f hf g hg heq => ?_) (List.Nodup.of_map _ h.ordered.nodup)
  obtain ⟨body, hbody⟩ := h.node f hf
  obtain ⟨body', hbody'⟩ := h.node g hg
  exact inj_on_of_nodup_map h.ordered.nodup hf hg (hG.unique hbody (heq ▸ hbody'))

theorem calledName (h : Defines V G us fs) (hG : G.Positional) (hnamed : G.Named) {before after : List Function}
    (hsplit : fs = before ++ f :: after) (hbody : .defun f.id f.name body ∈ G.nodes) (hin : m.Inline body)
    (hm : m.calledName? = some name) : name ∉ (f :: after).map (·.name) := by
  have hsub : ∀ g ∈ f :: after, g ∈ fs := fun g hg => hsplit ▸ mem_append_right _ hg
  cases m with
  | builtin id b args =>
    cases hm
    intro hmem
    obtain ⟨g, hg, hname⟩ := mem_map.mp hmem
    obtain ⟨gbody, hgbody⟩ := h.node g (hsub g hg)
    exact hnamed.builtin hgbody b hname.symm
  | construct id k args =>
    cases hm
    intro hmem
    obtain ⟨g, hg, hname⟩ := mem_map.mp hmem
    obtain ⟨gbody, hgbody⟩ := h.node g (hsub g hg)
    exact hnamed.construct hgbody k hname.symm
  | defun i callee ibody =>
    cases hm
    have hf : f ∈ fs := hsub f mem_cons_self
    -- the callee is listed before, and names are listed once
    obtain ⟨k, hk, rfl⟩ := mem_map.mp ((h.calls f hf body hbody i).mpr ⟨name, ibody, hin⟩)
    obtain ⟨g, hg, hid⟩ := mem_map.mp (h.ordered.callees hsplit k hk)
    have hgfs : g ∈ fs := hsplit ▸ mem_append_left _ hg
    obtain ⟨gbody, hgbody⟩ := h.node g hgfs
    have hcallee : Node.defun k.id name ibody ∈ G.nodes :=
      G.mem_of_within (G.only_mem hbody rfl) hin.within
    have heq := hG.shared _ hgbody _ hcallee Bool.false_ne_true Bool.false_ne_true hid
    have hname : g.name = name := (Node.defun.inj heq).2.1
    have hnodup := h.names_nodup hnamed
    rw [hsplit, map_append, nodup_append] at hnodup
    exact fun hmem => hnodup.2.2 _ (mem_map_of_mem hg) _ hmem hname
  | _ => cases hm

theorem install (h : Defines V G us fs) (hG : G.Positional) (hnamed : G.Named) (I : Interpretation V)
    (hf : f ∈ fs) (hbody : .defun f.id f.name body ∈ G.nodes) (q : V) :
    (I.install us fs).call f.name [q] = body.valueAt (I.install us fs) q := by
  obtain ⟨before, after, hsplit⟩ := append_of_mem hf
  have hlater : f.name ∉ after.map (·.name) := by
    have hnodup := h.names_nodup hnamed
    rw [hsplit, map_append, map_cons, nodup_append, nodup_cons] at hnodup
    exact hnodup.2.1.1
  have hinstall : I.install us fs = ((I.install us before).define us f).install us after := by
    rw [hsplit, I.install_append us]
    rfl
  have hcall : (I.install us fs).call f.name [q] = body.valueAt (I.install us before) q := by
    rw [hinstall, Interpretation.install_call_of_notMem _ us hlater]
    simp [Interpretation.define, (h.evaluates f hf body hbody).run (h.params f hf)]
  rw [hcall]
  have hrest : I.install us fs = (I.install us before).install us (f :: after) := hinstall
  rw [hrest, Interpretation.install_eq _ us (f :: after)]
  refine Node.valueAt_congr _ _ q body fun m name hin hm => ?_
  rw [Interpretation.install_call_of_notMem _ us (h.calledName hG hnamed hsplit hbody hin hm)]

end Function.Defines

end

/-! ## A stage -/

section
variable {V : Type u} {home : NodeId → NodeId} {h : NodeId} {s' : Session}

theorem Generated.Regular.defines (hg : g.Regular s n) (hs : s.Regular G) (ho : s.Orderly V G home h)
    (hn : n ∈ G.nodes) :
    Function.Defines V G s.fragment.uniforms (Function.flattenAll [] g.functions) := by
  have hnode {f : Function} (hf : f ∈ Function.flattenAll [] g.functions) :
      ∃ body, .defun f.id f.name body ∈ G.nodes ∧ f.Renders s f.id f.name body := by
    obtain ⟨hl, name, body, hin⟩ := hg.lookup_of_mem hs hn hf
    have hmem := G.mem_of_within hn hin
    have hr := hs.functions _ _ _ hmem f hl
    obtain rfl := hr.name
    exact ⟨body, hmem, hr⟩
  have hlookup {f : Function} (hf : f ∈ Function.flattenAll [] g.functions) :=
    (hg.lookup_of_mem hs hn hf).1
  refine ⟨(Function.ordered_flattenAll Function.ordered_nil g.functions).1, fun f hf => ?_, fun f hf => ?_,
    fun f hf => ?_, fun f hf body hbody => ?_, fun f hf body hbody => ?_⟩
  · obtain ⟨body, hmem, -⟩ := hnode hf
    exact ⟨body, hmem⟩
  · obtain ⟨body, -, hr⟩ := hnode hf
    exact hr.params
  · obtain ⟨body, -, hr⟩ := hnode hf
    exact hr.returns
  · exact (hs.functions _ _ _ hbody f (hlookup hf)).calls
  · exact ho.table hbody f (hlookup hf)

/-- Nothing is remembered, defined, passed on or wrong. -/
structure Session.Blank (s : Session) : Prop where
  memo : s.memo = []
  functions : s.functions = []
  varyings : s.fragment.varyings = []
  errors : ∀ stage, (s.registry stage).errors = []

theorem Session.Blank.regular (hs : s.Blank) (G : Graph) : s.Regular G where
  errors := hs.errors
  memo n _ _ e he := by
    rw [hs.memo] at he
    cases he
  functions id name body _ f hf := by
    rw [hs.functions] at hf
    cases hf

theorem Session.Blank.orderly (hs : s.Blank) (V : Type u) (G : Graph) (home : NodeId → NodeId) (h : NodeId) :
    s.Orderly V G home h where
  unvisited _ _ _ n _ _ _ := by
    rw [hs.memo]
    rfl
  table _ f hf := by
    rw [hs.functions] at hf
    cases hf
  named n _ _ _ e he := by
    rw [hs.memo] at he
    cases he

/-- An attribute whose elements have as many floats as its type leaves nothing behind in a vertex
stage but itself. -/
theorem blank_attribute {a : Attribute} (hsize : a.size = a.type.components) (hfew : a.type.components ≤ 4)
    (hsome : 0 < a.type.components) (i nextId : NodeId) (folding : Bool) :
    let r := ((Node.attribute i a).generate .vertexMain).run { nextId, folding }
    r.2.Blank ∧ r.1.type = a.type ∧ r.1.functions = [] := by
  have hgen : (Node.attribute i a).generate .vertexMain = Step.readAttribute .vertexMain a := by
    unfold Node.generate
    cases (Node.attribute i a).id <;> rfl
  have hok : ¬ (a.size < 1 ∨ 4 < a.size ∨ a.size ≠ a.type.components) := by omega
  intro r
  have hrun : r = ((emit .vertexMain a.type [] (.name a.name) []) >>= fun g =>
      pure { g with attributes := [a] } : Eval Generated).run
        (Session.updateRegistry { nextId, folding } .vertex (·.addAttribute a)) := by
    unfold r
    rw [hgen]
    unfold Step.readAttribute
    rw [run_report_then, run_report_then, if_neg hok]
    rfl
  rw [hrun]
  exact ⟨⟨rfl, rfl, rfl, fun stage => by cases stage <;> rfl⟩, rfl, rfl⟩

/-- What compiling the fragment graph over such an attribute gives. -/
structure Compiled.Sound (V : Type u) (G : Graph) (n : Node) (r : Compiled) : Prop where
  errors : ∀ stage, (r.session.registry stage).errors = []
  varyings : r.session.fragment.varyings = []
  type : ∀ t, n.type? = some t → r.fragment.type = t
  defines : Function.Defines V G r.session.fragment.uniforms r.fragmentProgram.functions
  functions : ∀ {id}, id ∈ Function.ids r.fragmentProgram.functions ↔
    ∃ name body, (Node.defun id name body).Within n
  main : ∀ (I : Interpretation V) (q : V), ∃ ρ,
    exec I r.fragmentProgram.main (Store.initial I r.session.fragment) = some ρ ∧
      (¬ n.isFunction → r.fragment.var.value I ρ = some (n.valueAt I q))

theorem Compiled.fragmentProgram_functions (r : Compiled) :
    r.fragmentProgram.functions = Function.flattenAll [] r.fragment.functions := by
  simp [fragmentProgram, StageProgram.ofResult]

theorem suits_initial (hs : s.Blank) (I : Interpretation V) (q : V) (r : Registry)
    (hmain : ∀ {i name index type}, .argument i name index type ∈ G.nodes → home i ≠ h) :
    Suits I G home h q c (Store.initial I r) s where
  fresh k v _ hv := Store.initial_fresh r hv
  position hmem hid := absurd hid (hmain hmem)
  memo n _ _ _ e he := by
    rw [hs.memo] at he
    cases he

theorem compiled_sound (hG : G.Positional) (hlayers : G.Layered home) (hn : n ∈ G.nodes)
    (hat : n.At home h) (hmain : ∀ {i name index type}, .argument i name index type ∈ G.nodes → home i ≠ h)
    {vertex : Node} {nextId : NodeId} {folding : Bool}
    (hblank : ((vertex.generate .vertexMain).run { nextId, folding }).2.Blank) :
    (compiled vertex n folding nextId).Sound V G n := by
  unfold compiled
  dsimp only
  generalize ((vertex.generate .vertexMain).run { nextId, folding }).2 = s at hblank ⊢
  have hreg := regular_within hG n.id n .fragmentMain s
  have hperf := performs_within (V := V) hG hlayers n.id n .fragmentMain s
  change regular G n .fragmentMain s ((n.generate .fragmentMain).run s).1
    ((n.generate .fragmentMain).run s).2 _ at hreg
  change performs V G home n .fragmentMain s ((n.generate .fragmentMain).run s).1
    ((n.generate .fragmentMain).run s).2 _ at hperf
  generalize (n.generate .fragmentMain).run s = r at hreg hperf ⊢
  obtain ⟨hg, hs', hadds⟩ := hreg hn rfl (hblank.regular G)
  have hp := hperf hn rfl mem_cons_self (hblank.regular G) h hat (hblank.orderly V G home h)
  refine ⟨hs'.errors, hadds.varyings.trans hblank.varyings, hg.type, ?_, ?_, fun I q => ?_⟩
  · rw [Compiled.fragmentProgram_functions]
    exact hg.defines hs' hp.orderly hn
  · intro id
    rw [Compiled.fragmentProgram_functions]
    exact hg.mem_ids_iff hG hs' hn
  · obtain ⟨ρ, hρ⟩ := hp.runs I q _ (suits_initial hblank I q r.2.fragment hmain)
      (Store.binds_initial I r.2.fragment).uniforms
    exact ⟨ρ, hρ.exec, hρ.value⟩

end

end ShaderGraph
