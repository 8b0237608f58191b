import ShaderGraph.Proofs.Captures
import ShaderGraph.Proofs.Declarations
import ShaderGraph.Proofs.Typing

/-!
# Derivations of results

A node may be evaluated more than once in a session, since a remembered result cannot always be
used. All its results are alike: they have one type, and they capture the same parameters and
running sums. So a result can be traced back to results of the operands that any other evaluation
would find too, and a varying has the type it was registered with. A running sum is the exception
that holds the rest together: it is numbered when it is evaluated, and it is evaluated once.

All of this is about sessions without errors. The type of a result is then the one that its
variable, or the resource it reads, is declared with.
-/

namespace ShaderGraph

open Eval List

variable {t : GlType} {g h body : Generated} {gs hs : List Generated} {n start : Node} {c : Scope}
  {ns : List Node} {id : NodeId} {s s' : Session}

/-! ## Declared types -/

/-- The names of a session and the types they are declared with. -/
inductive Session.Types (s : Session) : String → GlType → Prop where
  | declared {type : GlType} {v : String} {e : Expr} (h : s.Declares type v e) : Types s v type
  | uniform {stage : Stage} {u : Uniform} (hu : u ∈ (s.registry stage).uniforms) : Types s u.name u.type
  | attribute {stage : Stage} {a : Attribute} (ha : a ∈ (s.registry stage).attributes) :
      Types s a.name a.type
  | varying {v : VaryingDef} (hv : v ∈ s.fragment.varyings) : Types s v.name v.type
  | function {f : Function} (hf : s.Has f) : Types s f.name .function

/-- The type of an operand, given the types of names. -/
inductive Atom.HasType (Γ : String → GlType → Prop) : Atom → GlType → Prop where
  | name {r : String} {t : GlType} (h : Γ r t) : HasType Γ (.name r) t
  | float (v : Float32) : HasType Γ (.float v) .float
  | bool (b : Bool) : HasType Γ (.bool b) .bool

/-- The variable of a result is declared with its type. -/
def Generated.Typed (s : Session) (g : Generated) : Prop := g.var.HasType s.Types g.type

theorem Session.Types.mono {r : String} (h : s.Types r t) (hg : s.Grows s') : s'.Types r t := by
  cases h with
  | declared h => exact .declared (h.mono hg)
  | uniform hu => exact .uniform ((hg.registry _).uniforms hu)
  | «attribute» ha => exact .attribute ((hg.registry _).attributes ha)
  | varying hv => exact .varying ((hg.registry .fragment).varyings.subset hv)
  | function hf => exact .function (hf.mono hg)

theorem Atom.HasType.mono {Γ Δ : String → GlType → Prop} {a : Atom} (h : a.HasType Γ t)
    (hΓ : ∀ {r t}, Γ r t → Δ r t) : a.HasType Δ t := by
  cases h with
  | name h => exact .name (hΓ h)
  | float v => exact .float v
  | bool b => exact .bool b

theorem Generated.Typed.mono (h : g.Typed s) (hg : s.Grows s') : g.Typed s' :=
  Atom.HasType.mono h fun h => h.mono hg

/-! ## Results that are alike -/

/-- Two results that evaluation cannot tell apart but by their names and code. -/
structure Generated.Alike (g h : Generated) : Prop where
  type : g.type = h.type
  arguments : g.arguments = h.arguments
  accumulators : g.accumulators = h.accumulators
  function : g.function = h.function

namespace Generated.Alike

theorem refl (g : Generated) : g.Alike g := ⟨rfl, rfl, rfl, rfl⟩

theorem symm (a : g.Alike h) : h.Alike g :=
  ⟨a.type.symm, a.arguments.symm, a.accumulators.symm, a.function.symm⟩

theorem trans {k : Generated} (a : g.Alike h) (b : h.Alike k) : g.Alike k :=
  ⟨a.type.trans b.type, a.arguments.trans b.arguments, a.accumulators.trans b.accumulators,
    a.function.trans b.function⟩

theorem ofBare (hg : g.Bare) (hh : h.Bare) (ht : g.type = h.type) : g.Alike h :=
  ⟨ht, hg.arguments.trans hh.arguments.symm, hg.accumulators.trans hh.accumulators.symm,
    hg.function.trans hh.function.symm⟩

theorem gather {type type' : GlType} {own own' : List Stmt} {v v' : Atom} {x y : Extras} (htype : type = type')
    (hdeps : Forall₂ Alike gs hs) (hargs : x.arguments = y.arguments)
    (haccs : x.accumulators = y.accumulators) :
    ((Generated.gather type own v gs).extend x).Alike ((Generated.gather type' own' v' hs).extend y) where
  type := htype
  arguments := congrArg₂ adjoin (gathered_eq_of_forall₂ hdeps arguments []) hargs
  accumulators := congrArg₂ adjoin (gathered_eq_of_forall₂ hdeps accumulators []) haccs
  function := rfl

theorem getLast?_function (h : Forall₂ Alike gs hs) :
    gs.getLast?.bind (·.function) = hs.getLast?.bind (·.function) := by
  have hlast := forall₂_getLast? h
  generalize gs.getLast? = a, hs.getLast? = b at hlast
  cases hlast with
  | none => rfl
  | some hg => exact hg.function

end Generated.Alike

theorem Node.form_alike {folding : Bool} {φ ψ : Form} (hlen : gs.length = n.operands.length)
    (h : Forall₂ Generated.Alike gs hs) (hφ : n.form? folding gs = some φ)
    (hψ : n.form? folding hs = some ψ) (j k : Nat) : (φ.result j).Alike (ψ.result k) := by
  have htypes := map_eq_of_forall₂ h Generated.Alike.type
  have hfold {χ ω : Form} {fold? : List Float32 → Option Float32} (hχ : χ.extras = {})
      (hω : ω.extras = {}) (htype : χ.type = ω.type) (hdeps : Forall₂ Generated.Alike χ.deps ω.deps) :
      ((χ.fold folding fold?).result j).Alike ((ω.fold folding fold?).result k) := by
    obtain ⟨hχargs, hχaccs⟩ := χ.fold_captures folding fold? hχ
    obtain ⟨hωargs, hωaccs⟩ := ω.fold_captures folding fold? hω
    refine .gather ?_ ?_ (hχargs.trans hωargs.symm) (hχaccs.trans hωaccs.symm)
    · rw [χ.fold_type, ω.fold_type, htype]
    · rwa [χ.fold_deps, ω.fold_deps]
  cases n with
  | coordinate | resolution | constant | argument =>
    cases hφ
    cases hψ
    exact .gather rfl .nil rfl rfl
  | operator id op args =>
    obtain ⟨-, rfl⟩ := form_operator hφ
    obtain ⟨-, rfl⟩ := form_operator hψ
    exact hfold rfl rfl (congrArg op.resultType htypes) h
  | builtin id f args =>
    cases hφ
    cases hψ
    exact hfold rfl rfl (congrArg f.resultType htypes) h
  | construct id q args =>
    cases hφ
    cases hψ
    exact .gather rfl h rfl rfl
  | swizzle id m fields =>
    obtain ⟨g, rfl⟩ := length_eq_one_iff.mp hlen
    cases h with
    | cons hg hnil =>
      cases hnil
      cases hφ
      cases hψ
      exact .gather rfl (.cons hg .nil) rfl rfl
  | switch id cond yes no =>
    obtain ⟨gc, ga, gb, rfl⟩ := length_eq_three.mp hlen
    rcases h with _ | ⟨hc, _ | ⟨ha, _ | ⟨hb, _ | _⟩⟩⟩
    cases hφ
    cases hψ
    refine .gather ?_ (.cons hc (.cons ha (.cons hb .nil))) rfl rfl
    rw [ha.type, hb.type]
  | call id fn args =>
    simp only [Node.form?, Generated.Alike.getLast?_function h] at hφ hψ
    split at hφ
    · next f hf =>
      rw [hf] at hψ
      cases hφ
      cases hψ
      exact .gather rfl (forall₂_dropLast h) rfl rfl
    · cases hφ
  | _ => cases hφ

/-! ## What a session knows of a node -/

/-- The type of what a node without operands reads. -/
def Node.leafType : Node → GlType
  | bool .. => .bool
  | uniform _ u => u.type
  | .attribute _ a => a.type
  | _ => .float

theorem Node.not_isMemoized_of_isImmediate (h : n.isImmediate) : ¬ n.isMemoized := by
  cases n <;> first | exact Bool.false_ne_true | cases h

/-- A result that an evaluation of the node in the session may have. -/
inductive Session.Knows (s : Session) : Node → Generated → Prop where
  | leaf {n : Node} {g : Generated} (hn : n.isImmediate) (hg : g.Bare) (ht : g.type = n.leafType) :
      Knows s n g
  | remembered {n : Node} {e : MemoEntry} {g : Generated} (hn : n.isMemoized) (he : (n.id, e) ∈ s.memo)
      (hg : g.Alike e.generated) : Knows s n g
  | function {id : NodeId} {name : String} {body : Node} {f : Function} (hf : (id, f) ∈ s.functions) :
      Knows s (.defun id name body) (Step.functionResult f)
  | varying {id : NodeId} {n : Node} {g : Generated} (h : Knows s n g) :
      Knows s (.varying id n) (.resource g.type (Step.varyingName id))

/-- A result of an operand, under the type that it is declared with. -/
structure Session.Operand (s : Session) (n : Node) (g : Generated) : Prop where
  known : s.Knows n g
  typed : g.Typed s

/-- How a remembered result comes from results of operands that passed the checks. -/
inductive Session.Derives (s : Session) : Node → Generated → Prop where
  | declared {n : Node} {c : Scope} {gs : List Generated} {φ : Form} {k : Nat}
      (hops : Forall₂ s.Operand n.operands gs) (hcheck : n.check c gs = [])
      (hφ : n.form? s.folding gs = some φ) : Derives s n (φ.result k)
  | broken {id : NodeId} {a b : Node} {cond value : Generated} (ha : s.Operand a cond)
      (hb : s.Operand b value) :
      Derives s (.breakIf id a b) (.gather value.type [.breakIf cond.var] value.var [cond, value])
  | loop {id : NodeId} {body count start m : Node} {gi gb gm : Generated} {s0 s1 : Session}
      {bind : Generated → Step.Binding} {k : Nat} (hcount : s.Operand count gi) (hfloat : gi.type = .float)
      (hbody : s.Operand body gb) (hopens : Opens gb start s0 m s1 bind) (hinit : s.Operand m gm)
      (hcast : Step.checkCast (GlType.promote [gb.type, gm.type]) gm = []) :
      Derives s (.sumLoop id body count start) (Step.loopResult gi gb (bind gm) k)
  | accumulator {id : NodeId} {name : String} {start : Node} {type : GlType} {j k : Nat} :
      Derives s (.accumulator id name start) ((Step.accumulatorForm name start type j).result k)

section
variable {G : Graph}

theorem Session.Knows.mono (hk : s.Knows n g) (hg : s.Grows s') : s'.Knows n g := by
  induction hk with
  | leaf hn hbare ht => exact .leaf hn hbare ht
  | remembered hn he halike => exact .remembered hn (hg.memo.subset he) halike
  | function hf => exact .function (hg.functions.subset hf)
  | varying _ ih => exact .varying ih

theorem Session.Operand.mono (ho : s.Operand n g) (hg : s.Grows s') : s'.Operand n g :=
  ⟨ho.known.mono hg, ho.typed.mono hg⟩

theorem Session.Derives.mono (hd : s.Derives n g) (hg : s.Grows s') : s'.Derives n g := by
  cases hd with
  | declared hops hcheck hφ =>
    exact .declared (hops.imp fun _ _ ho => ho.mono hg) hcheck (hg.folding ▸ hφ)
  | broken ha hb => exact .broken (ha.mono hg) (hb.mono hg)
  | loop hcount hfloat hbody hopens hinit hcast =>
    exact .loop (hcount.mono hg) hfloat (hbody.mono hg) hopens (hinit.mono hg) hcast
  | accumulator => exact .accumulator

/-! ## Coherent sessions -/

/-- A varying with the type of what its node passes on. -/
def Session.PassesOn (G : Graph) (s : Session) (v : VaryingDef) : Prop :=
  ∃ id n g, .varying id n ∈ G.nodes ∧ v.name = Step.varyingName id ∧ s.Knows n g ∧ v.type = g.type

/-- Remembered results are derived, have declared types and are alike for each node. -/
structure Session.Coherent (G : Graph) (s : Session) : Prop where
  derived : ∀ p ∈ s.memo, ∃ n ∈ G.nodes, n.isMemoized ∧ n.id = p.1 ∧ s.Derives n p.2.generated
  typed : ∀ p ∈ s.memo, p.2.generated.Typed s
  alike : ∀ p ∈ s.memo, ∀ q ∈ s.memo, p.1 = q.1 → p.2.generated.Alike q.2.generated
  varyings : ∀ v ∈ s.fragment.varyings, s.PassesOn G v

theorem Session.PassesOn.mono {v : VaryingDef} (hv : s.PassesOn G v) (hg : s.Grows s') :
    s'.PassesOn G v := by
  obtain ⟨id, n, g, hn, hname, hk, ht⟩ := hv
  exact ⟨id, n, g, hn, hname, hk.mono hg, ht⟩

theorem Session.Coherent.initial (G : Graph) (nextId : NodeId) (folding : Bool) :
    Session.Coherent G { nextId, folding } :=
  ⟨forall_mem_nil _, forall_mem_nil _, forall_mem_nil _,
    forall_mem_nil _⟩

namespace Session.Coherent
variable (hc : s.Coherent G)
include hc

theorem congr (hg : s.Grows s') (hm : s'.memo = s.memo) (hv : ∀ v ∈ s'.fragment.varyings, s.PassesOn G v) :
    s'.Coherent G where
  derived p hp := by
    obtain ⟨n, hn, hmem, hid, hd⟩ := hc.derived p (hm ▸ hp)
    exact ⟨n, hn, hmem, hid, hd.mono hg⟩
  typed p hp := (hc.typed p (hm ▸ hp)).mono hg
  alike p hp q hq := hc.alike p (hm ▸ hp) q (hm ▸ hq)
  varyings v hv' := (hv v hv').mono hg

theorem advance {vs : List String} (ha : s.Advance c vs s') : s'.Coherent G :=
  hc.congr (.advance ha) ha.memo fun v hv => hc.varyings v (ha.varyings .fragment ▸ hv)

theorem openScope : s.openScope.Coherent G :=
  hc.congr (.openScope s) rfl hc.varyings

theorem unique (ho : s.Once G) (hg : s.Knows n g) (hh : s.Knows n h) : g.Alike h := by
  induction hg generalizing h with
  | leaf hn hbare ht =>
    cases hh with
    | leaf _ hbare' ht' => exact .ofBare hbare hbare' (ht.trans ht'.symm)
    | remembered hm => exact absurd hm (Node.not_isMemoized_of_isImmediate hn)
    | function | varying => cases hn
  | remembered hn he halike =>
    cases hh with
    | leaf hi => exact absurd hn (Node.not_isMemoized_of_isImmediate hi)
    | remembered _ he' halike' => exact (halike.trans (hc.alike _ he _ he' rfl)).trans halike'.symm
    | function | varying => cases hn
  | function hf =>
    cases hh with
    | leaf hn => cases hn
    | remembered hn => cases hn
    | function hf' =>
      obtain rfl := congrArg Prod.snd (inj_on_of_nodup_map ho.nodup hf hf' rfl)
      exact .refl _
  | varying _ ih =>
    cases hh with
    | leaf hn => cases hn
    | remembered hn => cases hn
    | varying hk => exact ⟨(ih hk).type, rfl, rfl, rfl⟩

theorem unique_all (ho : s.Once G) (hg : Forall₂ s.Operand ns gs)
    (hh : Forall₂ s.Operand ns hs) : Forall₂ Generated.Alike gs hs := by
  induction hg generalizing hs with
  | nil =>
    cases hh
    exact .nil
  | cons ha _ ih =>
    cases hh with
    | cons hb hrest => exact .cons (hc.unique ho ha.known hb.known) (ih hrest)

end Session.Coherent

theorem Opens.alike {body' : Generated} {m m' : Node} {s0 s1 s0' s1' : Session}
    {bind bind' : Generated → Step.Binding} (hb : body.Alike body') (ho : Opens body start s0 m s1 bind)
    (ho' : Opens body' start s0' m' s1' bind') :
    m = m' ∧ ∀ g g', (bind g).arguments = (bind' g').arguments ∧
      (bind g).accumulators = (bind' g').accumulators := by
  have haccs := hb.accumulators
  have hargs := hb.arguments
  cases ho with
  | accumulated ha =>
    cases ho' with
    | accumulated ha' =>
      rw [ha, ha'] at haccs
      cases haccs
      exact ⟨rfl, fun _ _ => ⟨hargs, rfl⟩⟩
    | parameter ha' | own ha' => simp [ha, ha'] at haccs
  | parameter ha hlow =>
    cases ho' with
    | accumulated ha' => simp [ha, ha'] at haccs
    | parameter ha' hlow' =>
      rw [hargs, hlow'] at hlow
      cases hlow
      exact ⟨rfl, fun _ _ => ⟨by rw [hargs], rfl⟩⟩
    | own ha' hlow' => simp [hargs, hlow'] at hlow
  | own ha hlow =>
    cases ho' with
    | accumulated ha' => simp [ha, ha'] at haccs
    | parameter ha' hlow' => simp [hargs, hlow'] at hlow
    | own => exact ⟨rfl, fun _ _ => ⟨rfl, rfl⟩⟩

theorem Session.Derives.alike (hs : s.Coherent G) (ho : s.Once G) (hg : s.Derives n g)
    (hh : s.Derives n h) (hn : ∀ id name start, n ≠ .accumulator id name start) : g.Alike h := by
  cases hg with
  | declared hops hcheck hφ =>
    cases hh with
    | declared hops' hcheck' hφ' =>
      exact Node.form_alike hops.length_eq.symm (hs.unique_all ho hops hops') hφ hφ' _ _
    | broken | loop => cases hφ
    | accumulator => exact absurd rfl (hn _ _ _)
  | broken ha hb =>
    cases hh with
    | declared _ _ hφ => cases hφ
    | broken ha' hb' =>
      have hb := hs.unique ho hb.known hb'.known
      have hdeps := Forall₂.cons (hs.unique ho ha.known ha'.known) (.cons hb .nil)
      exact .gather (x := {}) (y := {}) hb.type hdeps rfl rfl
  | loop hcount hfloat hbody hopens hinit hcast =>
    cases hh with
    | declared _ _ hφ => cases hφ
    | loop hcount' hfloat' hbody' hopens' hinit' hcast' =>
      have hc := hs.unique ho hcount.known hcount'.known
      have hb := hs.unique ho hbody.known hbody'.known
      obtain ⟨rfl, hcaptured⟩ := hopens.alike hb hopens'
      have hm := hs.unique ho hinit.known hinit'.known
      refine .gather ?_ ?_ (hcaptured _ _).1 (hcaptured _ _).2
      · rw [hopens.initial, hopens'.initial, hb.type, hm.type]
      · rw [hopens.initial, hopens'.initial]
        exact .cons hm (.cons hc .nil)
  | accumulator => exact absurd rfl (hn _ _ _)

/-- No errors are recorded for either stage. -/
def Session.Clean (s : Session) : Prop := ∀ stage, (s.registry stage).errors = []

theorem Session.Clean.of_grows (hc : s'.Clean) (hg : s.Grows s') : s.Clean :=
  fun stage => (hg.registry stage).errors_nil (hc stage)

theorem Session.Clean.report {es : List GraphError} (hc : (s.report c es).Clean) : es = [] := by
  have h := hc c.stage
  simp only [Session.report, Session.registry_update_self, Registry.addErrors,
    append_eq_nil_iff] at h
  exact h.2

theorem Session.Coherent.remember (hs : s.Coherent G) (ho : s.Once G) (hG : G.Shared) (hn : n ∈ G.nodes)
    (hm : n.isMemoized) (hd : s.Derives n g) (c : Scope) (ht : g.Typed (s.remember c n.id g))
    (hnew : ∀ id name start, n = .accumulator id name start → ∀ p ∈ s.memo, p.1 ≠ n.id) :
    (s.remember c n.id g).Operand n g ∧ (s.remember c n.id g).Coherent G := by
  have hg : s.Grows (s.remember c n.id g) := .remember ..
  have hold : ∀ p ∈ s.memo, p.1 = n.id → g.Alike p.2.generated := by
    intro p hp hid
    obtain ⟨k, hk, -, hkid, hkd⟩ := hs.derived p hp
    obtain rfl := hG k hk n hn (hkid.trans hid)
    exact hd.alike hs ho hkd fun id name start he => hnew id name start he p hp hid
  refine ⟨⟨.remembered hm mem_cons_self (.refl g), ht⟩, ?_, ?_, ?_, ?_⟩
  · refine forall_mem_cons.mpr ⟨⟨n, hn, hm, rfl, hd.mono hg⟩, fun p hp => ?_⟩
    obtain ⟨k, hk, hkm, hid, hkd⟩ := hs.derived p hp
    exact ⟨k, hk, hkm, hid, hkd.mono hg⟩
  · exact forall_mem_cons.mpr ⟨ht, fun p hp => (hs.typed p hp).mono hg⟩
  · refine forall_mem_cons.mpr ⟨?_, fun p hp => ?_⟩
    · exact forall_mem_cons.mpr ⟨fun _ => .refl g, fun q hq hid => hold q hq hid.symm⟩
    · exact forall_mem_cons.mpr ⟨fun hid => (hold p hp hid).symm, hs.alike p hp⟩
  · exact fun v hv => (hs.varyings v hv).mono hg

/-- A running sum is evaluated once: what is remembered of it declares its variable only, so that
every scope can use it. -/
theorem Session.Coherent.not_mem_of_lookup (hs : s.Coherent G) (hG : G.Shared) {name : String}
    (hn : .accumulator id name start ∈ G.nodes) (hl : s.lookup? c id = none) : ∀ p ∈ s.memo, p.1 ≠ id := by
  rintro p hp rfl
  have hsome : (s.memo.lookup p.1).isSome := by
    rw [lookup_isSome_iff]
    exact ⟨p, hp, by simp⟩
  obtain ⟨e, he⟩ := Option.isSome_iff_exists.mp hsome
  obtain ⟨k, hk, -, hid, hd⟩ := hs.derived _ (mem_of_lookup he)
  obtain rfl := hG k hk _ hn hid
  have hdeclared : e.generated.declared = [e.generated.var.text] := by
    generalize e.generated = g at hd
    cases hd with
    | declared _ _ hφ => cases hφ
    | accumulator => rfl
  simp only [lookup?, he, hdeclared, any_cons, any_nil, Bool.or_false] at hl
  split_ifs at hl

theorem Step.varyingName_inj {i j : NodeId} (h : varyingName i = varyingName j) : i = j := by
  have h := congrArg String.toList h
  simp only [varyingName, String.toList_append] at h
  exact numeral_inj (append_cancel_left h)

theorem Session.Coherent.varying_type (hs : s.Coherent G) (hG : G.Shared) (ho : s.Once G)
    (hn : .varying id n ∈ G.nodes) (hg : s.Knows n g) :
    ∀ v ∈ s.fragment.varyings, v.name = Step.varyingName id → v.type = g.type := by
  intro v hv hname
  obtain ⟨j, m, h, hm, hname', hh, ht⟩ := hs.varyings v hv
  obtain rfl := Step.varyingName_inj (hname'.symm.trans hname)
  cases hG _ hm _ hn rfl
  rw [ht, (hs.unique ho hh hg).type]

theorem Step.sumLoop_errors {count : Generated} {b : Binding} (h : (sumLoop c count body b).run s = (g, s')) :
    (s'.registry c.stage).errors =
      (s.registry c.stage).errors ++ checkCast (GlType.promote [body.type, b.initial.type]) b.initial := by
  unfold sumLoop at h
  simp only [run_bind, run_fresh, run_cast] at h
  cases h
  change (((s.bump.report c _).mark c _).registry c.stage).errors = _
  simp [Session.report, Registry.addErrors]

/-! ## Every evaluation -/

def coherent (G : Graph) : Judgement := fun n _ s g s' _ =>
  n ∈ G.nodes → s'.Clean → s.Sound G → s.Coherent G → s'.Operand n g ∧ s'.Coherent G

theorem coherent_threads {t : Trace} (h : Threads ((grows.both (sound G)).both (coherent G)) c ns s gs s' t)
    (hns : ∀ n ∈ ns, n ∈ G.nodes) (hclean : s'.Clean) (hsound : s.Sound G) (hs : s.Coherent G) :
    Forall₂ s'.Operand ns gs ∧ s'.Coherent G := by
  induction h with
  | nil => exact ⟨.nil, hs⟩
  | cons hn hrest ih =>
    obtain ⟨hmem, hns⟩ := forall_mem_cons.mp hns
    have hgrows := hrest.growing fun h => h.1.1
    obtain ⟨hg, hs1⟩ := hn.2 hmem (hclean.of_grows hgrows) hsound hs
    obtain ⟨hgs, hs'⟩ := ih hns hclean (hn.1.2 hmem hsound).2 hs1
    exact ⟨.cons (hg.mono hgrows) hgs, hs'⟩

theorem typed_of_declares {v : String} {e : Expr} (hv : g.var = .name v) (hg : .decl g.type v e ∈ g.code.stmts) :
    g.Typed (s.remember c id g) := by
  rw [Generated.Typed, hv]
  exact .name (.declared ⟨_, mem_cons_self, hg⟩)

theorem coherent_outcome (hG : G.Shared) (hn : n ∈ G.nodes) (hp : n.isPlain)
    (hgs : Forall₂ s.Operand n.operands gs) (hsound : s.Sound G) (hs : s.Coherent G)
    (ho : Outcome n c gs s g s') (hclean : s'.Clean) :
    (s'.remember c n.id g).Operand n g ∧ (s'.remember c n.id g).Coherent G := by
  have hm := isMemoized_of_isPlain hp
  have hgrows := ho.grows
  obtain ⟨vs, ha⟩ := ho.advance
  have hsound' := hsound.advance ha
  have hs' := hs.advance ha
  have hacc : ∀ id name start, n ≠ .accumulator id name start := by
    rintro id name start rfl
    cases hp
  cases ho with
  | declared φ hφ hg hses =>
    have hcheck : n.check c gs = [] := by
      have h := hclean c.stage
      rw [hses, φ.session_errors] at h
      exact (append_eq_nil_iff.mp h).2
    have hd : s'.Derives n g := hg ▸ .declared (hgs.imp fun _ _ h => h.mono hgrows) hcheck
      (hgrows.folding ▸ hφ)
    have ht : g.Typed (s'.remember c n.id g) := by
      subst hg
      exact typed_of_declares rfl mem_concat_self
    exact hs'.remember hsound'.once hG hn hm hd c ht fun id name start he => absurd he (hacc id name start)
  | @broken id a b cond value es hn' hgs' hg hses =>
    subst hn' hgs' hg
    cases hgs with
    | cons hc hrest =>
      cases hrest with
      | cons hv _ =>
        have hd : s'.Derives (.breakIf id a b) _ := .broken (hc.mono hgrows) (hv.mono hgrows)
        refine hs'.remember hsound'.once hG hn rfl hd c ?_ fun _ _ _ he => (nomatch he)
        exact hv.typed.mono (hgrows.trans (.remember ..))
  | failed herr => exact absurd (hclean c.stage) herr

theorem coherent_rules (hG : G.Shared) : Rules (grows.both (sound G)) (coherent G) where
  immediate := by
    intro n c s g s' vs hi hr hbare _ ha _ hn hclean _ hs
    refine ⟨?_, hs.advance ha⟩
    cases n with
    | absent =>
      cases hr
      exact absurd hclean.report (cons_ne_nil _ _)
    | float id v =>
      cases hr
      exact ⟨.leaf rfl hbare rfl, .float v⟩
    | bool id b =>
      cases hr
      exact ⟨.leaf rfl hbare rfl, .bool b⟩
    | uniform id u =>
      obtain ⟨rfl, es, rfl⟩ := Step.readUniform_eq hr
      have hu : u ∈ ((((s.report c es).updateRegistry c.stage (·.addUniforms [u])).mark c
          [u.name]).registry c.stage).uniforms := by
        simp [Registry.addUniforms, Registry.addUniform, mem_adjoin_iff]
      exact ⟨.leaf rfl hbare rfl, .name (.uniform hu)⟩
    | «attribute» id a =>
      obtain ⟨rfl, es, -, rfl⟩ := Step.readAttribute_eq hr
      have ha : a ∈ ((((s.report c es).updateRegistry c.stage (·.addAttribute a)).mark c
          [a.name]).registry c.stage).attributes := by
        simp [Registry.addAttribute, mem_adjoin_iff]
      exact ⟨.leaf rfl hbare rfl, .name (.attribute ha)⟩
    | _ => cases hi
  reuse hm _ ht ha hA _ _ _ hs := by
    refine ⟨?_, hs.advance ha⟩
    have hgrows := hA.1
    cases ht with
    | reference he =>
      have hmem := mem_of_lookup he
      exact ⟨.remembered hm (hgrows.memo.subset hmem) ⟨rfl, rfl, rfl, rfl⟩, (hs.typed _ hmem).mono hgrows⟩
    | again he | whole he =>
      have hmem := mem_of_lookup he
      exact ⟨.remembered hm (hgrows.memo.subset hmem) (.refl _), (hs.typed _ hmem).mono hgrows⟩
  compute hp _ ht _ ho _ hn hclean hsound hs := by
    have hops := fun m hm => G.operand_mem hp hn (m := m) hm
    have hclean2 := hclean.of_grows (.remember ..)
    obtain ⟨hgs, hs1⟩ := coherent_threads ht hops (hclean2.of_grows ho.grows) hsound hs
    exact coherent_outcome hG hn hp hgs (sound_threads ht hops hsound).2 hs1 ho hclean2
  loop := by
    intro id body count start c s gi s1 t1 s2 gb s3 t2 m s4 bind gm s5 t3 g s6
      _ hcount hcheck ha2 hbody hopens hinit hr hg ha6 _ hn hclean hsound hs
    obtain ⟨hc, hb, hstart⟩ := G.loop_mem hn
    -- what is clean in the end was clean all along
    have hclean6 : s6.Clean := hclean.of_grows (.remember ..)
    have hclean5 := hclean6.of_grows (.advance ha6)
    have hclean3 := (hclean5.of_grows hinit.1.1).of_grows hopens.grows
    have hclean2 := (hclean3.of_grows hbody.1.1).of_grows (.openScope s2)
    have hclean1 := hclean2.of_grows (.advance ha2)
    obtain ⟨hgi, hs1⟩ := hcount.2 hc hclean1 hsound hs
    have hsound1 := (hcount.1.2 hc hsound).2
    have hsound2 := (hsound1.advance ha2).openScope
    obtain ⟨hgb, hs3⟩ := hbody.2 hb hclean3 hsound2 (hs1.advance ha2).openScope
    obtain ⟨hgbs, hsound3⟩ := hbody.1.2 hb hsound2
    obtain ⟨hm, -⟩ := hopens.from hgbs.origin hstart gm
    have hsound4 := hopens.sound hsound3
    have hs4 := hs3.congr hopens.grows hopens.memo (hopens.varyings ▸ hs3.varyings)
    obtain ⟨hgm, hs5⟩ := hinit.2 hm hclean5 hsound4 hs4
    have hsound5 := (hinit.1.2 hm hsound4).2
    -- the operands are known to the session in which the loop is remembered
    have hg3 : s3.Grows s6 := (hopens.grows.trans hinit.1.1).trans (.advance ha6)
    have hg1 : s1.Grows s6 := (ha2.grows.trans (.openScope s2)).trans (Session.Grows.trans hbody.1.1 hg3)
    have hfloat : gi.type = .float := by
      by_contra hne
      simp only [Step.checkCount, if_pos hne] at hcheck
      subst hcheck
      exact absurd hclean2.report (cons_ne_nil _ _)
    have hcast : Step.checkCast (GlType.promote [gb.type, gm.type]) gm = [] := by
      have h := hclean6 c.stage
      rw [Step.sumLoop_errors hr, hopens.initial] at h
      exact (append_eq_nil_iff.mp h).2
    subst hg
    have hd : s6.Derives (.sumLoop id body count start) (Step.loopResult gi gb (bind gm) s5.counter) :=
      .loop (hgi.mono hg1) hfloat (hgb.mono hg3) hopens (hgm.mono (.advance ha6)) hcast
    refine (hs5.advance ha6).remember (hsound5.advance ha6).once hG hn rfl hd c ?_
      fun _ _ _ he => (nomatch he)
    exact typed_of_declares rfl (mem_append_right _ mem_cons_self)
  accumulator := by
    rintro id name start c s s1 g0 s0 t0 g s2 s3 hl _ _ _ ha rfl rfl _ hn hclean hsound hs
    have hform := (Step.accumulatorForm name start g0.type s3.counter).advance c [] s3.bump
    have hall := ha.trans (.bump c s3)
    have hs2 := (hs.advance hall).advance hform
    have hsound2 := (hsound.advance hall).advance hform
    refine hs2.remember hsound2.once hG hn rfl .accumulator c ?_ fun _ _ _ _ p hp => ?_
    · exact typed_of_declares rfl mem_concat_self
    · rw [hform.memo, hall.memo] at hp
      exact hs.not_mem_of_lookup hG hn hl p hp
  knownFunction := by
    rintro id name body c s f g s' hf _ rfl ha hA hn _ _ hs
    have hmem := hA.1.functions.subset (mem_of_lookup hf)
    exact ⟨⟨.function hmem, .name (.function ⟨_, hmem⟩)⟩, hs.advance ha⟩
  newFunction := by
    rintro id name body c s gb s1 t f s2 g s3 _ hb _ _ rfl rfl ha _ hn hclean hsound hs
    have hdefine := Session.Grows.define s1 id (Step.functionOf id name gb)
    have hclean1 := (hclean.of_grows ha.grows).of_grows hdefine
    have hs1 := (hb.2 (G.only_mem hn rfl) hclean1 hsound.openScope hs.openScope).2
    have hmem : (id, Step.functionOf id name gb) ∈ s3.functions := by
      rw [ha.functions]
      exact mem_cons_self
    exact ⟨⟨.function hmem, .name (.function ⟨_, hmem⟩)⟩, (hs1.congr hdefine rfl hs1.varyings).advance ha⟩
  varying := by
    intro id n c s g s1 t r s2 hc hop hr hA hn hclean hsound hs
    have hchild := G.only_mem hn rfl
    have hgrows := Step.readVarying_grows hr
    have hvaryings := Step.readVarying_varyings hc.1 hr
    obtain ⟨hg, hs1⟩ := hop.2 hchild (hclean.of_grows hgrows) hsound hs
    obtain ⟨-, hsound1⟩ := hop.1.2 hchild hsound
    obtain ⟨s3, ha, rfl, hs2⟩ := Step.readVarying_eq hr
    have hmemo : s2.memo = s1.memo := by
      rw [hs2, (s3.updateRegistry_same ..).2.2.1, ha.memo]
    have hknown : s2.Knows (.varying id n) _ := .varying (hg.known.mono hgrows)
    by_cases hhas : s1.hasVarying c.stage (Step.varyingName id)
    · rw [if_pos hhas] at hvaryings
      rw [hc.1] at hhas
      obtain ⟨v, hv, hname⟩ := any_eq_true.mp hhas
      have hname := eq_of_beq hname
      have htype := hs1.varying_type hG hsound1.once hn hg.known v hv hname
      refine ⟨⟨hknown, ?_⟩, hs1.congr hgrows hmemo (hvaryings ▸ hs1.varyings)⟩
      rw [← htype, ← hname]
      exact .name (.varying (hvaryings ▸ hv))
    · rw [if_neg hhas] at hvaryings
      have hnew : Step.varyingDef id g ∈ s2.fragment.varyings := by simp [hvaryings]
      refine ⟨⟨hknown, .name (.varying hnew)⟩, hs1.congr hgrows hmemo ?_⟩
      rw [hvaryings]
      rintro v hv
      rcases mem_append.mp hv with hv | hv
      · exact hs1.varyings v hv
      · rw [mem_singleton.mp hv]
        exact ⟨id, n, g, hn, rfl, hg.known, rfl⟩
  strayVarying _ hop _ _ hclean := absurd (hclean.of_grows hop.1.1).report (cons_ne_nil _ _)
  exhausted hr _ _ hclean := by
    cases hr
    exact absurd hclean.report (cons_ne_nil _ _)

theorem coherent_everywhere (hG : G.Shared) : (coherent G).Everywhere :=
  (coherent_rules hG).everywhere (grows_everywhere.both (sound_everywhere hG))

end

end ShaderGraph
