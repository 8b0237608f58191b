import ShaderGraph.Proofs.Programs

/-!
# Declarations of a session

What a session declares stands in its remembered results. In a graph without loops every
declaration takes a number of its own, so a variable is declared in one way only, however often
the results that declare it are reused; and the code of results, functions and varyings declares
nothing else.
-/

namespace ShaderGraph

open Eval List

variable {type : GlType} {v : String} {e : Expr} {ss : List Stmt} {gs : List Generated} {G : Graph}

def Graph.LoopFree (G : Graph) : Prop := ∀ id body count start, Node.sumLoop id body count start ∉ G.nodes

def Session.Declares (s : Session) (type : GlType) (v : String) (e : Expr) : Prop :=
  ∃ p ∈ s.memo, .decl type v e ∈ p.2.generated.code.stmts

/-- All that is declared at the level of the statements, the session declares. -/
def Session.Covers (s : Session) (ss : List Stmt) : Prop :=
  ∀ type v e, .decl type v e ∈ ss → s.Declares type v e

/-- Every variable is declared in one way. -/
structure Session.Single (s : Session) : Prop where
  numbered : ∀ {type v e}, s.Declares type v e → ∃ k < s.counter, Numbered k v
  unique : ∀ {type type' v e e'}, s.Declares type v e → s.Declares type' v e' → type = type' ∧ e = e'
  functions : ∀ p ∈ s.functions, s.Covers p.2.body
  varyings : ∀ v ∈ s.fragment.varyings, s.Covers v.code

section
variable {s s' : Session} {c : Scope} {g : Generated}

theorem Session.Declares.mono (h : s.Declares type v e) (hg : s.Grows s') : s'.Declares type v e := by
  obtain ⟨p, hp, he⟩ := h
  exact ⟨p, hg.memo.subset hp, he⟩

theorem Session.Covers.mono (h : s.Covers ss) (hg : s.Grows s') : s'.Covers ss :=
  fun type v e he => (h type v e he).mono hg

theorem Session.covers_nil (s : Session) : s.Covers [] := fun _ _ _ he => (nomatch he)

theorem Session.covers_append {ts : List Stmt} (hs : s.Covers ss) (ht : s.Covers ts) :
    s.Covers (ss ++ ts) := fun type v e he =>
  (mem_append.mp he).elim (hs type v e) (ht type v e)

theorem Session.covers_flatMap (h : ∀ g ∈ gs, s.Covers g.code.stmts) :
    s.Covers (gs.flatMap (·.code.stmts)) := fun type v e he => by
  obtain ⟨g, hg, he⟩ := mem_flatMap.mp he
  exact h g hg type v e he

namespace Session.Single

theorem initial (nextId : NodeId) (folding : Bool) : Session.Single { nextId, folding } where
  numbered h := by obtain ⟨p, hp, -⟩ := h; cases hp
  unique h := by obtain ⟨p, hp, -⟩ := h; cases hp
  functions p hp := by cases hp
  varyings v hv := by cases hv

theorem congr (h : s.Single) (hg : s.Grows s') (hm : s'.memo = s.memo)
    (hf : ∀ p ∈ s'.functions, s.Covers p.2.body)
    (hv : ∀ v ∈ s'.fragment.varyings, s.Covers v.code) : s'.Single := by
  have hback {type v e} (hd : s'.Declares type v e) : s.Declares type v e := by
    obtain ⟨p, hp, he⟩ := hd
    exact ⟨p, hm ▸ hp, he⟩
  exact
    { numbered := fun hd => by
        obtain ⟨k, hk, hv⟩ := h.numbered (hback hd)
        exact ⟨k, hk.trans_le hg.counter, hv⟩
      unique := fun hd hd' => h.unique (hback hd) (hback hd')
      functions := fun p hp => (hf p hp).mono hg
      varyings := fun v hv' => (hv v hv').mono hg }

theorem advance {vs : List String} (h : s.Single) (ha : s.Advance c vs s') : s'.Single :=
  h.congr (.advance ha) ha.memo (fun p hp => h.functions p (ha.functions ▸ hp))
    fun v hv => h.varyings v (ha.varyings .fragment ▸ hv)

theorem openScope (h : s.Single) : s.openScope.Single :=
  h.congr (.openScope s) rfl h.functions h.varyings

theorem remember (h : s.Single) (hg : s.Covers g.code.stmts) (c : Scope) (id : NodeId) :
    (s.remember c id g).Single := by
  have hback {type v e} (hd : (s.remember c id g).Declares type v e) : s.Declares type v e := by
    obtain ⟨p, hp, he⟩ := hd
    rcases mem_cons.mp hp with rfl | hp
    · exact hg type v e he
    · exact ⟨p, hp, he⟩
  exact
    { numbered := fun hd => h.numbered (hback hd)
      unique := fun hd hd' => h.unique (hback hd) (hback hd')
      functions := fun p hp => (h.functions p hp).mono (.remember ..)
      varyings := fun v hv => (h.varyings v hv).mono (.remember ..) }

theorem declare (h : s.Single) (hg : g.code.stmts = ss ++ [.decl type v e]) (hss : s.Covers ss)
    (hv : Numbered s.counter v) (hgrows : s.Grows s') (hm : s'.memo = s.memo) (hf : s'.functions = s.functions)
    (hvar : s'.fragment.varyings = s.fragment.varyings) (hcount : s.counter < s'.counter) (c : Scope)
    (id : NodeId) : (s'.remember c id g).Covers g.code.stmts ∧ (s'.remember c id g).Single := by
  have hgrows' : s.Grows (s'.remember c id g) := hgrows.trans (.remember ..)
  have hback {type' v' e'} (hd : (s'.remember c id g).Declares type' v' e') :
      s.Declares type' v' e' ∨ type' = type ∧ v' = v ∧ e' = e := by
    obtain ⟨p, hp, he⟩ := hd
    rcases mem_cons.mp hp with rfl | hp
    · have he : Stmt.decl type' v' e' ∈ g.code.stmts := he
      rw [hg, mem_append, mem_singleton] at he
      rcases he with he | he
      · exact .inl (hss _ _ _ he)
      · cases he
        exact .inr ⟨rfl, rfl, rfl⟩
    · exact .inl ⟨p, hm ▸ hp, he⟩
  have hnew {type' e'} (hd : s.Declares type' v e') : False := by
    obtain ⟨k, hk, hn⟩ := h.numbered hd
    exact absurd (hn.unique hv) hk.ne
  refine ⟨fun type' v' e' he => ⟨_, mem_cons_self, he⟩, ?_, ?_, ?_, ?_⟩
  · intro type' v' e' hd
    rcases hback hd with hd | ⟨-, rfl, -⟩
    · obtain ⟨k, hk, hn⟩ := h.numbered hd
      exact ⟨k, hk.trans_le hgrows.counter, hn⟩
    · exact ⟨s.counter, hcount, hv⟩
  · intro type1 type2 w e1 e2 h1 h2
    rcases hback h1 with h1 | ⟨rfl, rfl, rfl⟩ <;> rcases hback h2 with h2 | ⟨rfl, hw, rfl⟩
    · exact h.unique h1 h2
    · subst hw
      exact (hnew h1).elim
    · exact (hnew h2).elim
    · exact ⟨rfl, rfl⟩
  · exact fun p hp => (h.functions p (hf ▸ hp)).mono hgrows'
  · exact fun w hw => (h.varyings w (hvar ▸ hw)).mono hgrows'

theorem form {φ : Form} (h : s.Single) (hbase : IsBase φ.base)
    (hdeps : ∀ d ∈ φ.deps, s.Covers d.code.stmts) (c : Scope) (es : List GraphError) (id : NodeId) :
    ((φ.session c es s).remember c id (φ.result s.counter)).Covers (φ.result s.counter).code.stmts ∧
      ((φ.session c es s).remember c id (φ.result s.counter)).Single := by
  have ha := φ.advance c es s
  have hcode : (φ.result s.counter).code.stmts =
      φ.deps.flatMap (·.code.stmts) ++ [.decl φ.type (φ.name s.counter) φ.value] := rfl
  exact h.declare hcode (covers_flatMap hdeps) ⟨_, hbase, rfl⟩ (.advance ha) ha.memo ha.functions
    (ha.varyings .fragment) (φ.lt_session_counter c es s) c id

end Session.Single

theorem Generated.Bare.covers (h : g.Bare) (s : Session) : s.Covers g.code.stmts := by
  rw [h.code]
  exact s.covers_nil

/-! ## Every evaluation -/

def single (G : Graph) : Judgement := fun n _ s g s' _ =>
  n ∈ G.nodes → s.Single → s'.Covers g.code.stmts ∧ s'.Single

theorem single_threads {ns : List Node} {t : Trace} (h : Threads (grows.both (single G)) c ns s gs s' t)
    (hns : ∀ n ∈ ns, n ∈ G.nodes) (hs : s.Single) : (∀ g ∈ gs, s'.Covers g.code.stmts) ∧ s'.Single :=
  h.carry And.left (fun hg h => h.mono hg) (fun n hn _ _ _ _ h => h.2 (hns n hn)) hs

theorem single_outcome {n : Node} (hlen : gs.length = n.operands.length) (hgs : ∀ g ∈ gs, s.Covers g.code.stmts)
    (hs : s.Single) (ho : Outcome n c gs s g s') (id : NodeId) :
    (s'.remember c id g).Covers g.code.stmts ∧ (s'.remember c id g).Single := by
  have hgrows := ho.grows
  obtain ⟨vs, ha⟩ := ho.advance
  cases ho with
  | declared φ hφ hg hs' =>
    subst hg hs'
    have hfits := Node.form_fits c hlen hφ
    exact hs.form hfits.base (fun d hd => hgs d (hfits.deps.subset hd)) c _ id
  | broken _ _ hg _ =>
    have hcode : s'.Covers g.code.stmts := by
      subst hg
      refine (Session.covers_append (Session.covers_flatMap hgs) ?_).mono hgrows
      intro type v e he
      cases mem_singleton.mp he
    exact ⟨hcode.mono (.remember ..), (hs.advance ha).remember hcode c id⟩
  | failed _ hg _ =>
    have hcode : s'.Covers g.code.stmts := by
      rcases hg with hg | rfl
      · exact (hgs g hg).mono hgrows
      · exact s'.covers_nil
    exact ⟨hcode.mono (.remember ..), (hs.advance ha).remember hcode c id⟩

theorem single_rules (hG : G.LoopFree) : Rules grows (single G) where
  immediate _ _ hbare _ ha _ _ hs := ⟨hbare.covers _, hs.advance ha⟩
  reuse _ _ ht ha hgrows _ hs := by
    refine ⟨?_, hs.advance ha⟩
    cases ht with
    | reference => exact Session.covers_nil _
    | again he | whole he => exact fun _ _ _ hd => ⟨_, hgrows.memo.subset (mem_of_lookup he), hd⟩
  compute hp _ ht _ ho _ hn hs := by
    obtain ⟨hgs, hs⟩ := single_threads ht (fun m hm => G.operand_mem hp hn hm) hs
    exact single_outcome ht.length hgs hs ho _
  loop _ _ _ _ _ _ _ _ _ _ _ hn := absurd hn (hG _ _ _ _)
  accumulator := by
    rintro id name start c s s1 g0 s0 t0 g s2 s3 _ _ _ _ ha rfl rfl _ _ hs
    have hs3 : s3.bump.Single := (hs.advance ha).advance (.bump c s3)
    have hbase : IsBase "accum" := .inl (by decide)
    exact hs3.form (φ := Step.accumulatorForm name start g0.type s3.counter) hbase
      (forall_mem_nil _) c [] id
  knownFunction _ _ hg ha _ _ hs := by
    subst hg
    exact ⟨Session.covers_nil _, hs.advance ha⟩
  newFunction := by
    rintro id name body c s gb s1 t f s2 g s3 _ hb _ _ rfl rfl ha _ hn hs
    obtain ⟨hgb, hs1⟩ := hb.2 (G.only_mem hn rfl) hs.openScope
    have hdefined : (s1.define id (Step.functionOf id name gb)).Single :=
      hs1.congr (.define ..) rfl (forall_mem_cons.mpr ⟨hgb, hs1.functions⟩) hs1.varyings
    exact ⟨Session.covers_nil _, hdefined.advance ha⟩
  varying := by
    intro id n c s g s1 t r s2 hc hop hr _ hn hs
    obtain ⟨hg, hs1⟩ := hop.2 (G.only_mem hn rfl) hs
    have hgrows := Step.readVarying_grows hr
    have hvaryings := Step.readVarying_varyings hc.1 hr
    obtain ⟨s3, ha, rfl, rfl⟩ := Step.readVarying_eq hr
    obtain ⟨-, -, hmemo, hfunctions, -⟩ :=
      s3.updateRegistry_same c.stage (·.addVarying (Step.varyingDef id g))
    refine ⟨Session.covers_nil _, hs1.congr hgrows (hmemo.trans ha.memo)
      (fun p hp => hs1.functions p (ha.functions ▸ hfunctions ▸ hp)) fun v hv => ?_⟩
    rw [hvaryings] at hv
    split at hv
    · exact hs1.varyings v hv
    · rcases mem_append.mp hv with hv | hv
      · exact hs1.varyings v hv
      · exact mem_singleton.mp hv ▸ hg
  strayVarying _ hop _ hn hs :=
    hop.2 (G.only_mem hn rfl) (hs.advance (.report _ _ _))
  exhausted hr _ _ hs := by
    cases hr
    exact ⟨Session.covers_nil _, hs.advance (.report _ _ _)⟩

theorem single_everywhere (hG : G.LoopFree) : (single G).Everywhere :=
  (single_rules hG).everywhere grows_everywhere

end

/-! ## Programs -/

/-- The statements of a program: main, what is passed on, and the bodies of functions. -/
def StageProgram.stmts (p : StageProgram) : List Stmt :=
  p.main ++ p.epilogue ++ p.functions.flatMap (·.body)

theorem compiled_single (hG : G.LoopFree) {vertex fragment : Node} (hv : vertex ∈ G.nodes)
    (hf : fragment ∈ G.nodes) {folding : Bool} {nextId : NodeId} {r : Compiled}
    (hr : compiled vertex fragment folding nextId = r) :
    r.session.Single ∧ r.session.Covers r.vertexProgram.stmts ∧ r.session.Covers r.fragmentProgram.stmts := by
  have hhas {f : Function} := compiled_has (f := f) hr
  obtain ⟨gv, gf, s1, s2, tv, tf, hr', hvertex, hfragment⟩ :=
    compiled_eq (grows_everywhere.both (single_everywhere hG)) vertex fragment folding nextId
  obtain rfl := hr.symm.trans hr'
  obtain ⟨hgv, hs1⟩ := hvertex.2 hv (.initial nextId folding)
  obtain ⟨hgf, hs2⟩ := hfragment.2 hf hs1
  have hfunctions {fs : List Function} (h : ∀ f ∈ fs, s2.Has f) : s2.Covers (fs.flatMap (·.body)) := by
    intro type v e he
    obtain ⟨f, hf, he⟩ := mem_flatMap.mp he
    obtain ⟨id, hid⟩ := h f hf
    exact hs2.functions _ hid type v e he
  refine ⟨hs2, ?_, ?_⟩
  · refine Session.covers_append (Session.covers_append (hgv.mono hfragment.1) ?_)
      (hfunctions fun f hf => hhas (mem_append_left _ hf))
    intro type v e he
    obtain ⟨w, hw, he⟩ := mem_flatMap.mp he
    rcases mem_append.mp he with he | he
    · exact hs2.varyings w hw type v e he
    · cases mem_singleton.mp he
  · exact Session.covers_append (Session.covers_append hgf (Session.covers_nil _))
      (hfunctions fun f hf => hhas (mem_append_right _ hf))

end ShaderGraph
