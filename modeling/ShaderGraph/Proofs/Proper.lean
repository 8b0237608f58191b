import ShaderGraph.Proofs.Derivations

/-!
# Evaluations without errors

Of a session without errors more is known than of any other: its results are sound and coherent, and
of the ways in which an evaluation can go those that record an error are out of the question. `Proper`
collects what is known of one evaluation, and `ProperRules` lists what has to be shown of a judgement
about such evaluations.
-/

namespace ShaderGraph

open Eval List

variable {G : Graph} {ns : List Node} {gs : List Generated}

/-- The evaluation of a node of a graph, in a session that stays without errors. -/
structure Proper (G : Graph) (n : Node) (s : Session) (g : Generated) (s' : Session) : Prop where
  mem : n ∈ G.nodes
  grows : s.Grows s'
  clean : s'.Clean
  sound : s.Sound G
  coherent : s.Coherent G
  sound' : s'.Sound G
  coherent' : s'.Coherent G
  result : g.Sound G s'
  operand : s'.Operand n g

/-- Sound and coherent sessions stay so. -/
abbrev settled (G : Graph) : Judgement := (grows.both (sound G)).both (coherent G)

theorem settled_everywhere (hG : G.Shared) : (settled G).Everywhere :=
  (grows_everywhere.both (sound_everywhere hG)).both (coherent_everywhere hG)

namespace Judgement

def proper (G : Graph) (M : Judgement) : Judgement := fun n c s g s' t => Proper G n s g s' → M n c s g s' t

/-- The evaluation is proper and the judgement holds of it. -/
def properly (G : Graph) (M : Judgement) : Judgement := fun n c s g s' t => Proper G n s g s' ∧ M n c s g s' t

end Judgement

section
variable {M : Judgement} {n : Node} {c : Scope} {s s' : Session} {g : Generated} {t : Trace}

theorem Proper.of_settled (h : settled G n c s g s' t) (hn : n ∈ G.nodes) (hclean : s'.Clean) (hs : s.Sound G)
    (hc : s.Coherent G) : Proper G n s g s' := by
  obtain ⟨hg, hs'⟩ := h.1.2 hn hs
  obtain ⟨ho, hc'⟩ := h.2 hn hclean hs hc
  exact ⟨hn, h.1.1, hclean, hs, hc, hs', hc', hg, ho⟩

theorem Judgement.properly_of_settled (h : (settled G).both (M.proper G) n c s g s' t) (hn : n ∈ G.nodes)
    (hclean : s'.Clean) (hs : s.Sound G) (hc : s.Coherent G) : M.properly G n c s g s' t :=
  have hp := Proper.of_settled h.1 hn hclean hs hc
  ⟨hp, h.2 hp⟩

theorem properly_threads (h : Threads ((settled G).both (M.proper G)) c ns s gs s' t)
    (hns : ∀ n ∈ ns, n ∈ G.nodes) (hclean : s'.Clean) (hs : s.Sound G) (hc : s.Coherent G) :
    Threads (M.properly G) c ns s gs s' t := by
  induction h with
  | nil => exact .nil
  | cons hn hrest ih =>
    obtain ⟨hmem, hns⟩ := forall_mem_cons.mp hns
    have hgrows := hrest.growing fun h => h.1.1.1
    have hp := Judgement.properly_of_settled hn hmem (hclean.of_grows hgrows) hs hc
    exact .cons hp (ih hns hclean hp.1.sound' hp.1.coherent')

theorem Threads.grows (h : Threads (M.properly G) c ns s gs s' t) : s.Grows s' :=
  h.growing fun h => h.1.grows

theorem Threads.origin (h : Threads (M.properly G) c ns s gs s' t) : ∀ g ∈ gs, g.From G := by
  induction h with
  | nil => exact forall_mem_nil _
  | cons hn _ ih => exact forall_mem_cons.mpr ⟨hn.1.result.origin, ih⟩

theorem Opens.advance {body : Generated} {start m : Node} {bind : Generated → Step.Binding}
    (h : Opens body start s m s' bind) (c : Scope) : s.Advance c [] s' := by
  cases h with
  | accumulated | parameter => exact .refl c s
  | own => exact .bump c s

/-- What shows that a judgement holds of every proper evaluation. -/
structure ProperRules (G : Graph) (M : Judgement) : Prop where
  immediate : ∀ {n c s g s' vs}, n.isImmediate → (n.step c []).run s = (g, s') → g.Bare →
    (∀ v ∈ vs, IsResource v) → s.Advance c vs s' → Proper G n s g s' → M n c s g s' []
  reuse : ∀ {n c s g s' vs}, n.isMemoized → s.Takes c n.id g s' → s.Advance c vs s' → Proper G n s g s' →
    M n c s g s' [.taken c g]
  declared : ∀ {n c s gs s1 t φ}, n.isPlain → Threads (M.properly G) c n.operands s gs s1 t →
    n.form? s1.folding gs = some φ → φ.Fits n c gs →
    Proper G n s (φ.result s1.counter) ((φ.session c [] s1).remember c n.id (φ.result s1.counter)) →
    M n c s (φ.result s1.counter) ((φ.session c [] s1).remember c n.id (φ.result s1.counter)) t
  broken : ∀ {id a b c s cond value s1 t g s2}, c.inLoop →
    Threads (M.properly G) c [a, b] s [cond, value] s1 t →
    g = .gather value.type [.breakIf cond.var] value.var [cond, value] →
    s1.Advance c (marks [cond, value] value.var) s2 → Proper G (.breakIf id a b) s g (s2.remember c id g) →
    M (.breakIf id a b) c s g (s2.remember c id g) t
  loop : ∀ {id body count start c s gi s1 t1 s2 gb s3 t2 m s4 bind gm s5 t3 g s6}, s.lookup? c id = none →
    M.properly G count c s gi s1 t1 → s1.Advance c [] s2 →
    M.properly G body (c.loopBody s2.nextScope) s2.openScope gb s3 t2 →
    Opens gb start s3 m s4 bind → M.properly G m c s4 gm s5 t3 →
    g = Step.loopResult gi gb (bind gm) s5.counter → s5.Advance c (marks [gm, gi] (.name (bind gm).var)) s6 →
    Proper G (.sumLoop id body count start) s g (s6.remember c id g) →
    M (.sumLoop id body count start) c s g (s6.remember c id g) (t1 ++ (t2 ++ t3))
  accumulator : ∀ {id name start c s s1 type g s2}, s.Advance c [] s1 →
    g = (Step.accumulatorForm name start type s1.counter).result s1.bump.counter →
    s2 = (Step.accumulatorForm name start type s1.counter).session c [] s1.bump →
    Proper G (.accumulator id name start) s g (s2.remember c id g) →
    M (.accumulator id name start) c s g (s2.remember c id g) []
  knownFunction : ∀ {id name body c s f s'}, (id, f) ∈ s.functions → s.Advance c [] s' →
    Proper G (.defun id name body) s (Step.functionResult f) s' →
    M (.defun id name body) c s (Step.functionResult f) s' [.taken c (Step.functionResult f)]
  newFunction : ∀ {id name body c s gb s1 t f s3},
    M.properly G body (c.functionBody s.nextScope) s.openScope gb s1 t → f = Step.functionOf id name gb →
    (s1.define id f).Advance c [] s3 →
    Proper G (.defun id name body) s (Step.functionResult f) s3 →
    M (.defun id name body) c s (Step.functionResult f) s3 t
  varying : ∀ {id n c s g s1 t r s2}, c.Paired → M.properly G n .vertexMain s g s1 t →
    (Step.readVarying c id g).run s1 = (r, s2) → Proper G (.varying id n) s r s2 →
    M (.varying id n) c s r s2
      (if s1.hasVarying c.stage (Step.varyingName id) then [.discarded g t] else t)

theorem ProperRules.rules (h : ProperRules G M) : Rules (settled G) (M.proper G) where
  immediate hi hr hbare hvs ha _ hp := h.immediate hi hr hbare hvs ha hp
  reuse hm _ ht ha _ hp := h.reuse hm ht ha hp
  compute := by
    intro n c s gs s1 t g s2 hplain _ ht _ ho _ hp
    have hlen := ht.length
    have hclean2 : s2.Clean := hp.clean.of_grows (.remember ..)
    have ht := properly_threads ht (fun m hm => G.operand_mem hplain hp.mem hm) (hclean2.of_grows ho.grows)
      hp.sound hp.coherent
    cases ho with
    | declared φ hφ hg hs =>
      have hcheck : n.check c gs = [] := by
        have herr := hclean2 c.stage
        rw [hs, φ.session_errors] at herr
        exact (append_eq_nil_iff.mp herr).2
      rw [hcheck] at hs
      subst hg hs
      exact h.declared hplain ht hφ (Node.form_fits c hlen hφ) hp
    | @broken id a b cond value es hn hgs hg hs hloop =>
      subst hn hgs hs
      have herr : (s1.registry c.stage).errors ++ es = [] := by
        simpa [Session.report, Registry.addErrors] using hclean2 c.stage
      exact h.broken (hloop (append_eq_nil_iff.mp herr).2) ht hg (.thenMark (.report c s1 es) _) hp
    | failed herr => exact absurd (hclean2 c.stage) herr
  loop := by
    intro id body count start c s gi s1 t1 s2 gb s3 t2 m s4 bind gm s5 t3 g s6
      hl hcount _ ha2 hbody hopens hinit _ hg ha6 _ hp
    obtain ⟨hcount_mem, hbody_mem, hstart⟩ := G.loop_mem hp.mem
    -- what is clean in the end was clean all along
    have hclean5 := (hp.clean.of_grows (.remember ..)).of_grows (.advance ha6)
    have hclean3 := (hclean5.of_grows hinit.1.1.1).of_grows hopens.grows
    have hclean1 := ((hclean3.of_grows hbody.1.1.1).of_grows (.openScope s2)).of_grows (.advance ha2)
    have hcount := Judgement.properly_of_settled hcount hcount_mem hclean1
      hp.sound hp.coherent
    have hbody := Judgement.properly_of_settled hbody hbody_mem hclean3
      (hcount.1.sound'.advance ha2).openScope (hcount.1.coherent'.advance ha2).openScope
    obtain ⟨hm, -⟩ := hopens.from hbody.1.result.origin hstart gm
    have hinit := Judgement.properly_of_settled hinit hm hclean5 (hopens.sound hbody.1.sound')
      (hbody.1.coherent'.congr hopens.grows hopens.memo (hopens.varyings ▸ hbody.1.coherent'.varyings))
    exact h.loop hl hcount ha2 hbody hopens hinit hg ha6 hp
  accumulator _ _ _ _ ha hg hs _ hp := h.accumulator ha hg hs hp
  knownFunction hf _ hg ha _ hp := by
    subst hg
    exact h.knownFunction (mem_of_lookup hf) ha hp
  newFunction := by
    rintro id name body c s gb s1 t f s2 g s3 _ hb _ _ hf rfl ha _ hp
    have hclean1 := (hp.clean.of_grows ha.grows).of_grows (.define s1 id f)
    have hb := Judgement.properly_of_settled hb (G.only_mem hp.mem rfl) hclean1 hp.sound.openScope
      hp.coherent.openScope
    exact h.newFunction hb hf ha hp
  varying hc hop hr _ hp := by
    have hop := Judgement.properly_of_settled hop (G.only_mem hp.mem rfl)
      (hp.clean.of_grows (Step.readVarying_grows hr)) hp.sound hp.coherent
    exact h.varying hc hop hr hp
  strayVarying _ hop _ hp := absurd (hp.clean.of_grows hop.1.1.1).report (cons_ne_nil _ _)
  exhausted hr _ hp := by
    cases hr
    exact absurd hp.clean.report (cons_ne_nil _ _)

/-- What the rules show of evaluations without errors holds everywhere. -/
theorem ProperRules.everywhere (h : ProperRules G M) (hG : G.Shared) : (M.proper G).Everywhere :=
  h.rules.everywhere (settled_everywhere hG)

theorem compiled_properly (hG : G.Shared) (hM : (M.proper G).Everywhere) {vertex fragment : Node}
    (hv : vertex ∈ G.nodes) (hf : fragment ∈ G.nodes) {o : CompileOptions} {nextId : NodeId} {r : Compiled}
    (hr : compiled vertex fragment o.folding nextId = r)
    (herr : (compilePair vertex fragment o nextId).error? = none) : ∃ gv gf s1 s2 tv tf,
      r = ⟨gv, gf, s2, tv ++ tf⟩ ∧ M.properly G vertex .vertexMain { nextId, folding := o.folding } gv s1 tv ∧
      M.properly G fragment .fragmentMain s1 gf s2 tf := by
  have hclean : r.session.Clean := hr ▸ errors_compiled herr
  obtain ⟨gv, gf, s1, s2, tv, tf, hr', hvertex, hfragment⟩ :=
    compiled_eq ((settled_everywhere hG).both hM) vertex fragment o.folding nextId
  obtain rfl := hr.symm.trans hr'
  have hvertex := Judgement.properly_of_settled hvertex hv (hclean.of_grows hfragment.1.1.1)
    (.initial G nextId o.folding) (.initial G nextId o.folding)
  have hfragment := Judgement.properly_of_settled hfragment hf hclean hvertex.1.sound' hvertex.1.coherent'
  exact ⟨gv, gf, s1, s2, tv, tf, rfl, hvertex, hfragment⟩

end

end ShaderGraph
