import ShaderGraph.Proofs.Sharing

/-!
# Traits of results

A trait is a property of results that a result has if the results it is made from have it. What a
session remembers then has the trait throughout: `Trait.Inherited` lists what is to be shown of the
ways in which results are made, and `Trait.Inherited.everywhere` concludes for every evaluation.
-/

namespace ShaderGraph

open Eval List

/-- A property of results in a session, and what goes with it: the nodes that are evaluated, the
functions defined and the varyings registered. -/
structure Trait where
  node : Node → Prop
  result : Session → Generated → Prop
  function : Session → Function → Prop
  varying : Session → VaryingDef → Prop

/-- All that a session holds has the trait. -/
structure Session.Carries (T : Trait) (s : Session) : Prop where
  memo : ∀ p ∈ s.memo, T.result s p.2.generated
  functions : ∀ p ∈ s.functions, T.function s p.2
  varyings : ∀ v ∈ s.fragment.varyings, T.varying s v

def Trait.judgement (T : Trait) : Judgement := fun n _ s g s' _ =>
  T.node n → s.Carries T → T.result s' g ∧ s'.Carries T

structure Trait.Inherited (T : Trait) : Prop where
  child : ∀ {n m}, T.node n → m ∈ n.children → T.node m
  grows : ∀ {s s' g}, s.Grows s' → T.result s g → T.result s' g
  growsFunction : ∀ {s s' f}, s.Grows s' → T.function s f → T.function s' f
  growsVarying : ∀ {s s' v}, s.Grows s' → T.varying s v → T.varying s' v
  zero : ∀ {s}, T.result s (.float 0)
  immediate : ∀ {n c s g s'}, T.node n → n.isImmediate → (n.step c []).run s = (g, s') → T.result s' g
  reference : ∀ {s g}, T.result s g → T.result s g.reference
  form : ∀ {n c s gs folding φ k}, T.node n → (∀ g ∈ gs, T.result s g) → n.form? folding gs = some φ →
    φ.Fits n c gs → T.result s (φ.result k)
  broken : ∀ {s cond value}, T.result s cond → T.result s value →
    T.result s (.gather value.type [.breakIf cond.var] value.var [cond, value])
  initial : ∀ {s g a}, T.result s g → a ∈ g.accumulators → T.node a.initial
  loop : ∀ {s gi gb b k}, T.result s gi → T.result s gb → T.result s b.initial →
    (∀ a ∈ b.arguments, a ∈ gb.arguments) → (∀ a ∈ b.accumulators, a ∈ gb.accumulators) →
    T.result s (Step.loopResult gi gb b k)
  accumulator : ∀ {s id name start type j k}, T.node (.accumulator id name start) →
    T.result s ((Step.accumulatorForm name start type j).result k)
  define : ∀ {s id name body gb}, T.node (.defun id name body) → T.result s gb →
    T.function s (Step.functionOf id name gb)
  function : ∀ {s id f}, (id, f) ∈ s.functions → T.function s f → T.result s (Step.functionResult f)
  varying : ∀ {s id g}, T.result s g → T.varying s (Step.varyingDef id g)
  passed : ∀ {s type id}, T.result s (.resource type (Step.varyingName id))

namespace Trait.Inherited

variable {T : Trait} {s s' : Session} {c : Scope} {g : Generated}

theorem congr (h : T.Inherited) (hs : s.Carries T) (hg : s.Grows s') (hm : s'.memo = s.memo)
    (hf : s'.functions = s.functions) (hv : s'.fragment.varyings = s.fragment.varyings) : s'.Carries T where
  memo p hp := h.grows hg (hs.memo p (hm ▸ hp))
  functions p hp := h.growsFunction hg (hs.functions p (hf ▸ hp))
  varyings v hv' := h.growsVarying hg (hs.varyings v (hv ▸ hv'))

theorem advance (h : T.Inherited) (hs : s.Carries T) {vs : List String} (ha : s.Advance c vs s') :
    s'.Carries T :=
  h.congr hs (.advance ha) ha.memo ha.functions (ha.varyings .fragment)

theorem openScope (h : T.Inherited) (hs : s.Carries T) : s.openScope.Carries T :=
  h.congr hs (.openScope s) rfl rfl rfl

theorem remember (h : T.Inherited) (hs : s.Carries T) (hg : T.result s g) (c : Scope) (id : NodeId) :
    T.result (s.remember c id g) g ∧ (s.remember c id g).Carries T := by
  have hgrows := Session.Grows.remember s c id g
  refine ⟨h.grows hgrows hg, ?_, fun p hp => ?_, fun v hv => ?_⟩
  · exact forall_mem_cons.mpr ⟨h.grows hgrows hg, fun p hp => h.grows hgrows (hs.memo p hp)⟩
  · exact h.growsFunction hgrows (hs.functions p hp)
  · exact h.growsVarying hgrows (hs.varyings v hv)

theorem defined (h : T.Inherited) (hs : s.Carries T) (id : NodeId) {f : Function} (hf : T.function s f) :
    Session.Carries T { s with functions := (id, f) :: s.functions } := by
  have hgrows := Session.Grows.define s id f
  refine ⟨fun p hp => h.grows hgrows (hs.memo p hp), ?_, fun v hv => h.growsVarying hgrows (hs.varyings v hv)⟩
  exact forall_mem_cons.mpr
    ⟨h.growsFunction hgrows hf, fun p hp => h.growsFunction hgrows (hs.functions p hp)⟩

theorem threads (h : T.Inherited) {ns : List Node} {gs : List Generated} {t : Trace}
    (ht : Threads (ShaderGraph.grows.both T.judgement) c ns s gs s' t) (hns : ∀ n ∈ ns, T.node n)
    (hs : s.Carries T) : (∀ g ∈ gs, T.result s' g) ∧ s'.Carries T :=
  ht.carry And.left h.grows (fun n hn _ _ _ _ h => h.2 (hns n hn)) hs

theorem outcome (h : T.Inherited) {n : Node} {gs : List Generated} (hn : T.node n)
    (hlen : gs.length = n.operands.length) (hgs : ∀ g ∈ gs, T.result s g) (ho : Outcome n c gs s g s') :
    T.result s' g := by
  refine h.grows ho.grows ?_
  cases ho with
  | declared φ hφ hg _ => exact hg ▸ h.form hn hgs hφ (Node.form_fits c hlen hφ)
  | broken _ hgs' hg _ =>
    subst hgs' hg
    obtain ⟨hcond, hvalue⟩ := forall_mem_cons.mp hgs
    exact h.broken hcond (hvalue _ mem_cons_self)
  | failed _ hg _ =>
    rcases hg with hg | rfl
    · exact hgs g hg
    · exact h.zero

theorem rules (h : T.Inherited) : Rules ShaderGraph.grows T.judgement where
  immediate hi hr _ _ ha _ hn hs := ⟨h.immediate hn hi hr, h.advance hs ha⟩
  reuse _ _ ht ha _ _ hs := by
    refine ⟨h.grows ha.grows ?_, h.advance hs ha⟩
    cases ht with
    | reference he => exact h.reference (hs.memo _ (mem_of_lookup he))
    | again he | whole he => exact hs.memo _ (mem_of_lookup he)
  compute hp _ ht _ ho _ hn hs := by
    obtain ⟨hgs, hs1⟩ := h.threads ht (fun m hm => h.child hn (Node.children_of_isPlain hp ▸ hm)) hs
    obtain ⟨vs, ha⟩ := ho.advance
    exact h.remember (h.advance hs1 ha) (h.outcome hn ht.length hgs ho) _ _
  loop := by
    intro id body count start c s gi s1 t1 s2 gb s3 t2 m s4 bind gm s5 t3 g s6
      _ hcount _ ha2 hbody hopens hinit _ hg ha6 _ hn hs
    obtain ⟨hgi, hs1⟩ := hcount.2 (h.child hn (by simp [Node.children])) hs
    obtain ⟨hgb, hs3⟩ := hbody.2 (h.child hn (by simp [Node.children])) (h.openScope (h.advance hs1 ha2))
    have hm : T.node m := by
      cases hopens with
      | accumulated heq => exact h.initial hgb (heq ▸ mem_cons_self)
      | parameter | own => exact h.child hn (by simp [Node.children])
    obtain ⟨hgm, hs5⟩ := hinit.2 hm
      (h.congr hs3 hopens.grows hopens.memo hopens.functions hopens.varyings)
    have hlate : s3.Grows s5 := hopens.grows.trans hinit.1
    have hearly : s1.Grows s3 := (ha2.grows.trans (.openScope s2)).trans hbody.1
    obtain ⟨hargs, haccs⟩ := hopens.captured gm
    subst hg
    have hg := h.loop (k := s5.counter) (h.grows (hearly.trans hlate) hgi) (h.grows hlate hgb)
      (hopens.initial ▸ hgm) hargs haccs
    exact h.remember (h.advance hs5 ha6) (h.grows (.advance ha6) hg) _ _
  accumulator := by
    rintro id name start c s s1 g0 s0 t0 g s2 s3 _ _ _ _ ha rfl rfl _ hn hs
    have hform := (Step.accumulatorForm name start g0.type s3.counter).advance c [] s3.bump
    exact h.remember (h.advance (h.advance hs (ha.trans (.bump c s3))) hform) (h.accumulator hn) _ _
  knownFunction hf _ hg ha _ _ hs := by
    subst hg
    have hmem := mem_of_lookup hf
    exact ⟨h.grows (.advance ha) (h.function hmem (hs.functions _ hmem)), h.advance hs ha⟩
  newFunction := by
    rintro id name body c s gb s1 t f s2 g s3 _ hb _ _ rfl rfl ha _ hn hs
    obtain ⟨hgb, hs1⟩ := hb.2 (h.child hn mem_cons_self) (h.openScope hs)
    have hs2 := h.defined hs1 id (h.define hn hgb)
    have hmem : (id, Step.functionOf id name gb) ∈ (id, Step.functionOf id name gb) :: s1.functions :=
      mem_cons_self
    exact ⟨h.grows ha.grows (h.function hmem (hs2.functions _ hmem)), h.advance hs2 ha⟩
  varying hc hop hr _ hn hs := by
    obtain ⟨hg, hs1⟩ := hop.2 (h.child hn mem_cons_self) hs
    have hgrows := Step.readVarying_grows hr
    obtain ⟨hmemo, hfunctions, -⟩ := Step.readVarying_same hr
    refine ⟨?_, fun p hp => h.grows hgrows (hs1.memo p (hmemo ▸ hp)),
      fun p hp => h.growsFunction hgrows (hs1.functions p (hfunctions ▸ hp)), fun v hv => ?_⟩
    · obtain ⟨s3, -, rfl, -⟩ := Step.readVarying_eq hr
      exact h.passed
    · rcases Step.mem_varyings_of_readVarying hc.1 hr hv with hv | rfl
      · exact h.growsVarying hgrows (hs1.varyings v hv)
      · exact h.growsVarying hgrows (h.varying hg)
  strayVarying _ hop _ hn hs := hop.2 (h.child hn mem_cons_self) (h.advance hs (.report _ _ _))
  exhausted hr _ _ hs := by
    cases hr
    exact ⟨h.zero, h.advance hs (.report _ _ _)⟩

theorem everywhere (h : T.Inherited) : T.judgement.Everywhere := h.rules.everywhere grows_everywhere

end Trait.Inherited

theorem Session.carries_initial (T : Trait) (nextId : NodeId) (folding : Bool) :
    Session.Carries T { nextId, folding } where
  memo _ h := absurd h not_mem_nil
  functions _ h := absurd h not_mem_nil
  varyings _ h := absurd h not_mem_nil

end ShaderGraph
