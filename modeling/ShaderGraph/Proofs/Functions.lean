import ShaderGraph.Proofs.Programs

/-!
# Functions are defined once

Functions are told apart by the ids of the nodes that define them, and a session defines a function
once: its body cannot define it again, as a node is not inside itself.
-/

namespace ShaderGraph

open Eval List

/-! ## Nodes inside nodes -/

/-- Is the node or is inside it. -/
inductive Node.Within (m : Node) : Node → Prop where
  | refl : Within m m
  | child {k n : Node} (hk : k ∈ n.children) (h : Within m k) : Within m n

section
variable {k m n : Node}

theorem Node.Within.trans (h : k.Within m) (h' : m.Within n) : k.Within n := by
  induction h' with
  | refl => exact h
  | child hk _ ih => exact .child hk ih

theorem Node.sizeOf_child_lt (h : m ∈ n.children) : sizeOf m < sizeOf n := by
  cases n with
  | sumLoop id body count start =>
    simp only [children, mem_cons, not_mem_nil, or_false] at h
    simp only [sumLoop.sizeOf_spec]
    obtain rfl | rfl | rfl := h <;> omega
  | accumulator id name start =>
    rw [mem_singleton.mp h, accumulator.sizeOf_spec]
    omega
  | defun id name body =>
    rw [mem_singleton.mp h, defun.sizeOf_spec]
    omega
  | varying id n =>
    rw [mem_singleton.mp h, varying.sizeOf_spec]
    omega
  | _ => exact sizeOf_operand_lt h

theorem Node.Within.sizeOf_le (h : m.Within n) : sizeOf m ≤ sizeOf n := by
  induction h with
  | refl => exact Nat.le_refl _
  | child hk _ ih => exact ih.trans (sizeOf_child_lt hk).le

theorem Graph.mem_of_within (G : Graph) (hn : n ∈ G.nodes) (h : m.Within n) : m ∈ G.nodes := by
  induction h with
  | refl => exact hn
  | child hk _ ih => exact ih (G.closed _ hn _ hk)

end

/-! ## The table of functions -/

/-- Functions have different ids, and the running sums that a remembered result captures start
inside its node. -/
structure Session.Once (G : Graph) (s : Session) : Prop where
  ids : ∀ p ∈ s.functions, p.2.id = p.1
  nodup : (s.functions.map Prod.fst).Nodup
  memo : ∀ p ∈ s.memo, ∀ n ∈ G.nodes, n.id = p.1 →
    ∀ a ∈ p.2.generated.accumulators, a.initial.Within n

/-- The functions that an evaluation defines and the running sums that its result captures come
from inside of the node. -/
structure Inside (G : Graph) (n : Node) (s : Session) (g : Generated) (s' : Session) : Prop where
  once : s'.Once G
  sums : ∀ a ∈ g.accumulators, a.initial.Within n
  functions : ∀ p ∈ s'.functions, p ∈ s.functions ∨ ∃ name body, (Node.defun p.1 name body).Within n

section
variable {G : Graph} {n m : Node} {c : Scope} {s s1 s' : Session} {g : Generated}

theorem Session.Once.congr (h : s.Once G) (hm : s'.memo = s.memo) (hf : s'.functions = s.functions) :
    s'.Once G :=
  ⟨hf ▸ h.ids, hf ▸ h.nodup, hm ▸ h.memo⟩

theorem Session.Once.remember (h : s.Once G) (hG : G.Shared) (hn : n ∈ G.nodes)
    (hg : ∀ a ∈ g.accumulators, a.initial.Within n) (c : Scope) : (s.remember c n.id g).Once G where
  ids := h.ids
  nodup := h.nodup
  memo := forall_mem_cons.mpr ⟨fun k hk hid => hG k hk n hn hid ▸ hg, h.memo⟩

theorem Session.Once.define (h : s.Once G) {f : Function} (hf : f.id ∉ s.functions.map Prod.fst) :
    Session.Once G { s with functions := (f.id, f) :: s.functions } where
  ids := forall_mem_cons.mpr ⟨rfl, h.ids⟩
  nodup := nodup_cons.mpr ⟨hf, h.nodup⟩
  memo := h.memo

theorem Inside.advance {vs : List String} (hs : s.Once G) (ha : s.Advance c vs s')
    (hg : g.accumulators = []) : Inside G n s g s' where
  once := hs.congr ha.memo ha.functions
  sums a h := by rw [hg] at h; cases h
  functions p hp := .inl (ha.functions ▸ hp)

/-! ## Every evaluation -/

def once (G : Graph) : Judgement := fun n _ s g s' _ => n ∈ G.nodes → s.Once G → Inside G n s g s'

theorem once_threads {ns : List Node} {gs : List Generated} {t : Trace}
    (h : Threads (Judgement.trivial.both (once G)) c ns s gs s' t) (hns : ∀ n ∈ ns, n ∈ G.nodes)
    (hs : s.Once G) :
    s'.Once G ∧ (∀ g ∈ gs, ∀ a ∈ g.accumulators, ∃ n ∈ ns, a.initial.Within n) ∧
      ∀ p ∈ s'.functions, p ∈ s.functions ∨ ∃ n ∈ ns, ∃ name body, (Node.defun p.1 name body).Within n := by
  induction h with
  | nil => exact ⟨hs, forall_mem_nil _, fun _ hp => .inl hp⟩
  | @cons n ns s s1 s2 g gs t ts hn _ ih =>
    obtain ⟨hmem, hns⟩ := forall_mem_cons.mp hns
    have h1 := hn.2 hmem hs
    obtain ⟨hs2, hsums, hfunctions⟩ := ih hns h1.once
    refine ⟨hs2, forall_mem_cons.mpr ⟨fun a ha => ⟨n, mem_cons_self, h1.sums a ha⟩, ?_⟩, ?_⟩
    · intro d hd a ha
      obtain ⟨k, hk, h⟩ := hsums d hd a ha
      exact ⟨k, mem_cons_of_mem _ hk, h⟩
    · intro p hp
      rcases hfunctions p hp with hp | ⟨k, hk, h⟩
      · exact (h1.functions p hp).imp_right fun h => ⟨n, mem_cons_self, h⟩
      · exact .inr ⟨k, mem_cons_of_mem _ hk, h⟩

theorem Outcome.mem_accumulators {gs : List Generated} (h : Outcome n c gs s g s')
    (hlen : gs.length = n.operands.length) {a : AccumulatorDef} (ha : a ∈ g.accumulators) :
    ∃ d ∈ gs, a ∈ d.accumulators := by
  cases h with
  | declared φ hφ hg hs =>
    subst hg
    have hfits := Node.form_fits c hlen hφ
    rcases mem_adjoin_foldl ha with ⟨d, hd, ha⟩ | ha
    · exact ⟨d, hfits.deps.subset hd, ha⟩
    · rw [hfits.accumulators] at ha
      cases ha
  | broken hn hgs hg hs =>
    subst hg
    exact (mem_foldl_adjoin ha).resolve_left (nomatch ·)
  | failed herr hg hs =>
    rcases hg with hg | rfl
    · exact ⟨g, hg, ha⟩
    · cases ha

theorem once_rules (hG : G.Shared) : Rules .trivial (once G) where
  immediate _ _ hbare _ ha _ _ hs := .advance hs ha hbare.accumulators
  reuse _ _ ht ha _ hn hs := by
    refine ⟨hs.congr ha.memo ha.functions, ?_, fun p hp => .inl (ha.functions ▸ hp)⟩
    cases ht with
    | reference he | again he | whole he => exact hs.memo _ (mem_of_lookup he) _ hn rfl
  compute := by
    intro n c s gs s1 t g s2 hp _ ht _ ho _ hn hs
    obtain ⟨hs1, hsums, hfunctions⟩ := once_threads ht (fun m hm => G.operand_mem hp hn hm) hs
    obtain ⟨vs, ha⟩ := ho.advance
    have hchild {m : Node} (hm : m ∈ n.operands) : m ∈ n.children := Node.children_of_isPlain hp ▸ hm
    have hg : ∀ a ∈ g.accumulators, a.initial.Within n := by
      intro a ha
      obtain ⟨d, hd, ha⟩ := ho.mem_accumulators ht.length ha
      obtain ⟨m, hm, h⟩ := hsums d hd a ha
      exact .child (hchild hm) h
    refine ⟨(hs1.congr ha.memo ha.functions).remember hG hn hg c, hg, fun p hp => ?_⟩
    rcases hfunctions p (ha.functions ▸ hp) with hp | ⟨m, hm, name, body, h⟩
    · exact .inl hp
    · exact .inr ⟨name, body, .child (hchild hm) h⟩
  loop := by
    rintro id body count start c s gi s1 t1 s2 gb s3 t2 m s4 bind gm s5 t3 g s6
      _ hcount _ ha2 hbody hopens hinit _ rfl ha6 _ hn hs
    have hc : count ∈ [count, body, start] := by simp
    have hb : body ∈ [count, body, start] := by simp
    have h1 := hcount.2 (G.closed _ hn _ hc) hs
    have h3 := hbody.2 (G.closed _ hn _ hb) (h1.once.congr ha2.memo ha2.functions)
    have hm : m.Within (.sumLoop id body count start) := by
      cases hopens with
      | accumulated h => exact .child hb (h3.sums _ (h ▸ mem_cons_self))
      | parameter | own => exact .child (by simp [Node.children]) .refl
    have h5 := hinit.2 (G.mem_of_within hn hm) (h3.once.congr hopens.memo hopens.functions)
    have hg : ∀ a ∈ (Step.loopResult gi gb (bind gm) s5.counter).accumulators,
        a.initial.Within (.sumLoop id body count start) := by
      intro a ha
      rcases mem_adjoin_foldl ha with ⟨d, hd, hda⟩ | ha
      · rw [hopens.initial] at hd
        rcases mem_pair.mp hd with rfl | rfl
        · exact (h5.sums a hda).trans hm
        · exact .child hc (h1.sums a hda)
      · exact .child hb (h3.sums a ((hopens.captured gm).2 a ha))
    refine ⟨(h5.once.congr ha6.memo ha6.functions).remember hG hn hg c, hg, fun p hp => ?_⟩
    rcases h5.functions p (ha6.functions ▸ hp) with hp | ⟨name, k, h⟩
    · rw [hopens.functions] at hp
      rcases h3.functions p hp with hp | ⟨name, k, h⟩
      · have hp : p ∈ s2.functions := hp
        rw [ha2.functions] at hp
        rcases h1.functions p hp with hp | ⟨name, k, h⟩
        · exact .inl hp
        · exact .inr ⟨name, k, .child hc h⟩
      · exact .inr ⟨name, k, .child hb h⟩
    · exact .inr ⟨name, k, h.trans hm⟩
  accumulator := by
    rintro id name start c s s1 g0 s0 t0 g s2 s3 _ _ _ _ ha rfl rfl _ hn hs
    have hform := (Step.accumulatorForm name start g0.type s3.counter).advance c [] s3.bump
    have hg : ∀ a ∈ ((Step.accumulatorForm name start g0.type s3.counter).result
        s3.bump.counter).accumulators, a.initial.Within (.accumulator id name start) := by
      intro a ha
      rcases mem_adjoin_foldl ha with ⟨d, hd, -⟩ | ha
      · cases hd
      · rw [mem_singleton.mp ha]
        exact .child mem_cons_self .refl
    have hs3 := (hs.congr ha.memo ha.functions).congr hform.memo hform.functions
    exact ⟨hs3.remember hG hn hg c, hg, fun p hp => .inl (ha.functions ▸ hform.functions ▸ hp)⟩
  knownFunction _ _ hg ha _ _ hs := .advance hs ha (hg ▸ rfl)
  newFunction := by
    rintro id name body c s gb s1 t f s2 g s3 hlook hb _ _ rfl rfl ha _ hn hs
    have hbody : body ∈ (Node.defun id name body).children := mem_cons_self
    have h1 := hb.2 (G.closed _ hn _ hbody) (hs.congr rfl rfl)
    -- the body of a function does not define it
    have hnew : id ∉ s1.functions.map Prod.fst := by
      intro hmem
      obtain ⟨p, hp, rfl⟩ := mem_map.mp hmem
      rcases h1.functions p hp with hp | ⟨name', body', h⟩
      · simpa using lookup_eq_none_iff.mp hlook p hp
      · have heq := hG _ (G.mem_of_within (G.closed _ hn _ hbody) h) _ hn rfl
        have hle := h.sizeOf_le
        rw [heq] at hle
        exact absurd (Node.sizeOf_child_lt hbody) (Nat.not_lt.mpr hle)
    refine ⟨(h1.once.define (f := Step.functionOf id name gb) hnew).congr ha.memo ha.functions,
      fun a ha => absurd ha not_mem_nil, fun p hp => ?_⟩
    rw [ha.functions] at hp
    rcases mem_cons.mp hp with rfl | hp
    · exact .inr ⟨name, body, .refl⟩
    · exact (h1.functions p hp).imp_right (.imp fun _ => .imp fun _ => .child hbody)
  varying := by
    intro id n c s g s1 t r s2 _ hop hr _ hn hs
    have hn' : n ∈ (Node.varying id n).children := mem_cons_self
    have h1 := hop.2 (G.closed _ hn _ hn') hs
    obtain ⟨s3, ha, rfl, rfl⟩ := Step.readVarying_eq hr
    obtain ⟨-, -, hmemo, hfunctions, -⟩ :=
      s3.updateRegistry_same c.stage (·.addVarying (Step.varyingDef id g))
    refine ⟨(h1.once.congr ha.memo ha.functions).congr hmemo hfunctions,
      fun a ha => absurd ha not_mem_nil, fun p hp => ?_⟩
    rw [hfunctions, ha.functions] at hp
    exact (h1.functions p hp).imp_right (.imp fun _ => .imp fun _ => .child hn')
  strayVarying := by
    intro id n c s g s1 t _ hop _ hn hs
    have hn' : n ∈ (Node.varying id n).children := mem_cons_self
    have ha := Session.Advance.report c s [.varyingStage (Step.varyingName id)]
    have h1 := hop.2 (G.closed _ hn _ hn') (hs.congr ha.memo ha.functions)
    refine ⟨h1.once, fun a ha => .child hn' (h1.sums a ha), fun p hp => ?_⟩
    exact (h1.functions p hp).imp (ha.functions ▸ ·) (.imp fun _ => .imp fun _ => .child hn')
  exhausted hr _ _ hs := by
    cases hr
    exact .advance hs (.report _ _ _) rfl

theorem once_everywhere (hG : G.Shared) : (once G).Everywhere :=
  (once_rules hG).everywhere Judgement.everywhere_trivial

end

end ShaderGraph
