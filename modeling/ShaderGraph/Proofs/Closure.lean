import ShaderGraph.Proofs.Accounts

/-!
# Closed scopes

Without loops, everything that a main or a function body reads comes from outside, is declared
before, or is lost, and what is lost is declared nowhere in that body.
-/

namespace ShaderGraph

open Eval List

variable {G : Graph} {n : Node} {id : NodeId} {ns : List Node} {gs : List Generated} {φ : Form}
  {Q : String → Prop} {name : String} {gb : Generated} {s2 : Session}

/-! ## What evaluation keeps -/

/-- A parameter that a varying may pass on to the vertex stage, where it means nothing. -/
def Graph.Leaks (G : Graph) (r : String) : Prop :=
  G.IsParameter r ∧ ∃ id n, Node.varying id n ∈ G.nodes ∧ n.Open

def Graph.OuterOrLeaks (G : Graph) (r : String) : Prop := G.Outer r ∨ G.Leaks r

/-- A fragment stage beside a vertex stage gives the statements of new varyings to the latter. -/
def Passes (G : Graph) (c : Scope) (s s' : Session) (t : Trace) : Prop :=
  c.Paired → ∃ new, s'.fragment.varyings = s.fragment.varyings ++ new ∧
    Accounts G G.OuterOrLeaks Scope.vertexMain.id s (new.flatMap (·.statements)) s' t

structure Settles (G : Graph) (c : Scope) (s : Session) (g : Generated) (s' : Session) (t : Trace) :
    Prop where
  settled : Settled G s'
  sealed : Sealed G s'.counter g
  var : ∀ r, g.var = .name r → G.Outer r ∨ (c.id, r) ∈ s'.emitted
  accounts : Accounts G (G.Free g.arguments) c.id s g.code.stmts s' t
  confined : Confined c s s' t
  passes : Passes G c s s' t
  defines : Defines G s s' t

/-- Nodes that compute without loops. -/
def Node.isStraight : Node → Bool
  | .sumLoop .. | .breakIf .. | .accumulator .. => false
  | _ => true

/-- What a graph must be like: ids stand for one node, and there are no loops. -/
structure Graph.Straight (G : Graph) : Prop where
  shared : G.Shared
  straight : ∀ n ∈ G.nodes, n.isStraight

theorem Graph.Straight.regular (h : G.Straight) : G.Regular where
  shared := h.shared
  loops id body count start hn := absurd (h.straight _ hn) (by simp [Node.isStraight])
  breaks id a b hn := absurd (h.straight _ hn) (by simp [Node.isStraight])

def settles (G : Graph) : Judgement := fun n c s g s' t =>
  n ∈ G.nodes → c.In s → Settled G s → (∀ stage, (s'.registry stage).errors = []) →
    Settles G c s g s' t

section
variable {c : Scope} {s s1 s' : Session} {g : Generated} {t t' : Trace} {vs : List String} {bound : Nat}

theorem Passes.none (hg : s.Grows s') (hv : s'.fragment.varyings = s.fragment.varyings)
    (hm : c.Paired → ∀ v, (Scope.vertexMain.id, v) ∈ s'.emitted →
      (Scope.vertexMain.id, v) ∈ s.emitted ∨ G.Outer v)
    (ht : c.Paired → ∀ v, ¬ t.Loses Scope.vertexMain.id v) : Passes G c s s' t := fun hp =>
  ⟨[], by rw [hv, append_nil], .nothing hg (hm hp) (ht hp)⟩

theorem Passes.trans (h : Passes G c s s1 t) (h' : Passes G c s1 s' t') : Passes G c s s' (t ++ t') := by
  intro hp
  obtain ⟨new, hv, ha⟩ := h hp
  obtain ⟨new', hv', ha'⟩ := h' hp
  refine ⟨new ++ new', by rw [hv', hv, append_assoc], ?_⟩
  rw [flatMap_append]
  exact ha.trans (fun _ => .inl) ha'

theorem Passes.after (h : Passes G c s s1 t) (hg : s1.Grows s')
    (hv : s'.fragment.varyings = s1.fragment.varyings)
    (hm : c.Paired → ∀ v, (Scope.vertexMain.id, v) ∈ s'.emitted →
      (Scope.vertexMain.id, v) ∈ s1.emitted ∨ G.Outer v) : Passes G c s s' t := by
  intro hp
  obtain ⟨new, hv1, ha⟩ := h hp
  exact ⟨new, hv.trans hv1, ha.after hg (hm hp)⟩

theorem Scope.In.vertex_emitted (hc : c.In s) (ha : s1.Advance c vs s') (hp : c.Paired) :
    ∀ v, (Scope.vertexMain.id, v) ∈ s'.emitted → (Scope.vertexMain.id, v) ∈ s1.emitted ∨ G.Outer v :=
  fun _ hv => .inl ((ha.of_mem_emitted hv).resolve_right fun ⟨h, _⟩ => hc.apart hp h.symm)

theorem settles_still (hc : c.In s) (hs : Settled G s) (ha : s.Advance c vs s')
    (hl : Ledger G (fun _ => True) s') (hvs : ∀ v ∈ vs, G.Outer v) (hcode : g.code.stmts = [])
    (hsealed : Sealed G s'.counter g)
    (hvar : ∀ r, g.var = .name r → G.Outer r ∨ (c.id, r) ∈ s'.emitted)
    (ht : ∀ id v, ¬ t.Loses id v) : Settles G c s g s' t where
  settled := hs.advance hc ha hl
  sealed := hsealed
  var := hvar
  accounts := by
    rw [hcode]
    exact .nothing ha.grows (fun v hv => (ha.of_mem_emitted hv).imp_right fun ⟨_, h⟩ => hvs v h) (ht c.id)
  confined id v h := absurd h (ht id v)
  passes := .none ha.grows (ha.varyings .fragment) (hc.vertex_emitted ha) fun _ => ht _
  defines := .same ha.functions

theorem settles_whole {e : MemoEntry} (hc : c.In s) (hs : Settled G s) (he : (id, e) ∈ s.memo)
    (hd : ∀ v ∈ e.generated.declared, ¬ s.isEmitted c v)
    (ha : s.Advance c (e.generated.declared ++ [e.generated.var.text]) s')
    (hh : Handed G (fun _ => True) n c s e.generated s') :
    Settles G c s e.generated s' [.taken c e.generated] := by
  obtain ⟨hsealed, r, hr, hdecl⟩ : Sealed G s.counter e.generated ∧
    ∃ r, e.generated.var = .name r ∧ r ∈ declares e.generated.code.stmts := hs.memo _ he
  have hcode : ¬ e.generated.isReference := by
    intro href
    cases hcode : e.generated.code with
    | reference => simp [hcode, Code.stmts, declares] at hdecl
    | statements ss => simp [Generated.isReference, hcode, Code.isReference] at href
  have hmark : ∀ v ∈ e.generated.declared, (c.id, v) ∈ s'.emitted := by
    intro v hv
    obtain ⟨k, hk, -, -⟩ := hsealed.declared v hv
    exact ha.mem_emitted (mem_append_left _ hv) hk.ne_empty
  refine ⟨hs.advance hc ha hh.ledger, hsealed.mono ha.counter, ?_, ?_, ?_, ?_, .same ha.functions⟩
  · exact fun r hr => (hsealed.var r hr).imp_right (hmark r)
  · refine ⟨hh.placed.only hc.mem_visible, ?_, ?_, ?_⟩
    · exact hsealed.closed.imp fun r _ hr => hr.imp_right fun hr =>
        .inr (loses_taken.mpr ⟨rfl, hcode, hr⟩)
    · intro v hv
      refine (ha.of_mem_emitted hv).imp_right fun hv => ?_
      have hv := hv.2
      by_cases hdv : v ∈ declares e.generated.code.stmts
      · exact .inl hdv
      · rcases mem_append.mp hv with hv | hv
        · exact .inr (.inl (loses_taken.mpr ⟨rfl, hcode, hv, hdv⟩))
        · have hv : v = e.generated.var.text := mem_singleton.mp hv
          rw [hv, hr] at hdv
          exact absurd hdecl hdv
    · intro v hv
      obtain ⟨-, -, hv, hn⟩ := loses_taken.mp hv
      exact ⟨hn, (hsealed.declared v hv).mono ha.counter fun _ _ h => h, .inl fun hm =>
        hd v hv (hc.isEmitted.mpr (Session.isEmitted_only.mp hm)), hmark v hv⟩
  · exact fun id v h => .inl (loses_taken.mp h).1
  · exact .none ha.grows (ha.varyings .fragment) (hc.vertex_emitted ha) fun hp v h =>
      hc.apart hp (loses_taken.mp h).1.symm

theorem settles_of_takes (hc : c.In s) (hs : Settled G s) (ht : s.Takes c n.id g s')
    (hh : Handed G (fun _ => True) n c s g s') : Settles G c s g s' [.taken c g] := by
  cases ht with
  | @reference e he hv =>
    obtain ⟨hsealed, r, hr, hdecl⟩ := hs.memo _ (mem_of_lookup he)
    have hfun : e.generated.function = none := by
      by_contra hne
      rw [(hsealed.function hne).1] at hdecl
      cases hdecl
    refine settles_still hc hs (.refl c s) hs.ledger (forall_mem_nil _) rfl
      (hsealed.reference hfun) (fun q hq => .inr ?_) fun id v h => (loses_taken.mp h).2.1 rfl
    have hq : e.generated.var = .name q := hq
    rw [hq] at hv
    exact hc.isEmitted.mp hv
  | @again e he hv hscope =>
    obtain ⟨-, r, hr, hdecl⟩ := hs.memo _ (mem_of_lookup he)
    rcases (hs.ledger.memo _ (mem_of_lookup he)).marked with hm | hm
    · exact absurd (hc.isEmitted.mpr (hscope ▸ hm)) hv
    · simp [hm] at hdecl
  | @whole e he hv hscope hd => exact settles_whole hc hs (mem_of_lookup he) hd (.take s c _) hh

/-! ## Plain nodes -/

/-- The same for operands that are evaluated one after another. -/
structure SettlesAll (G : Graph) (c : Scope) (s : Session) (gs : List Generated) (s' : Session)
    (t : Trace) : Prop where
  settled : Settled G s'
  sealed : ∀ g ∈ gs, Sealed G s'.counter g
  var : ∀ g ∈ gs, ∀ r, g.var = .name r → G.Outer r ∨ (c.id, r) ∈ s'.emitted
  accounts : Accounts G (G.Free (gs.flatMap (·.arguments))) c.id s (gs.flatMap (·.code.stmts)) s' t
  confined : Confined c s s' t
  passes : Passes G c s s' t
  defines : Defines G s s' t

theorem settles_threads (h : Threads ((spreads.both (handed G)).both (settles G)) c ns s gs s' t)
    (hns : ∀ n ∈ ns, n ∈ G.nodes) (hc : c.In s) (hs : Settled G s)
    (herr : ∀ stage, (s'.registry stage).errors = []) : SettlesAll G c s gs s' t := by
  induction h with
  | @nil s =>
    have hnone (id : ScopeId) (v : String) : ¬ Trace.Loses [] id v := not_loses_nil
    exact ⟨hs, forall_mem_nil _, forall_mem_nil _, .nothing (.refl s) (fun _ => .inl) (hnone _),
      fun id v h => absurd h (hnone id v), .none (.refl s) rfl (fun _ _ => .inl) fun _ => hnone _, .same rfl⟩
  | @cons n ns s s1 s2 g gs t ts hn hrest ih =>
    obtain ⟨hmem, hns⟩ := forall_mem_cons.mp hns
    have hg := hn.1.1.toGrows
    have hg' : s1.Grows s2 := hrest.growing fun h => h.1.1.toGrows
    have h1 := hn.2 hmem hc hs fun stage => (hg'.registry stage).errors_nil (herr stage)
    have h2 := ih hns (hc.mono hg) h1.settled herr
    refine ⟨h2.settled, forall_mem_cons.mpr ⟨h1.sealed.mono hg'.counter, h2.sealed⟩,
      forall_mem_cons.mpr ⟨fun r hr => (h1.var r hr).imp_right (hg'.emitted.subset ·), h2.var⟩, ?_,
      h1.confined.trans h2.confined hg hg', h1.passes.trans h2.passes,
      h1.defines.trans h2.defines hc.lt hc.lt h1.confined h2.confined hg hg'⟩
    rw [flatMap_cons, flatMap_cons]
    refine Accounts.trans (fun _ => .inl) (h1.accounts.imp ?_) (h2.accounts.imp ?_)
    · exact fun r hr => hr.imp_right fun ⟨a, ha, hr⟩ => ⟨a, mem_append_left _ ha, hr⟩
    · exact fun r hr => hr.imp_right fun ⟨a, ha, hr⟩ => ⟨a, mem_append_right _ ha, hr⟩

theorem accounts_form (es : List GraphError) (hc : c.id ∈ c.visible) (hfits : φ.Fits n c gs)
    (hnamed : ∀ d ∈ φ.deps, ¬ d.isReference → ∃ r, d.var = .name r)
    (hvar : ∀ d ∈ φ.deps, ∀ r, d.var = .name r → G.Outer r ∨ (c.id, r) ∈ s.emitted) (hQ : ∀ r, G.Outer r → Q r)
    (hargs : ∀ a ∈ φ.extras.arguments, Q a.name) :
    Accounts G Q c.id s [.decl φ.type (φ.name s.counter) φ.value] (φ.session c es s) [] := by
  have ha := φ.advance c es s
  have hnum : Numbered s.counter (φ.name s.counter) := ⟨φ.base, hfits.base, rfl⟩
  have hlt := φ.lt_session_counter c es s
  have hmark : (c.id, φ.name s.counter) ∈ (φ.session c es s).emitted :=
    ha.mem_emitted mem_concat_self hnum.ne_empty
  refine ⟨Placed.only hc ?_, ?_, ?_, fun v hv => absurd hv not_loses_nil⟩
  · exact (Placed.nil (.refl s)).concat ha.grows hnum not_mem_nil (Nat.le_refl _) hlt trivial hmark
  · rw [closedUnder_singleton]
    intro r hr
    rcases hfits.reads r (Expr.name_mem_sources.mp hr) with ⟨d, hd, hdr⟩ | ⟨a, ha, rfl⟩
    · exact (hvar d hd r hdr).imp (hQ r) .inl
    · exact .inl (hargs a ha)
  · intro v hv
    rcases ha.of_mem_emitted hv with hv | ⟨-, hv⟩
    · exact .inl hv
    · rcases mem_append.mp hv with hv | hv
      · obtain ⟨d, hd, rfl⟩ := mem_map.mp hv
        obtain ⟨hd, href⟩ := mem_filter.mp hd
        obtain ⟨r, hr⟩ := hnamed d hd (by simpa using href)
        rw [hr]
        exact (hvar d hd r hr).elim (fun h => .inr (.inr (.inr h))) .inl
      · exact .inr (.inl hv)

theorem listed_of_reads {k : Nat} {r : String} (hfits : φ.Fits n c gs)
    (hsealed : ∀ d ∈ φ.deps, Sealed G bound d) (hsub : ∀ d ∈ φ.deps, declares d.code.stmts ⊆ d.declared)
    (hr : .name r ∈ Stmt.allSources (φ.result k).code.stmts) :
    G.Free (φ.result k).arguments r ∨ r ∈ (φ.result k).declared := by
  have hdeclared {d : Generated} (hd : d ∈ φ.deps) (h : r ∈ d.declared) : r ∈ (φ.result k).declared :=
    mem_declared_gather.mpr (.inl ⟨d, hd, h⟩)
  rcases Stmt.mem_allSources_append.mp hr with hr | hr
  · obtain ⟨d, hd, hr⟩ := Stmt.mem_allSources_flatMap.mp hr
    rcases (hsealed d hd).closed.reads hr with (hfree | ⟨hr, -⟩) | hr
    · exact .inl (hfree.imp_right fun ⟨a, ha, h⟩ => ⟨a, mem_adjoin_foldl_iff.mpr (.inl ⟨d, hd, ha⟩), h⟩)
    · exact .inr (hdeclared hd hr)
    · exact .inr (hdeclared hd (hsub d hd hr))
  · obtain ⟨st, hst, hr⟩ := Stmt.mem_allSources.mp hr
    rw [mem_singleton.mp hst] at hr
    rcases hfits.reads r (Expr.name_mem_sources.mp hr) with ⟨d, hd, hdr⟩ | ⟨a, ha, rfl⟩
    · exact ((hsealed d hd).var r hdr).imp .inl (hdeclared hd)
    · exact .inl (.inr ⟨a, mem_adjoin_foldl_iff.mpr (.inr ha), rfl⟩)

theorem Accounts.not_mem_of_emitted {id : ScopeId} {ss : List Stmt} {v : String} (h : Accounts G Q id s ss s' t)
    (hl : Ledger G (fun _ => True) s) (hv : (id, v) ∈ s.emitted) (hf : ¬ G.IsFunction v) : v ∉ declares ss :=
  fun hd => h.placed.not_isEmitted hl hd hf (Session.isEmitted_only.mpr hv)

theorem settles_declared (es : List GraphError) (hn : n ∈ G.nodes) (hc : c.In s) (hs : Settled G s)
    (hfits : φ.Fits n c gs) (h : SettlesAll G c s gs s1 t) (hall : HandedAll G (fun _ => True) ns c s gs s1)
    (hl' : Ledger G (fun _ => True) (φ.session c es s1))
    (hl : Ledger G (fun _ => True) ((φ.session c es s1).remember c n.id (φ.result s1.counter))) :
    Settles G c s (φ.result s1.counter) ((φ.session c es s1).remember c n.id (φ.result s1.counter)) t := by
  have ha := φ.advance c es s1
  have hdeps {d : Generated} (hd : d ∈ φ.deps) : d ∈ gs := hfits.deps.subset hd
  have hnum : Numbered s1.counter (φ.name s1.counter) := ⟨φ.base, hfits.base, rfl⟩
  have hlt := φ.lt_session_counter c es s1
  -- the operand that is left out has no code
  obtain ⟨rest, hrest⟩ := hfits.deps
  have hnone : ∀ d ∈ rest, d.code.stmts = [] ∧ d.arguments = [] := by
    intro d hd
    obtain ⟨f, -, hf⟩ := hfits.rest rest hrest.symm d hd
    exact (h.sealed d (hrest ▸ mem_append_right _ hd)).function (hf ▸ Option.some_ne_none f)
  have hcode : gs.flatMap (·.code.stmts) = φ.deps.flatMap (·.code.stmts) := by
    rw [← hrest, flatMap_append, flatMap_eq_nil_iff.mpr fun d hd => (hnone d hd).1,
      append_nil]
  have hargs : ∀ r, G.Free (gs.flatMap (·.arguments)) r → G.Free (φ.result s1.counter).arguments r := by
    rintro r (hr | ⟨a, ha, rfl⟩)
    · exact .inl hr
    · obtain ⟨d, hd, ha⟩ := mem_flatMap.mp ha
      rcases mem_append.mp (hrest ▸ hd) with hd | hd
      · exact .inr ⟨a, mem_adjoin_foldl_iff.mpr (.inl ⟨d, hd, ha⟩), rfl⟩
      · rw [(hnone d hd).2] at ha
        cases ha
  have hform : Accounts G (G.Free (φ.result s1.counter).arguments) c.id s1
      [.decl φ.type (φ.name s1.counter) φ.value] (φ.session c es s1) [] :=
    accounts_form es hc.mem_visible hfits (fun d hd => (h.sealed d (hdeps hd)).named)
      (fun d hd => h.var d (hdeps hd)) (fun _ => .inl)
      fun a ha => .inr ⟨a, mem_adjoin_foldl_iff.mpr (.inr ha), rfl⟩
  have hacc : Accounts G (G.Free (φ.result s1.counter).arguments) c.id s
      (φ.result s1.counter).code.stmts (φ.session c es s1) t := by
    have := (h.accounts.imp hargs).trans (fun _ => .inl) hform
    rw [hcode, append_nil] at this
    exact this
  have hsealed : Sealed G (φ.session c es s1).counter (φ.result s1.counter) := by
    refine ⟨hacc.closed.imp fun r hr hP => ?_, fun r hr => ?_, fun _ => ⟨_, rfl⟩, fun v hv => ?_,
      fun a ha => ?_, fun hne => absurd rfl hne⟩
    · have hlisted := listed_of_reads hfits (fun d hd => h.sealed d (hdeps hd))
        (fun d hd => (hall.tame d (hdeps hd)).subset) hr
      rcases hP with hfree | hem | hlost
      · exact .inl hfree
      · by_cases hf : G.IsFunction r
        · exact .inl (.inl (.inr hf))
        · exact hlisted.imp_right fun h => ⟨h, hacc.not_mem_of_emitted hs.ledger hem hf⟩
      · exact hlisted.imp_right fun h => ⟨h, (hacc.lost r hlost).1⟩
    · cases hr
      exact .inr (mem_declared_gather.mpr (.inr ⟨cons_ne_nil _ _, rfl⟩))
    · rcases mem_declared_gather.mp hv with ⟨d, hd, hv⟩ | ⟨-, rfl⟩
      · exact ((h.sealed d (hdeps hd)).mono ha.counter).declared v hv
      · exact ⟨_, hnum, hlt, trivial⟩
    · rcases mem_adjoin_foldl ha with ⟨d, hd, ha⟩ | ha
      · exact (h.sealed d (hdeps hd)).parameters a ha
      · exact ⟨a.id, a.index, a.type, hfits.arguments a ha ▸ hn⟩
  have hgrows : s1.Grows ((φ.session c es s1).remember c n.id (φ.result s1.counter)) :=
    ha.grows.trans (.remember ..)
  have hc1 := hc.mono hall.placed.grows
  have hown : φ.name s1.counter ∈ declares (φ.result s1.counter).code.stmts := by
    change _ ∈ declares (φ.deps.flatMap (·.code.stmts) ++ [.decl φ.type (φ.name s1.counter) φ.value])
    rw [declares_append]
    exact mem_concat_self
  refine ⟨(h.settled.advance hc1 ha hl').remember n.id hsealed ⟨_, rfl, hown⟩ hl, hsealed, fun r hr => ?_,
    hacc.after (.remember ..) fun v hv => .inl hv, ?_, ?_, ?_⟩
  · cases hr
    exact .inr (ha.mem_emitted mem_concat_self hnum.ne_empty)
  · exact fun id v hv => (h.confined id v hv).after hgrows
  · exact h.passes.after hgrows (ha.varyings .fragment) fun hp v hv => hc1.vertex_emitted ha hp v hv
  · exact h.defines.after hgrows ha.functions

/-! ## Functions and varyings -/

theorem Scope.In.functionBody (hc : c.In s) : (c.functionBody s.nextScope).In s.openScope :=
  ⟨rfl, Nat.lt_succ_self _, fun _ => Nat.ne_of_gt (Nat.zero_lt_of_lt hc.lt)⟩

theorem Scope.In.vertexMain (hc : c.In s) : Scope.vertexMain.In s :=
  ⟨rfl, Nat.zero_lt_of_lt hc.lt, fun hp => by cases hp.1⟩

theorem Settled.openScope (h : Settled G s) : Settled G s.openScope :=
  ⟨h.ledger.openScope, fun p hp => Nat.lt_succ_of_lt (h.scopes p hp), h.memo⟩

theorem closes_functionOf {d : Scope} (hnew : ∀ v, (d.id, v) ∉ s.emitted)
    (h : Settles G d s gb s' t) :
    t.Closes d.id ((Step.functionOf id name gb).Outer G) (Step.functionOf id name gb).statements := by
  have hacc := h.accounts.assign (fun _ => .inl) name fun r hr => (h.var r hr).imp_left .inl
  refine hacc.closes hnew fun r hr => ?_
  rcases hr with hr | ⟨a, ha, rfl⟩
  · exact .inl hr
  · exact .inr (Step.exists_param_functionOf ha)

theorem settles_newFunction {body : Node} {s3 : Session} (hn : Node.defun id name body ∈ G.nodes)
    (hc : c.In s) (hs : Settled G s) (hgb : s.openScope.Spreads (c.functionBody s.nextScope) s1)
    (hb : Settles G (c.functionBody s.nextScope) s.openScope gb s1 t)
    (ha : (s1.define id (Step.functionOf id name gb)).Advance c [] s3) (hl : Ledger G (fun _ => True) s3) :
    Settles G c s (Step.functionResult (Step.functionOf id name gb)) s3 t := by
  have hem : s3.emitted = s1.emitted := ha.emitted
  have hgrows : s1.Grows s3 := (Session.Grows.define ..).trans ha.grows
  have hgrows' : s.Grows s3 := ((Session.Grows.openScope s).trans hgb.toGrows).trans hgrows
  have hvaryings : s3.fragment.varyings = s1.fragment.varyings := ha.varyings .fragment
  have hname : G.IsFunction name := ⟨id, body, hn⟩
  have hout : ¬ Touched (c.functionBody s.nextScope) s.openScope s1 c.id := fun h =>
    Nat.ne_of_lt hc.lt (h.eq_of_lt (Nat.lt_succ_of_lt hc.lt) hc.apart)
  refine ⟨hb.settled.congr hgrows hem ha.memo hl, sealed_functionResult hname,
    fun r hr => ?_, .nothing hgrows' (fun v hv => .inl ?_) fun v hv => hout (hb.confined _ v hv), ?_, ?_, ?_⟩
  · cases hr
    exact .inl (.inr hname)
  · exact (hgb.marks _ (hem ▸ hv)).resolve_right hout
  · exact fun id v hv => (Touched.inner (c := c) (hb.confined id v hv) hgb.toGrows rfl fun h => h).after hgrows
  · intro hp
    obtain ⟨new, hv, hacc⟩ := hb.passes hp
    exact ⟨new, hvaryings.trans hv, (hacc.before (.openScope s) fun _ h => h).after hgrows fun v hv =>
      .inl (hem ▸ hv)⟩
  · obtain ⟨bodies, hnodup, hcl, hall⟩ := hb.defines
    have hnew : ∀ v, (s.nextScope, v) ∉ s.openScope.emitted := fun v hv =>
      Nat.lt_irrefl _ (hs.scopes _ hv)
    refine ⟨(s.nextScope, Step.functionOf id name gb) :: bodies, nodup_cons.mpr ⟨fun hm => ?_, hnodup⟩,
      forall_mem_cons.mpr ⟨?_, fun b hb => ?_⟩, fun p hp => ?_⟩
    · obtain ⟨b, hb, heq⟩ := mem_map.mp hm
      have hle := (hcl b hb).1
      rw [heq] at hle
      exact Nat.lt_irrefl _ hle
    · exact ⟨Nat.le_refl _, Nat.lt_of_lt_of_le hgb.nextScope hgrows.nextScope, closes_functionOf hnew hb⟩
    · obtain ⟨hle, hlt, h⟩ := hcl b hb
      exact ⟨Nat.le_of_succ_le hle, Nat.lt_of_lt_of_le hlt hgrows.nextScope, h⟩
    · rw [ha.functions] at hp
      rcases mem_cons.mp hp with rfl | hp
      · exact .inr mem_cons_self
      · exact (hall p hp).imp_right fun h => mem_cons_of_mem _ h

theorem Accounts.drop {Q' : String → Prop} (h : Accounts G Q Scope.vertexMain.id s g.code.stmts s1 t) :
    Accounts G Q' Scope.vertexMain.id s [] s1 [.discarded g t] where
  placed := .nil h.placed.grows
  closed := .nil
  marked v hv := by
    rcases h.marked v hv with hv | hv | hv | hv
    · exact .inl hv
    · exact .inr (.inr (.inl (loses_discarded.mpr (.inl ⟨rfl, hv⟩))))
    · exact .inr (.inr (.inl (loses_discarded.mpr (.inr hv))))
    · exact .inr (.inr (.inr hv))
  lost v hv := by
    refine ⟨not_mem_nil, ?_⟩
    rcases loses_discarded.mp hv with ⟨-, hv⟩ | hv
    · exact h.placed.newly v hv
    · exact (h.lost v hv).2

theorem settles_varying {r : Generated} (hc : c.In s) (hp : c.Paired) (hg : s.Spreads .vertexMain s1)
    (h : Settles G .vertexMain s g s1 t) (hargs : ∀ a ∈ g.arguments, G.Leaks a.name)
    (hsame : s1.fragment.varyings = s.fragment.varyings) (hr : (Step.readVarying c id g).run s1 = (r, s2))
    (hl : Ledger G (fun _ => True) s2) :
    Settles G c s r s2 (if s1.hasVarying c.stage (Step.varyingName id) then [.discarded g t] else t) := by
  have hvaryings := Step.readVarying_varyings hp.1 hr
  rw [hsame] at hvaryings
  have hg' := Step.readVarying_grows hr
  obtain ⟨s3, ha, rfl, rfl⟩ := Step.readVarying_eq hr
  obtain ⟨-, -, hmemo, hfunctions, hemitted⟩ :=
    s3.updateRegistry_same c.stage (·.addVarying (Step.varyingDef id g))
  have hres : IsResource (Step.varyingName id) := ⟨id, .inr (.inr rfl)⟩
  have hem : ∀ p ∈ (s3.updateRegistry c.stage (·.addVarying (Step.varyingDef id g))).emitted,
      p ∈ s1.emitted ∨ p.1 = c.id ∧ G.Outer p.2 := fun p hp' =>
    (ha.of_mem_emitted (hemitted ▸ hp')).imp_right fun ⟨hid, hv⟩ =>
      ⟨hid, .inl (mem_singleton.mp hv ▸ hres)⟩
  have hvertex : ∀ v, (Scope.vertexMain.id, v) ∈
      (s3.updateRegistry c.stage (·.addVarying (Step.varyingDef id g))).emitted →
      (Scope.vertexMain.id, v) ∈ s1.emitted ∨ G.Outer v := fun v hv =>
    (hem _ hv).imp_right fun ⟨_, h⟩ => h
  have hloses : ∀ i v, Trace.Loses
      (if s1.hasVarying c.stage (Step.varyingName id) then [.discarded g t] else t) i v →
      i = Scope.vertexMain.id ∨ t.Loses i v := by
    intro i v hv
    split at hv
    · exact (loses_discarded.mp hv).imp_left And.left
    · exact .inr hv
  have hlost (i : ScopeId) (v : String) (hv : Trace.Loses
      (if s1.hasVarying c.stage (Step.varyingName id) then [.discarded g t] else t) i v) :
      Touched .vertexMain s s1 i := (hloses i v hv).elim .inl (h.confined i v)
  have hout : ¬ Touched .vertexMain s s1 c.id := fun hi =>
    hc.apart hp (hi.eq_of_lt hc.lt fun hp => by cases hp.1)
  have hbare := Generated.bare_resource g.type hres
  have hl3 : Ledger G (fun _ => True) s3 := h.settled.ledger.advance ha fun v hv =>
    known_of_isResource (mem_singleton.mp hv ▸ hres) _
  refine ⟨(h.settled.advance (hc.mono hg.toGrows) ha hl3).congr (.addVarying ..) hemitted hmemo hl,
    sealed_of_bare hbare, fun r hr => .inl (.inl (hbare.var r hr)),
    .nothing (hg.toGrows.trans hg') (fun v hv => ?_) fun v hv => hout (hlost _ v hv),
    fun i v hv => ((hlost i v hv).vertex hp).after hg', ?_, ?_⟩
  · rcases hem _ hv with hv | ⟨-, hv⟩
    · exact .inl ((hg.marks _ hv).resolve_right hout)
    · exact .inr hv
  · intro _
    by_cases hhas : s1.hasVarying c.stage (Step.varyingName id)
    · rw [if_pos hhas] at hvaryings ⊢
      exact ⟨[], by rw [hvaryings, append_nil], h.accounts.drop.after hg' hvertex⟩
    · rw [if_neg hhas] at hvaryings ⊢
      refine ⟨_, hvaryings, ?_⟩
      have hfree : ∀ r, G.Free g.arguments r → G.OuterOrLeaks r := fun r hr =>
        hr.imp_right fun ⟨a, ha, hr⟩ => hr ▸ hargs a ha
      have hall := (h.accounts.imp hfree).assign (fun _ => .inl) (Step.varyingName id) fun r hr =>
        (h.var r hr).imp_left .inl
      rw [flatMap_singleton]
      exact hall.after hg' hvertex
  · refine (h.defines.after hg' (hfunctions.trans ha.functions)).congr fun i v hi => ⟨fun hv => ?_, fun hv => ?_⟩
    · refine (hloses i v hv).resolve_left fun hzero => ?_
      rw [hzero] at hi
      exact Nat.not_lt_zero c.id (Nat.lt_of_lt_of_le hc.lt hi)
    · split
      · exact loses_discarded.mpr (.inr hv)
      · exact hv

/-! ## Every evaluation -/

theorem Handed.arguments_eq_nil {K : Nat → Prop} (h : Handed G K n c s g s') (hn : ¬ n.Open) :
    g.arguments = [] := by
  by_contra hne
  exact hn (h.captures (.inl hne))

theorem settles_rules (hG : G.Straight) : Rules (spreads.both (handed G)) (settles G) where
  immediate _ _ hbare hvs ha hA hn hc hs _ := by
    have hh := hA.2 hn hc.mem_visible _ (fun _ _ => trivial) hs.ledger
    exact settles_still hc hs ha hh.ledger (fun v hv => .inl (hvs v hv)) hbare.code (sealed_of_bare hbare)
      (fun r hr => .inl (.inl (hbare.var r hr))) fun _ _ => not_loses_nil
  reuse _ _ ht _ hA hn hc hs _ :=
    settles_of_takes hc hs ht (hA.2 hn hc.mem_visible _ (fun _ _ => trivial) hs.ledger)
  compute := by
    intro n c s gs s1 t g s2 hp _ ht _ ho hA hn hc hs herr
    have hh := hA.2 hn hc.mem_visible _ (fun _ _ => trivial) hs.ledger
    have hns : ∀ m ∈ n.operands, m ∈ G.nodes := fun m hm => G.operand_mem hp hn hm
    simp only [Session.registry_remember] at herr
    have hall := handed_threads (K := fun _ => True) (ht.imp fun h => ⟨h.1.1.toGrows, h.1.2⟩) hns hc.mem_visible
      (fun _ _ => trivial) hs.ledger
    have h := settles_threads ht hns hc hs fun stage => (ho.grows.registry stage).errors_nil (herr stage)
    have hh2 := handed_outcome hp hn hG.regular.breaks hall ht.length trivial ho
    cases ho with
    | declared φ hφ hg hs2 =>
      subst hg hs2
      exact settles_declared _ hn hc hs (Node.form_fits c ht.length hφ) h hall hh2.ledger hh.ledger
    | broken hbreak => exact absurd (hG.straight n hn) (by simp [hbreak, Node.isStraight])
    | failed hne => exact absurd (herr c.stage) hne
  loop _ _ _ _ _ _ _ _ _ _ _ hn := absurd (hG.straight _ hn) (by simp [Node.isStraight])
  accumulator _ _ _ _ _ _ _ _ hn := absurd (hG.straight _ hn) (by simp [Node.isStraight])
  knownFunction := by
    rintro id name body c s f g s' hf _ rfl ha hA hn hc hs _
    have hh := hA.2 hn hc.mem_visible _ (fun _ _ => trivial) hs.ledger
    have hname := (hs.ledger.functions _ (mem_of_lookup hf)).1
    refine settles_still hc hs ha hh.ledger (forall_mem_nil _) rfl (sealed_functionResult hname)
      (fun r hr => ?_) fun id v h => (nomatch (loses_taken.mp h).2.2.1)
    cases hr
    exact .inl (.inr hname)
  newFunction := by
    rintro id name body c s gb s1 t f s2 g s3 _ hb _ _ rfl rfl ha hA hn hc hs herr
    have hh := hA.2 hn hc.mem_visible _ (fun _ _ => trivial) hs.ledger
    have h1 := hb.2 (G.only_mem hn rfl) hc.functionBody hs.openScope
      fun stage => (ha.registry stage).errors_nil (herr stage)
    exact settles_newFunction hn hc hs hb.1.1 h1 ha hh.ledger
  varying := by
    intro id n c s g s1 t r s2 hp hop hr hA hn hc hs herr
    have hh := hA.2 hn hc.mem_visible _ (fun _ _ => trivial) hs.ledger
    have hmem := G.only_mem hn rfl
    have hop_handed := hop.1.2 hmem hc.vertexMain.mem_visible _ (fun _ _ => trivial) hs.ledger
    have h1 := hop.2 hmem hc.vertexMain hs fun stage =>
      ((Step.readVarying_grows hr).registry stage).errors_nil (herr stage)
    obtain ⟨new, hnew, hnone, -, -⟩ := hop_handed.passed
    rw [hnone (fun hp => by cases hp.1), append_nil] at hnew
    refine settles_varying hc hp hop.1.1 h1 (fun a ha => ?_) hnew hr hh.ledger
    exact ⟨h1.sealed.parameters a ha, id, n, hn, hop_handed.captures (.inl (ne_nil_of_mem ha))⟩
  strayVarying := by
    intro id n c s g s1 t _ hop _ hn hc hs herr
    exact absurd ((hop.1.1.toGrows.registry c.stage).errors_nil (herr c.stage)) (s.report_errors_ne_nil c _)
  exhausted := by
    intro n c s g s' hr _ _ _ _ herr
    cases hr
    exact absurd (herr c.stage) (s.report_errors_ne_nil c _)

theorem settles_everywhere (hG : G.Straight) :
    ((spreads.both (handed G)).both (settles G)).Everywhere :=
  have h := spreads_everywhere.both ((handed_rules hG.regular).everywhere grows_everywhere)
  h.both ((settles_rules hG).everywhere h)

end

/-! ## Programs -/

def StageProgram.statements (p : StageProgram) (out : Atom) : List Stmt :=
  p.main ++ .assign p.stage.output out :: p.epilogue

theorem settled_initial (G : Graph) (nextId : NodeId) (folding : Bool) :
    Settled G { nextId, folding } where
  ledger := ⟨forall_mem_nil _, forall_mem_nil _, forall_mem_nil _, forall_mem_nil _⟩
  scopes := forall_mem_nil _
  memo := forall_mem_nil _

/-- In a job without loops and without errors, the main of the vertex stage with its varyings, the
main of the fragment stage and the body of every function read resources, functions, their own
parameters, variables that are declared before, or variables that are lost; and each of them is closed
if and only if it reads nothing that is lost. The vertex stage may also read the parameters of a
function that passes them on by a varying. -/
theorem closed_but_for_lost {G : Graph} (hG : G.Straight) {vertex fragment : Node}
    (hv : vertex ∈ G.nodes) (hf : fragment ∈ G.nodes) (hov : ¬ vertex.Open) (hof : ¬ fragment.Open)
    {o : CompileOptions} {nextId : NodeId} {r : Compiled}
    (hr : compiled vertex fragment o.folding nextId = r)
    (herr : (compilePair vertex fragment o nextId).error? = none) :
    (compilePair vertex fragment o nextId).vertexSource = r.vertexProgram.sections.assemble.1 ∧
    (compilePair vertex fragment o nextId).fragmentSource = r.fragmentProgram.sections.assemble.1 ∧
    r.trace.Closes Scope.vertexMain.id G.OuterOrLeaks (r.vertexProgram.statements r.vertex.var) ∧
    r.trace.Closes Scope.fragmentMain.id G.Outer (r.fragmentProgram.statements r.fragment.var) ∧
    ∃ bodies : List (ScopeId × Function), (bodies.map Prod.fst).Nodup ∧
      (∀ b ∈ bodies, Scope.fragmentMain.id < b.1 ∧
        r.trace.Closes b.1 (b.2.Outer G) b.2.statements) ∧
      ∀ f ∈ r.vertexProgram.functions ++ r.fragmentProgram.functions, f ∈ bodies.map Prod.snd := by
  have herrors : ∀ stage, (r.session.registry stage).errors = [] := fun stage =>
    hr ▸ errors_compiled herr stage
  have hhas {f : Function} := compiled_has (f := f) hr
  refine ⟨hr ▸ rfl, hr ▸ rfl, ?_⟩
  obtain ⟨gv, gf, s₁, s₂, tv, tf, hr', ⟨⟨hs₁, hh₁⟩, h₁⟩, ⟨hs₂, hh₂⟩, h₂⟩ :=
    compiled_eq (settles_everywhere hG) vertex fragment o.folding nextId
  have hg₁ := hs₁.toGrows
  have hg₂ := hs₂.toGrows
  obtain rfl := hr.symm.trans hr'
  have hs₀ := settled_initial G nextId o.folding
  have hin₁ : Scope.vertexMain.In { nextId, folding := o.folding } :=
    ⟨rfl, Nat.two_pos, fun hp => by cases hp.1⟩
  have hin₂ : Scope.fragmentMain.In s₁ := ⟨rfl, hg₁.nextScope, fun _ => by decide⟩
  have hh₁ := hh₁ hv hin₁.mem_visible _ (fun _ _ => trivial) hs₀.ledger
  have hh₂ := hh₂ hf hin₂.mem_visible _ (fun _ _ => trivial) hh₁.ledger
  have h₁ := h₁ hv hin₁ hs₀ fun stage => (hg₂.registry stage).errors_nil (herrors stage)
  have h₂ := h₂ hf hin₂ h₁.settled herrors
  -- the vertex stage touches nothing of the fragment stage
  have hout : ¬ Touched .vertexMain { nextId, folding := o.folding } s₁ Scope.fragmentMain.id := fun h => by
    cases h.eq_of_lt Nat.one_lt_two fun hp => by cases hp.1
  refine ⟨?_, ?_, ?_⟩
  · obtain ⟨new, hnew, hpassed⟩ := h₂.passes ⟨rfl, rfl⟩
    obtain ⟨none, hnone, hunpaired, -, -⟩ := hh₁.passed
    rw [hunpaired (fun hp => by cases hp.1), List.append_nil] at hnone
    rw [hnone, List.nil_append] at hnew
    have hmain : Accounts G G.OuterOrLeaks Scope.vertexMain.id _ gv.code.stmts s₁ tv :=
      (h₁.accounts.outer (hh₁.arguments_eq_nil hov)).imp fun _ => .inl
    have hout := hmain.assign (fun _ => .inl) Stage.vertex.output fun r hr => (h₁.var r hr).imp_left .inl
    have hall := hout.trans (fun _ => .inl) hpassed
    rw [← hnew, List.append_assoc] at hall
    exact hall.closes (fun v hv => (nomatch hv)) fun _ hr => hr
  · have hmain := h₂.accounts.outer (hh₂.arguments_eq_nil hof)
    have hall := hmain.assign (fun _ hr => hr) Stage.fragment.output h₂.var
    have hnew : ∀ v, (Scope.fragmentMain.id, v) ∉ s₁.emitted := fun v hv =>
      (hs₁.marks _ hv).elim (fun h => (nomatch h)) hout
    refine (hall.closes hnew fun _ hr => hr).congr fun v =>
      ⟨fun hv => ?_, fun hv => loses_append.mpr (.inr hv)⟩
    exact (loses_append.mp hv).resolve_left fun hv => hout (h₁.confined _ v hv)
  · obtain ⟨bodies, hnodup, hcl, hbodies⟩ :=
      h₁.defines.trans h₂.defines hin₁.lt Nat.one_lt_two h₁.confined h₂.confined hg₁ hg₂
    refine ⟨bodies, hnodup, fun b hb => ⟨(hcl b hb).1, (hcl b hb).2.2⟩, fun f hf => ?_⟩
    obtain ⟨id, hid⟩ := hhas hf
    exact (hbodies _ hid).resolve_left fun h => (nomatch h)

def tideLevel : Node := .operator 3 .add [.uniform 1 { id := 1, type := .float }, .float 2 1]

def tideWave : Node := .builtin 4 .sin [tideLevel]

def tideVector : Node := .construct 5 .vec2 [tideLevel, tideWave]

/-- A function whose body shares the level with the main of the vertex stage. -/
def tideFunction : Node := .defun 8 "tide" (.operator 7 .mult [.argument 6 "x" 0 .float, tideLevel])

def tideCall : Node := .call 10 tideFunction [.varying 9 tideWave]

def tideNodes : List Node :=
  [.uniform 1 { id := 1, type := .float }, .float 2 1, tideLevel, tideWave, tideVector,
    .argument 6 "x" 0 .float, .operator 7 .mult [.argument 6 "x" 0 .float, tideLevel], tideFunction,
    .varying 9 tideWave, tideCall]

def tideGraph : Graph := .ofList tideNodes <| by
  simp [tideNodes, tideLevel, tideWave, tideVector, tideFunction, tideCall, Node.children, Node.operands]

theorem tideWave_not_open : ¬ tideWave.Open := by
  simp [tideWave, tideLevel, Node.open_iff, Node.children, Node.operands]

theorem tideGraph_straight : tideGraph.Straight where
  shared := Graph.shared_ofList (by decide)
  straight := show ∀ n ∈ tideNodes, n.isStraight by decide

theorem tideGraph_not_leaks (r : String) : ¬ tideGraph.Leaks r := by
  rintro ⟨-, id, n, h, ho⟩
  have hn : n = tideWave := by
    simp [tideGraph, Graph.ofList, tideNodes, tideLevel, tideWave, tideVector, tideFunction, tideCall] at h
    simp [h, tideWave, tideLevel]
  rw [hn] at ho
  exact tideWave_not_open ho

/-- The vertex stage passes the wave on to a call. -/
def tideCalled : Compiled := compiled tideVector tideCall true 11

/-- Both stages use the wave. -/
def tideShared : Compiled := compiled tideVector tideWave true 11

theorem tideCalled_ok : (compilePair tideVector tideCall {} 11).error? = none := by decide +kernel

theorem tideCalled_lost : tideCalled.trace.lost = [] := by decide +kernel

theorem tideShared_ok : (compilePair tideVector tideWave {} 11).error? = none := by decide +kernel

theorem tideShared_reads : Source.name "addVal0" ∈
    Stmt.allSources (tideShared.fragmentProgram.statements tideShared.fragment.var) := by
  decide +kernel

theorem tideShared_not_declared : "addVal0" ∉
    declares (tideShared.fragmentProgram.statements tideShared.fragment.var) := by
  decide +kernel

theorem tideGraph_not_outer : ¬ tideGraph.Outer "addVal0" := by
  rintro (h | ⟨id, body, h⟩)
  · exact h.not_numbered 0 ⟨"addVal", isBase_val "add", rfl⟩
  · simp [tideGraph, Graph.ofList, tideNodes, tideLevel, tideWave, tideVector, tideFunction, tideCall] at h

/-- The fragment stage of a job without errors reads a variable that only the vertex stage declares. -/
theorem reads_undeclared :
    tideGraph.Straight ∧ (compilePair tideVector tideWave {} 11).error? = none ∧
      ¬ ClosedUnder tideGraph.Outer (tideShared.fragmentProgram.statements tideShared.fragment.var) := by
  refine ⟨tideGraph_straight, tideShared_ok, fun h => ?_⟩
  rcases h.reads tideShared_reads with h | h
  · exact tideGraph_not_outer h
  · exact tideShared_not_declared h

/-- The job that passes the wave on is closed, as nothing is lost in it. To the fragment stage that
takes over the wave, the level is lost. -/
theorem tideGraph_closed_but_for_lost :
    (ClosedUnder tideGraph.Outer (tideCalled.vertexProgram.statements tideCalled.vertex.var) ∧
      ClosedUnder tideGraph.Outer (tideCalled.fragmentProgram.statements tideCalled.fragment.var) ∧
      ∀ f ∈ tideCalled.vertexProgram.functions ++ tideCalled.fragmentProgram.functions,
        ClosedUnder (f.Outer tideGraph) f.statements) ∧
    tideShared.trace.Loses Scope.fragmentMain.id "addVal0" := by
  have hmem {n : Node} (h : n ∈ tideNodes) : n ∈ tideGraph.nodes := h
  have hv : tideVector ∈ tideGraph.nodes := hmem (by simp [tideNodes])
  have hov : ¬ tideVector.Open := by
    simp [tideVector, tideWave, tideLevel, Node.open_iff, Node.children, Node.operands]
  constructor
  · have hf : tideCall ∈ tideGraph.nodes := hmem (by simp [tideNodes])
    have hof : ¬ tideCall.Open := by
      simp [tideCall, tideFunction, tideWave, tideLevel, Node.open_iff, Node.not_open_defun, Node.children,
        Node.operands]
    have hr : compiled tideVector tideCall ({} : CompileOptions).folding 11 = tideCalled := rfl
    have hclosed {id : ScopeId} {P : String → Prop} {ss : List Stmt} (h : tideCalled.trace.Closes id P ss) :
        ClosedUnder P ss := h.closed_iff.mpr fun r _ hr => by
      rw [Trace.Loses, tideCalled_lost] at hr
      cases hr
    obtain ⟨hvertex, hfragment, bodies, -, hcl, hall⟩ :=
      (closed_but_for_lost tideGraph_straight hv hf hov hof hr tideCalled_ok).2.2
    refine ⟨(hclosed hvertex).imp fun r _ h => h.resolve_right (tideGraph_not_leaks r), hclosed hfragment,
      fun f hf => ?_⟩
    obtain ⟨b, hb, rfl⟩ := List.mem_map.mp (hall f hf)
    exact hclosed (hcl b hb).2
  · have hf : tideWave ∈ tideGraph.nodes := hmem (by simp [tideNodes])
    have hr : compiled tideVector tideWave ({} : CompileOptions).folding 11 = tideShared := rfl
    have hfragment := (closed_but_for_lost tideGraph_straight hv hf hov tideWave_not_open hr tideShared_ok).2.2.2.1
    rcases hfragment.closed.reads tideShared_reads with (h | h) | h
    · exact absurd h tideGraph_not_outer
    · exact h
    · exact absurd h tideShared_not_declared

end ShaderGraph
