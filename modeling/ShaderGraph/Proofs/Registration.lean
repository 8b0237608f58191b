import ShaderGraph.Proofs.Registries
import ShaderGraph.Proofs.Restrictions

/-!
# Registration of uniforms

A stage declares the uniforms of its registry, so whatever it reads has to be registered. The node
of a uniform registers it; a function registers what its body reads, also where it is known
already; and a result that is taken over whole registers what it lists. A result that is taken over
as a reference registers nothing. Its variable is declared in the stage, which has registered what
the variable needs, but the functions that it lists come along: what only they read may not be
registered.
-/

namespace ShaderGraph

open Eval List

variable {a v : Atom} {r m : String} {type : GlType} {own : List Stmt} {deps gs : List Generated} {x : Extras}
  {n start vertex fragment : Node} {G : Graph} {f : Function} {id : NodeId} {body g : Generated} {t : Trace}
  {reg : Registry} {A P : Stage → Prop} {stage : Stage} {s : Session} {passed : List VaryingDef}

/-! ## Names of uniforms -/

/-- Among the uniforms is one of that name. -/
def Lists (us : List Uniform) (r : String) : Prop := ∃ u ∈ us, u.name = r

def IsUniformName (r : String) : Prop := ∃ id, r = uniformName id

section
variable {us vs : List Uniform}

theorem Lists.mono (h : Lists us r) (hs : us ⊆ vs) : Lists vs r := by
  obtain ⟨u, hu, hr⟩ := h
  exact ⟨u, hs hu, hr⟩

theorem Lists.registered (h : Lists us r) (s : Session) (stage : Stage) :
    Lists ((s.updateRegistry stage (·.addUniforms us)).registry stage).uniforms r := by
  rw [Session.registry_update_self]
  exact h.mono (Registry.subset_addUniforms _ us)

namespace IsUniformName

theorem isResource (h : IsUniformName r) : IsResource r := by
  obtain ⟨id, rfl⟩ := h
  exact ⟨id, .inl rfl⟩

theorem ne_append (h : IsUniformName r) {p : String} (x : String) (hp : p.toList.head? ≠ some 'u')
    (hne : p.toList ≠ []) : r ≠ p ++ x := by
  obtain ⟨id, rfl⟩ := h
  exact append_ne_append (p := "uniform") (fun h => hp (h.symm.trans (by decide))) (by decide) hne _ x

theorem eq_name_of_text (h : IsUniformName r) (ha : a.text = r) : a = .name r := by
  by_cases hname : ∃ s, a = .name s
  · obtain ⟨s, rfl⟩ := hname
    rw [← ha]
    rfl
  · have hforeign := Atom.text_endsForeign fun s hs => hname ⟨s, hs⟩
    obtain ⟨xs, ds, c, hsplit, hds, hlast, hc, hor⟩ := hforeign.split
    obtain ⟨id, rfl⟩ := h
    rw [ha, uniformName, String.toList_append] at hsplit
    obtain ⟨rfl, rfl⟩ := append_digits_inj (fun _ => numeral_isDigit) hds ⟨'m', by decide, by decide⟩
      ⟨c, hlast, hc⟩ hsplit
    obtain rfl : 'm' = c := Option.some.inj ((by decide : _ = some 'm').symm.trans hlast)
    rcases hor with hnil | hbase
    · rw [toList_numeral] at hnil
      exact absurd hnil Nat.toDigits_ne_nil
    · exact absurd (by decide) hbase

end IsUniformName

end

theorem Atom.name_mem_sources : .name r ∈ a.sources ↔ a = .name r := by
  cases a <;> simp [Atom.sources, Atom.names, eq_comm]

/-! ## References -/

/-- A stage takes a result over as a reference, and with it a function that reads the name. -/
inductive Reuse.Refers (stage : Stage) (r : String) : Reuse → Prop where
  | taken {c : Scope} {g : Generated} {f : Function} (hc : c.stage = stage) (hg : g.isReference)
      (hf : f ∈ g.functions) (h : f.Mentions (.name r)) : Refers stage r (.taken c g)
  | discarded {g : Generated} {t : List Reuse} {e : Reuse} (he : e ∈ t) (h : Refers stage r e) :
      Refers stage r (.discarded g t)

def Trace.Refers (t : Trace) (stage : Stage) (r : String) : Prop := ∃ e ∈ t, e.Refers stage r

section
variable {t' : Trace}

theorem Trace.Refers.left (h : t.Refers stage r) (t' : Trace) : (t ++ t').Refers stage r := by
  obtain ⟨e, he, h⟩ := h
  exact ⟨e, mem_append_left _ he, h⟩

theorem Trace.Refers.right (h : t.Refers stage r) (t' : Trace) : (t' ++ t).Refers stage r := by
  obtain ⟨e, he, h⟩ := h
  exact ⟨e, mem_append_right _ he, h⟩

end

/-! ## What results show -/

/-- Where the code of a result or its variable reads the name there is `A`, and where one of its
functions does there is `B`. -/
structure Generated.Shows (r : String) (A B : Prop) (g : Generated) : Prop where
  code : .name r ∈ Stmt.allSources g.code.stmts → A
  var : g.var = .name r → A
  functions : ∀ f ∈ g.functions, f.Mentions (.name r) → B

section
variable {A B A' B' : Prop}

theorem Generated.Shows.imp (h : g.Shows r A B) (hA : A → A') (hB : B → B') : g.Shows r A' B' :=
  ⟨fun hr => hA (h.code hr), fun hr => hA (h.var hr), fun f hf hr => hB (h.functions f hf hr)⟩

theorem shows_gather (hdeps : ∀ d ∈ deps, d.Shows r A B) (hown : .name r ∈ Stmt.allSources own → A)
    (hvar : v = .name r → A) (hx : ∀ f ∈ x.functions, f.Mentions (.name r) → B) :
    ((Generated.gather type own v deps).extend x).Shows r A B where
  code h := by
    rcases Stmt.mem_allSources_append.mp h with h | h
    · obtain ⟨d, hd, h⟩ := Stmt.mem_allSources_flatMap.mp h
      exact (hdeps d hd).code h
    · exact hown h
  var := hvar
  functions f hf h := by
    rcases mem_adjoin_foldl hf with ⟨d, hd, hf⟩ | hf
    · exact (hdeps d hd).functions f hf h
    · exact hx f hf h

theorem Generated.Bare.shows (h : g.Bare) (hvar : g.var = .name r → A) : g.Shows r A B where
  code hr := by
    rw [h.code] at hr
    cases hr
  var := hvar
  functions f hf := by
    rw [h.functions] at hf
    cases hf

end

/-! ## Enrolment -/

/-- `A` holds of the stages that register the name. -/
def Session.Registers (r : String) (A : Stage → Prop) (s : Session) : Prop :=
  ∀ stage, Lists (s.registry stage).uniforms r → A stage

/-- Where a result reads the name there is `A` of the stage, or `P` if only its functions read it; and the
result lists all that it reads. -/
structure Generated.Enrolls (r : String) (A P : Stage → Prop) (stage : Stage) (g : Generated) : Prop where
  registered : g.Shows r (A stage) (A stage ∨ P stage)
  listed : g.Shows r (Lists g.uniforms r) (Lists g.uniforms r)
  declared : r ∈ g.declared → Lists g.uniforms r
  function : ∀ f, g.function = some f → f.Mentions (.name r) → Lists f.uniforms r

/-- What a session remembers is enrolled, where `σ` tells the stages of scopes. -/
structure Session.Enrolls (r : String) (A P : Stage → Prop) (σ : ScopeId → Stage) (s : Session) : Prop where
  main : Scope.vertexMain.id < s.nextScope ∧ σ Scope.vertexMain.id = .vertex
  emitted : ∀ k, (k, r) ∈ s.emitted → k < s.nextScope ∧ A (σ k)
  memo : ∀ p ∈ s.memo, p.2.scope < s.nextScope ∧ p.2.generated.Enrolls r A P (σ p.2.scope)
  functions : ∀ p ∈ s.functions, p.2.Mentions (.name r) → Lists p.2.uniforms r
  varyings : ∀ v ∈ s.fragment.varyings, v.Mentions (.name r) → A .vertex

/-- A scope of the session, and all that it sees belongs to its stage. -/
structure Scope.Stands (σ : ScopeId → Stage) (s : Session) (c : Scope) : Prop where
  own : c.id ∈ c.visible
  visible : ∀ k ∈ c.visible, k < s.nextScope ∧ σ k = c.stage

/-- The stages of the scopes below `n` are the same. -/
def SameStages (n : ScopeId) (σ σ' : ScopeId → Stage) : Prop := ∀ k < n, σ' k = σ k

section
variable {σ σ' σ'' : ScopeId → Stage} {c : Scope} {s1 s' : Session} {vs : List String}

theorem SameStages.trans {n m : ScopeId} (h : SameStages n σ σ') (h' : SameStages m σ' σ'') (hn : n ≤ m) :
    SameStages n σ σ'' :=
  fun k hk => (h' k (hk.trans_le hn)).trans (h k hk)

theorem Scope.Stands.mono (h : c.Stands σ s) (ha : SameStages s.nextScope σ σ') (hg : s.Grows s') :
    c.Stands σ' s' where
  own := h.own
  visible k hk := by
    obtain ⟨hlt, hstage⟩ := h.visible k hk
    exact ⟨hlt.trans_le hg.nextScope, (ha k hlt).trans hstage⟩

theorem Session.Registers.of_grows (h : s'.Registers r A) (hg : s.Grows s') : s.Registers r A :=
  fun stage hl => h stage (hl.mono (hg.registry stage).uniforms)

theorem Generated.Enrolls.lists (h : g.Enrolls r A P stage) (hf : g.From G) (hm : g.Mentions (.name r)) :
    Lists g.uniforms r := by
  cases hm with
  | code hr => exact h.listed.code hr
  | var hr =>
    exact h.listed.var (Atom.name_mem_sources.mp hr)
  | functions hk hr => exact h.listed.functions _ hk hr
  | @function f hfun hr =>
    have hfunctions := (hf.function f hfun).2.2.2
    exact h.listed.functions f (by simp [hfunctions]) hr

namespace Session.Enrolls

theorem initial (r : String) (A P : Stage → Prop) (nextId : NodeId) (folding : Bool) :
    Session.Enrolls r A P (fun k => if k = Scope.vertexMain.id then .vertex else .fragment)
      { nextId, folding } where
  main := ⟨Nat.zero_lt_two, rfl⟩
  emitted k hk := by cases hk
  memo p hp := by cases hp
  functions p hp := by cases hp
  varyings v hv := by cases hv

variable (h : s.Enrolls r A P σ)
include h

theorem advance (hc : c.Stands σ s) (ha : s.Advance c vs s') (hvs : r ∈ vs → A c.stage) :
    s'.Enrolls r A P σ where
  main := ha.nextScope ▸ h.main
  emitted k hk := by
    rw [ha.nextScope]
    rcases ha.of_mem_emitted hk with hk | ⟨rfl, hk⟩
    · exact h.emitted k hk
    · obtain ⟨hlt, hstage⟩ := hc.visible c.id hc.own
      exact ⟨hlt, hstage ▸ hvs hk⟩
  memo p hp := ha.nextScope ▸ h.memo p (ha.memo ▸ hp)
  functions := ha.functions ▸ h.functions
  varyings v hv := h.varyings v (ha.varyings .fragment ▸ hv)

theorem remember (hc : c.Stands σ s) (hg : g.Enrolls r A P c.stage) (id : NodeId) :
    (s.remember c id g).Enrolls r A P σ := by
  obtain ⟨hlt, hstage⟩ := hc.visible c.id hc.own
  exact ⟨h.main, h.emitted, forall_mem_cons.mpr ⟨⟨hlt, hstage ▸ hg⟩, h.memo⟩, h.functions, h.varyings⟩

theorem define (id : NodeId) (hf : f.Mentions (.name r) → Lists f.uniforms r) :
    Session.Enrolls r A P σ { s with functions := (id, f) :: s.functions } :=
  ⟨h.main, h.emitted, h.memo, forall_mem_cons.mpr ⟨hf, h.functions⟩, h.varyings⟩

theorem restage (ha : SameStages s.nextScope σ σ') : s.Enrolls r A P σ' where
  main := ⟨h.main.1, (ha _ h.main.1).trans h.main.2⟩
  emitted k hk := by
    obtain ⟨hlt, hl⟩ := h.emitted k hk
    exact ⟨hlt, ha k hlt ▸ hl⟩
  memo p hp := by
    obtain ⟨hlt, hcov⟩ := h.memo p hp
    exact ⟨hlt, ha _ hlt ▸ hcov⟩
  functions := h.functions
  varyings := h.varyings

theorem openScope : s.openScope.Enrolls r A P σ where
  main := h.main.imp_left Nat.lt_succ_of_lt
  emitted k hk := (h.emitted k hk).imp_left Nat.lt_succ_of_lt
  memo p hp := (h.memo p hp).imp_left Nat.lt_succ_of_lt
  functions := h.functions
  varyings := h.varyings

end Session.Enrolls

/-- A new scope of the stage of `c`. -/
def stagesWith (σ : ScopeId → Stage) (s : Session) (c : Scope) : ScopeId → Stage :=
  Function.update σ s.nextScope c.stage

theorem sameStages_stagesWith (σ : ScopeId → Stage) (s : Session) (c : Scope) :
    SameStages s.nextScope σ (stagesWith σ s c) :=
  fun _ hk => Function.update_of_ne hk.ne _ _

theorem Scope.Stands.loopBody (h : c.Stands σ s) :
    (c.loopBody s.nextScope).Stands (stagesWith σ s c) s.openScope where
  own := mem_cons_self
  visible := by
    refine forall_mem_cons.mpr ⟨⟨Nat.lt_succ_self _, Function.update_self ..⟩, fun k hk => ?_⟩
    obtain ⟨hlt, hstage⟩ := h.visible k hk
    exact ⟨Nat.lt_succ_of_lt hlt, (sameStages_stagesWith σ s c k hlt).trans hstage⟩

theorem Scope.Stands.functionBody (σ : ScopeId → Stage) (s : Session) (c : Scope) :
    (c.functionBody s.nextScope).Stands (stagesWith σ s c) s.openScope where
  own := mem_cons_self
  visible := forall_mem_singleton.mpr ⟨Nat.lt_succ_self _, Function.update_self ..⟩

theorem Session.Enrolls.vertexMain (h : s.Enrolls r A P σ) : Scope.vertexMain.Stands σ s where
  own := mem_cons_self
  visible := forall_mem_singleton.mpr h.main

/-! ## Results of steps -/

theorem Generated.Bare.enrolls (h : g.Bare)
    (hvar : g.var = .name r → A stage ∧ Lists g.uniforms r) : g.Enrolls r A P stage where
  registered := h.shows fun hv => (hvar hv).1
  listed := h.shows fun hv => (hvar hv).2
  declared hd := by
    rw [h.declared] at hd
    cases hd
  function f hf := by
    rw [h.function] at hf
    cases hf

theorem lists_gather {d : Generated} (hd : d ∈ deps) (h : Lists d.uniforms r) :
    Lists ((Generated.gather type own v deps).extend x).uniforms r :=
  h.mono fun _ hu => mem_adjoin_iff.mpr (.inl (mem_foldl_adjoin_iff.mpr (.inr ⟨d, hd, hu⟩)))

theorem lists_extend (h : Lists x.uniforms r) : Lists (g.extend x).uniforms r :=
  h.mono fun _ hu => mem_adjoin_iff.mpr (.inr hu)

theorem Opens.enrolls {m : Node} {bind : Generated → Step.Binding} (h : Opens body start s m s' bind)
    (hc : c.Stands σ s) (hs : s.Enrolls r A P σ) : s'.Enrolls r A P σ := by
  cases h with
  | accumulated | parameter => exact hs
  | own => exact hs.advance hc (.bump c s) fun h => by cases h

theorem enrolls_functionResult (hgives : ¬ G.Gives r) (hf : G.IsFunction f.name)
    (hlists : f.Mentions (.name r) → Lists f.uniforms r) (hreg : Lists f.uniforms r → A stage) :
    (Step.functionResult f).Enrolls r A P stage := by
  have hvar : Atom.name f.name ≠ .name r := fun h => hgives (.inl (Atom.name.inj h ▸ hf))
  refine ⟨⟨fun h => (by cases h), fun h => absurd h hvar, fun k hk hm => .inl ?_⟩,
    ⟨fun h => (by cases h), fun h => absurd h hvar, fun k hk hm => ?_⟩, fun h => (by cases h), fun k hk hm => ?_⟩
  · exact hreg (hlists (mem_singleton.mp hk ▸ hm))
  · exact hlists (mem_singleton.mp hk ▸ hm)
  · cases hk
    exact hlists hm

variable (hr : IsUniformName r)
include hr

theorem enrolls_gather (hdeps : ∀ d ∈ deps, d.Enrolls r A P stage)
    (hadds : .name r ∈ Stmt.allSources own ∨ v = .name r →
      A stage ∧ Lists ((Generated.gather type own v deps).extend x).uniforms r)
    (hx : ∀ f ∈ x.functions, f.Mentions (.name r) → (A stage ∨ P stage) ∧ Lists x.uniforms r) :
    ((Generated.gather type own v deps).extend x).Enrolls r A P stage where
  registered := shows_gather (fun d hd => (hdeps d hd).registered) (fun h => (hadds (.inl h)).1)
    (fun h => (hadds (.inr h)).1) fun f hf h => (hx f hf h).1
  listed := shows_gather (fun d hd => (hdeps d hd).listed.imp (lists_gather hd) (lists_gather hd))
    (fun h => (hadds (.inl h)).2) (fun h => (hadds (.inr h)).2) fun f hf h => lists_extend (hx f hf h).2
  declared h := by
    have hgathered (h : r ∈ deps.foldl (fun acc d => adjoin acc d.declared) []) :
        Lists ((Generated.gather type own v deps).extend x).uniforms r := by
      rcases mem_foldl_adjoin h with h | ⟨d, hd, h⟩
      · cases h
      · exact lists_gather hd ((hdeps d hd).declared h)
    change r ∈ ite .. at h
    split at h
    · exact hgathered h
    · rcases mem_adjoin h with h | h
      · exact hgathered h
      · exact (hadds (.inr (hr.eq_name_of_text (mem_singleton.mp h).symm))).2
  function f hf := by cases hf

theorem IsUniformName.mem_marks (h : r ∈ marks deps v) : (∃ d ∈ deps, d.var = .name r) ∨ v = .name r := by
  rcases mem_append.mp h with h | h
  · obtain ⟨d, hd, ht⟩ := mem_map.mp h
    exact .inl ⟨d, (mem_filter.mp hd).1, hr.eq_name_of_text ht⟩
  · exact .inr (hr.eq_name_of_text (mem_singleton.mp h).symm)

theorem IsUniformName.not_numbered (k : Nat) : ¬ Numbered k r :=
  hr.isResource.not_numbered k

theorem enrolls_outcome (hgives : ¬ G.Gives r) (hn : n ∈ G.nodes) (hlen : gs.length = n.operands.length)
    (hgs : ∀ d ∈ gs, d.Enrolls r A P c.stage) (hfrom : ∀ d ∈ gs, d.From G) (hc : c.Stands σ s)
    (hs : s.Enrolls r A P σ) (ho : Outcome n c gs s g s') : s'.Enrolls r A P σ ∧ g.Enrolls r A P c.stage := by
  cases ho with
  | declared φ hφ hg hs' =>
    subst hg hs'
    have hfits := Node.form_fits c hlen hφ
    have hnew : Atom.name (φ.name s.counter) ≠ .name r := fun h =>
      hr.not_numbered s.counter ⟨φ.base, hfits.base, (Atom.name.inj h).symm⟩
    refine ⟨hs.advance hc (φ.advance c _ s) fun h => ?_, enrolls_gather hr ?_ (fun h => ?_) ?_⟩
    · rcases hr.mem_marks h with ⟨d, hd, hvar⟩ | h
      · exact (hgs d (hfits.deps.subset hd)).registered.var hvar
      · exact absurd h hnew
    · exact fun d hd => hgs d (hfits.deps.subset hd)
    · rcases h with h | h
      · have hread : r ∈ φ.value.names := by
          simpa [Stmt.allSources, Stmt.sources, Expr.name_mem_sources] using h
        rcases hfits.reads r hread with ⟨d, hd, hvar⟩ | ⟨a, ha, rfl⟩
        · have hcov := hgs d (hfits.deps.subset hd)
          exact ⟨hcov.registered.var hvar, lists_gather hd (hcov.listed.var hvar)⟩
        · exact absurd (.inr (.inl ⟨a.id, a.index, a.type, hfits.arguments a ha ▸ hn⟩)) hgives
      · exact absurd h hnew
    · intro f hf hm
      obtain ⟨d, hd, hfun⟩ := hfits.functions f hf
      have hmem : f ∈ d.functions := by simp [((hfrom d hd).function f hfun).2.2.2]
      refine ⟨(hgs d hd).registered.functions f hmem hm, ?_⟩
      rw [hfits.uniforms]
      exact ((hgs d hd).function f hfun hm).mono fun u hu => mem_flatMap.mpr ⟨f, hf, hu⟩
  | @broken id a b cond value es hn' hgs' hg hs' =>
    subst hgs' hg hs'
    have hcond := hgs cond (by simp)
    have hvalue := hgs value (by simp)
    refine ⟨hs.advance hc (.thenMark (.report c s _) _) fun h => ?_,
      enrolls_gather (x := {}) hr hgs (fun h => ?_) fun f hf => by cases hf⟩
    · rcases hr.mem_marks h with ⟨d, hd, hvar⟩ | h
      · exact (hgs d hd).registered.var hvar
      · exact hvalue.registered.var h
    · rcases h with h | h
      · have hvar : cond.var = .name r :=
          Atom.name_mem_sources.mp (by simpa [Stmt.allSources, Stmt.sources] using h)
        exact ⟨hcond.registered.var hvar, lists_gather (by simp) (hcond.listed.var hvar)⟩
      · exact ⟨hvalue.registered.var h, lists_gather (by simp) (hvalue.listed.var h)⟩
  | failed _ hg hs' =>
    refine ⟨hs.advance hc hs'.toAdvance fun h => (by cases h), ?_⟩
    rcases hg with hg | rfl
    · exact hgs g hg
    · exact (Generated.bare_float 0).enrolls fun h => by cases h

theorem enrolls_immediate (hi : n.isImmediate) (hstep : (n.step c []).run s = (g, s')) (hbare : g.Bare)
    (hA : s'.Registers r A) (hc : c.Stands σ s) (hs : s.Enrolls r A P σ) :
    s'.Enrolls r A P σ ∧ g.Enrolls r A P c.stage := by
  cases n with
  | absent =>
    cases hstep
    exact ⟨hs.advance hc (.report c s _) fun h => (by cases h), hbare.enrolls fun h => by cases h⟩
  | float | bool =>
    cases hstep
    exact ⟨hs, hbare.enrolls fun h => by cases h⟩
  | uniform id u =>
    obtain ⟨rfl, es, rfl⟩ := Step.readUniform_eq hstep
    have hlists (h : u.name = r) : Lists [u] r := ⟨u, mem_singleton_self u, h⟩
    have hreg (h : u.name = r) : A c.stage := by
      refine hA c.stage ?_
      rw [Session.registry_mark]
      exact (hlists h).registered (s.report c es) c.stage
    refine ⟨hs.advance hc (.thenMark (.trans (.report c s es) (.useUniforms c _ c.stage [u])) _) fun h => ?_,
      hbare.enrolls fun h => ?_⟩
    · exact hreg (mem_singleton.mp h).symm
    · exact ⟨hreg (Atom.name.inj h), hlists (Atom.name.inj h)⟩
  | «attribute» id a =>
    obtain ⟨rfl, es, -, rfl⟩ := Step.readAttribute_eq hstep
    have hne : r ≠ a.name := hr.ne_append (p := "attribute") _ (by decide) (by decide)
    refine ⟨hs.advance hc (.thenMark (.trans (.report c s es) (.addAttribute c _ a)) _) fun h => ?_,
      hbare.enrolls fun h => ?_⟩
    · exact absurd (mem_singleton.mp h) hne
    · exact absurd (Atom.name.inj h).symm hne
  | _ => cases hi

theorem enrolls_takes (ht : s.Takes c id g s') (hA : s'.Registers r A) (hc : c.Stands σ s)
    (hs : s.Enrolls r A P σ) (href : ∀ stage, Trace.Refers [.taken c g] stage r → P stage) :
    s'.Enrolls r A P σ ∧ g.Enrolls r A P c.stage := by
  cases ht with
  | @reference e he hv =>
    obtain ⟨-, hcov⟩ := hs.memo _ (mem_of_lookup he)
    refine ⟨hs, ⟨fun h => (by cases h), fun hvar => ?_, fun f hf hm => .inr ?_⟩,
      ⟨fun h => (by cases h), hcov.listed.var, hcov.listed.functions⟩, hcov.declared, hcov.function⟩
    · -- the variable is declared in a scope of the stage
      obtain ⟨k, hk, hm⟩ := Session.isEmitted_iff.mp hv
      have htext : e.generated.var.text = r := congrArg Atom.text hvar
      rw [htext] at hm
      exact (hc.visible k hk).2 ▸ (hs.emitted k hm).2
    · exact href _ ⟨_, mem_cons_self, .taken rfl rfl hf hm⟩
  | @again e he hv hscope =>
    obtain ⟨-, hcov⟩ := hs.memo _ (mem_of_lookup he)
    have hstage : σ e.scope = c.stage := hscope ▸ (hc.visible c.id hc.own).2
    exact ⟨hs, hstage ▸ hcov⟩
  | @whole e he hv hscope hd =>
    obtain ⟨-, hcov⟩ := hs.memo _ (mem_of_lookup he)
    have hreg (h : Lists e.generated.uniforms r) : A c.stage := hA c.stage (h.registered _ c.stage)
    refine ⟨hs.advance hc (.take s c _) fun h => ?_, ?_⟩
    · rcases mem_append.mp h with h | h
      · exact hreg (hcov.declared h)
      · exact hreg (hcov.listed.var (hr.eq_name_of_text (mem_singleton.mp h).symm))
    · exact { hcov with registered := hcov.listed.imp hreg fun h => .inl (hreg h) }

theorem enrolls_loop (hgives : ¬ G.Gives r) {count : Generated} {b : Step.Binding} {k : Nat}
    (hvar : G.Gives b.var ∨ ∃ k, Numbered k b.var) (hdeps : ∀ d ∈ [b.initial, count], d.Enrolls r A P stage)
    (hbody : body.Enrolls r A P stage) : (Step.loopResult count body b k).Enrolls r A P stage := by
  have hnot : b.var ≠ r := by
    rintro rfl
    rcases hvar with hvar | ⟨k, hvar⟩
    · exact hgives hvar
    · exact hr.not_numbered k hvar
  refine enrolls_gather hr hdeps (fun h => ?_) fun f hf hm =>
    ⟨hbody.registered.functions f hf hm, hbody.listed.functions f hf hm⟩
  -- what is read is read by an operand or in the body
  have hoperand {d : Generated} (hd : d ∈ [b.initial, count]) (h : .name r ∈ d.var.sources) :
      A stage ∧ Lists (Step.loopResult count body b k).uniforms r := by
    have hv := Atom.name_mem_sources.mp h
    exact ⟨(hdeps d hd).registered.var hv, lists_gather hd ((hdeps d hd).listed.var hv)⟩
  rcases h with h | h
  · rcases Step.mem_loopStatements h with h | h | h | h | h
    · exact hoperand (by simp) h
    · exact hoperand (by simp) h
    · exact ⟨hbody.registered.code h, lists_extend (hbody.listed.code h)⟩
    · exact absurd (Source.name.inj h).symm hnot
    · have hv := Atom.name_mem_sources.mp h
      exact ⟨hbody.registered.var hv, lists_extend (hbody.listed.var hv)⟩
  · exact absurd (Atom.name.inj h) hnot

theorem enrolls_accumulator (hgives : ¬ G.Gives r) {name : String}
    (hn : Node.accumulator id name start ∈ G.nodes) (type : GlType) (k j : Nat) :
    ((Step.accumulatorForm name start type k).result j).Enrolls r A P stage := by
  refine enrolls_gather hr (fun d hd => (by cases hd)) (fun h => ?_) fun f hf => by cases hf
  rcases h with h | h
  · have h : Source.name r = .name (name ++ toString k) := by
      simpa [Step.accumulatorForm, Stmt.allSources, Stmt.sources, Expr.sources, Expr.names, Cast.names,
        Atom.names] using h
    exact absurd (.inr (.inr ⟨id, name, start, k, hn, Source.name.inj h⟩)) hgives
  · exact absurd ⟨"accum", .inl (by decide), (Atom.name.inj h).symm⟩ (hr.not_numbered j)

theorem enrolls_varying {x : Generated} (hA : s'.Registers r A) (hc : c.Stands σ s)
    (hstage : c.stage = .fragment) (hs : s.Enrolls r A P σ) (hg : g.Enrolls r A P .vertex) (hfrom : g.From G)
    (hread : (Step.readVarying c id g).run s = (x, s')) : s'.Enrolls r A P σ ∧ x.Enrolls r A P c.stage := by
  have hvaryings (v : VaryingDef) := Step.mem_varyings_of_readVarying (v := v) hstage hread
  have hstock := Step.readVarying_stock hread .vertex
  obtain ⟨s1, ha, rfl, rfl⟩ := Step.readVarying_eq hread
  have hne : Step.varyingName id ≠ r := (hr.ne_append (p := "varying") _ (by decide) (by decide)).symm
  have hs1 : s1.Enrolls r A P σ := hs.advance hc ha fun h => absurd (mem_singleton.mp h).symm hne
  have hbare : (Generated.resource g.type (Step.varyingName id)).Bare :=
    Generated.bare_resource _ ⟨id, .inr (.inr rfl)⟩
  refine ⟨?_, hbare.enrolls fun h => absurd (Atom.name.inj h) hne⟩
  obtain ⟨-, hnext, hmemo, hfunctions, hemitted⟩ :=
    s1.updateRegistry_same c.stage (·.addVarying (Step.varyingDef id g))
  refine ⟨hnext ▸ hs1.main, hnext ▸ hemitted ▸ hs1.emitted, hnext ▸ hmemo ▸ hs1.memo,
    hfunctions ▸ hs1.functions, fun v hv hm => ?_⟩
  rcases hvaryings v hv with hv | rfl
  · exact hs.varyings v hv hm
  · exact hA .vertex (hstock.1 ▸ (hg.lists hfrom (mentions_varyingDef hm)).registered _ .vertex)

/-! ## Every evaluation -/

/-- An evaluation keeps everything enrolled, where `A` holds of the stages that register the name in the end,
and `P` of those that take a function that reads it over with a reference. -/
def enrolls (G : Graph) (r : String) (A P : Stage → Prop) : Judgement := fun n c s g s' t =>
  n ∈ G.nodes → s.From G → s'.Registers r A → (∀ stage, t.Refers stage r → P stage) →
    ∀ σ, c.Stands σ s → s.Enrolls r A P σ →
      ∃ σ', SameStages s.nextScope σ σ' ∧ s'.Enrolls r A P σ' ∧ g.Enrolls r A P c.stage

omit hr in
theorem enrolls_threads {ns : List Node}
    (h : Threads ((grows.both (captured G)).both (enrolls G r A P)) c ns s gs s' t) (hns : ∀ n ∈ ns, n ∈ G.nodes)
    (hfrom : s.From G) (hA : s'.Registers r A) (href : ∀ stage, t.Refers stage r → P stage) (hc : c.Stands σ s)
    (hs : s.Enrolls r A P σ) : ∃ σ', SameStages s.nextScope σ σ' ∧ s'.Enrolls r A P σ' ∧ s.Grows s' ∧ s'.From G ∧
      ∀ g ∈ gs, g.From G ∧ g.Enrolls r A P c.stage := by
  induction h generalizing σ with
  | @nil s => exact ⟨σ, fun _ _ => rfl, hs, .refl s, hfrom, fun g hg => by cases hg⟩
  | @cons n ns s s1 s2 g gs t ts hn hrest ih =>
    obtain ⟨hmem, hns⟩ := forall_mem_cons.mp hns
    obtain ⟨hgrows, hcaptured⟩ := hn.1
    obtain ⟨hgfrom, hfrom1⟩ := hcaptured hmem hfrom
    obtain ⟨σ1, ha1, hs1, hg⟩ := hn.2 hmem hfrom (hA.of_grows (hrest.growing fun h => h.1.1))
      (fun stage h => href stage (h.left ts)) σ hc hs
    obtain ⟨σ2, ha2, hs2, hgrows2, hfrom2, hgs⟩ := ih hns hfrom1 hA (fun stage h => href stage (h.right t))
      (hc.mono ha1 hgrows) hs1
    exact ⟨σ2, ha1.trans ha2 hgrows.nextScope, hs2, hgrows.trans hgrows2, hfrom2,
      forall_mem_cons.mpr ⟨⟨hgfrom, hg⟩, hgs⟩⟩

theorem enrolls_rules (hgives : ¬ G.Gives r) : Rules (grows.both (captured G)) (enrolls G r A P) where
  immediate hi hstep hbare _ _ _ _ _ hA _ σ hc hs :=
    ⟨σ, fun _ _ => rfl, enrolls_immediate hr hi hstep hbare hA hc hs⟩
  reuse _ _ ht _ _ _ _ hA href σ hc hs := ⟨σ, fun _ _ => rfl, enrolls_takes hr ht hA hc hs href⟩
  compute hp _ ht _ ho _ hn hfrom hA href σ hc hs := by
    obtain ⟨σ1, ha, hs1, hgrows, -, hgs⟩ := enrolls_threads ht (fun m hm => G.operand_mem hp hn hm)
      hfrom (hA.of_grows (ho.grows.trans (.remember ..))) href hc hs
    have hc1 := hc.mono ha hgrows
    obtain ⟨hs2, hg⟩ := enrolls_outcome hr hgives hn ht.length (fun d hd => (hgs d hd).2)
      (fun d hd => (hgs d hd).1) hc1 hs1 ho
    exact ⟨σ1, ha, hs2.remember (hc1.mono (fun _ _ => rfl) ho.grows) hg _, hg⟩
  loop := by
    rintro id body count start c s gi s1 t1 s2 gb s3 t2 m s4 bind gm s5 t3 g s6
      _ hcount _ had2 hbody hopens hinit _ rfl had6 _ hn hfrom hA href σ hc hs
    obtain ⟨hcount_mem, hbody_mem, hstart⟩ := G.loop_mem hn
    have hgrows3 : s2.Grows s3 := (Session.Grows.openScope s2).trans hbody.1.1
    have hA5 := hA.of_grows (had6.grows.trans (.remember ..))
    have hA3 := hA5.of_grows (hopens.grows.trans hinit.1.1)
    obtain ⟨σ1, ha1, hs1, hgi⟩ := hcount.2 hcount_mem hfrom (hA3.of_grows (had2.grows.trans hgrows3))
      (fun stage h => href stage (h.left _)) σ hc hs
    obtain ⟨-, hfrom1⟩ := hcount.1.2 hcount_mem hfrom
    have hc1 := hc.mono ha1 hcount.1.1
    have hs2 := hs1.advance hc1 had2 fun h => by cases h
    have hc2 : c.Stands σ1 s2 := hc1.mono (fun _ _ => rfl) (.advance had2)
    -- the body is a new scope of the same stage
    obtain ⟨σ3, ha3, hs3, hgb⟩ := hbody.2 hbody_mem (hfrom1.advance had2).openScope hA3
      (fun stage h => href stage ((h.left t3).right t1)) _ hc2.loopBody
      (hs2.restage (sameStages_stagesWith σ1 s2 c)).openScope
    obtain ⟨hfromb, hfrom3⟩ := hbody.1.2 hbody_mem (hfrom1.advance had2).openScope
    have ha23 : SameStages s2.nextScope σ1 σ3 :=
      (sameStages_stagesWith σ1 s2 c).trans ha3 (Nat.le_succ _)
    have hc3 := hc2.mono ha23 hgrows3
    -- the initial value
    obtain ⟨hm, hvar⟩ := hopens.from hfromb hstart gm
    have hs4 := hopens.enrolls hc3 hs3
    have hc4 := hc3.mono (fun _ _ => rfl) hopens.grows
    obtain ⟨σ5, ha5, hs5, hgm⟩ := hinit.2 hm (hopens.from_session hfrom3) hA5
      (fun stage h => href stage ((h.right t2).right t1)) σ3 hc4 hs4
    have hc5 := hc4.mono ha5 hinit.1.1
    have hdeps : ∀ d ∈ [gm, gi], d.Enrolls r A P c.stage :=
      forall_mem_cons.mpr ⟨hgm, forall_mem_singleton.mpr hgi⟩
    have hcov : (Step.loopResult gi gb (bind gm) s5.counter).Enrolls r A P c.stage :=
      enrolls_loop hr hgives (hvar.imp_right fun h => ⟨_, h.1⟩) (hopens.initial.symm ▸ hdeps) hgb
    have hs6 : s6.Enrolls r A P σ5 := by
      refine hs5.advance hc5 had6 fun h => ?_
      rcases hr.mem_marks h with ⟨d, hd, hvar⟩ | h
      · exact (hdeps d hd).registered.var hvar
      · exact hcov.registered.var h
    have hle : s.nextScope ≤ s2.nextScope := (hcount.1.1.trans (.advance had2)).nextScope
    exact ⟨σ5, (ha1.trans ha23 hle).trans ha5 ((hgrows3.trans hopens.grows).nextScope.trans' hle),
      hs6.remember (hc5.mono (fun _ _ => rfl) (.advance had6)) hcov id, hcov⟩
  accumulator := by
    rintro id name start c s s1 g0 s0 t0 g s2 s3 _ _ _ _ ha rfl rfl _ hn _ _ _ σ hc hs
    have ha2 := (ha.trans (.bump c s3)).trans
      (Form.advance (Step.accumulatorForm name start g0.type s3.counter) c [] s3.bump)
    have hcov : ((Step.accumulatorForm name start g0.type s3.counter).result s3.bump.counter).Enrolls r A P c.stage :=
      enrolls_accumulator hr hgives hn _ _ _
    have hs2 := hs.advance hc ha2 fun h => by
      rcases hr.mem_marks (by simpa using h) with ⟨d, hd, -⟩ | h
      · cases hd
      · exact hcov.registered.var h
    exact ⟨σ, fun _ _ => rfl, hs2.remember (hc.mono (fun _ _ => rfl) (.advance ha2)) hcov id, hcov⟩
  knownFunction := by
    intro id name body c s f g s' hlook hstep _ _ _ _ hfrom hA _ σ hc hs
    have hmem := mem_of_lookup hlook
    cases hstep
    exact ⟨σ, fun _ _ => rfl, hs.advance hc (.useUniforms c s c.stage f.uniforms) fun h => (by cases h),
      enrolls_functionResult hgives (hfrom.functions _ hmem) (hs.functions _ hmem) fun h =>
        hA c.stage (h.registered s c.stage)⟩
  newFunction := by
    rintro id name body c s gb s1 t f s2 g s3 _ hb _ hstep rfl _ had _ hn hfrom hA href σ hc hs
    have hbody_mem := G.only_mem hn rfl
    have hgrows := Session.Grows.define s1 id (Step.functionOf id name gb)
    have hA1 := hA.of_grows (hgrows.trans had.grows)
    obtain ⟨σ1, ha1, hs1, hgb⟩ := hb.2 hbody_mem hfrom.openScope hA1 href _ (.functionBody σ s c)
      (hs.restage (sameStages_stagesWith σ s c)).openScope
    obtain ⟨hfromb, -⟩ := hb.1.2 hbody_mem hfrom.openScope
    have ha : SameStages s.nextScope σ σ1 := (sameStages_stagesWith σ s c).trans ha1 (Nat.le_succ _)
    have hc1 := hc.mono ha ((Session.Grows.openScope s).trans hb.1.1)
    have hlists (hm : (Step.functionOf id name gb).Mentions (.name r)) : Lists gb.uniforms r :=
      hgb.lists hfromb (mentions_functionOf hm)
    have hs2 := hs1.define id (f := Step.functionOf id name gb) hlists
    have hc2 := hc1.mono (fun _ _ => rfl) hgrows
    cases hstep
    exact ⟨σ1, ha, hs2.advance hc2 had fun h => (by cases h),
      enrolls_functionResult hgives ⟨id, body, hn⟩ hlists fun h => hA c.stage (h.registered _ c.stage)⟩
  varying := by
    intro id n c s g s1 t x s2 hp hop hread _ hn hfrom hA href σ hc hs
    have hmem := G.only_mem hn rfl
    have href' : ∀ stage, t.Refers stage r → P stage := by
      intro stage h
      refine href stage ?_
      split
      · obtain ⟨e, he, h⟩ := h
        exact ⟨_, mem_cons_self, .discarded he h⟩
      · exact h
    obtain ⟨σ1, ha, hs1, hg⟩ := hop.2 hmem hfrom (hA.of_grows (Step.readVarying_grows hread)) href' σ
      hs.vertexMain hs
    obtain ⟨hgfrom, -⟩ := hop.1.2 hmem hfrom
    exact ⟨σ1, ha, enrolls_varying hr hA (hc.mono ha hop.1.1) hp.1 hs1 hg hgfrom hread⟩
  strayVarying := by
    intro id n c s g s1 t _ hop _ hn hfrom hA href σ hc hs
    have had := Session.Advance.report c s [.varyingStage (Step.varyingName id)]
    obtain ⟨σ1, ha, h⟩ := hop.2 (G.only_mem hn rfl) (hfrom.advance had) hA href σ
      (hc.mono (fun _ _ => rfl) (.advance had)) (hs.advance hc had fun h => by cases h)
    exact ⟨σ1, had.nextScope ▸ ha, h⟩
  exhausted := by
    intro n c s g s' hstep _ _ _ _ _ σ hc hs
    cases hstep
    exact ⟨σ, fun _ _ => rfl, hs.advance hc (.report c s _) fun h => (by cases h),
      (Generated.bare_float 0).enrolls fun h => by cases h⟩

theorem enrolls_everywhere (hgives : ¬ G.Gives r) (A P : Stage → Prop) :
    ((grows.both (captured G)).both (enrolls G r A P)).Everywhere :=
  have h := grows_everywhere.both (captured_everywhere G)
  h.both ((enrolls_rules hr hgives).everywhere h)

end

/-! ## Programs -/

def Compiled.program (r : Compiled) : Stage → StageProgram
  | .vertex => r.vertexProgram
  | .fragment => r.fragmentProgram

def Compiled.result (r : Compiled) : Stage → Generated
  | .vertex => r.vertex
  | .fragment => r.fragment

def Job.source (j : Job) : Stage → String
  | .vertex => j.vertexSource
  | .fragment => j.fragmentSource

/-- What a stage reads in its main, in what it puts out or in its epilogue. -/
def StageProgram.ReadsItself (p : StageProgram) (out : Atom) (m : Source) : Prop :=
  m ∈ Stmt.allSources p.main ∨ m ∈ out.sources ∨ m ∈ Stmt.allSources p.epilogue

/-- A uniform is registered, and once. -/
def Registry.Holds (reg : Registry) (u : Uniform) : Prop :=
  u ∈ reg.uniforms ∧ (reg.uniforms.map (·.name)).count u.name = 1

theorem Registry.Stocked.holds (h : reg.Stocked G) (hG : G.Identifies) {u : Uniform} (hu : G.HasUniform u)
    (hl : Lists reg.uniforms u.name) : reg.Holds u := by
  obtain ⟨v, hv, hname⟩ := hl
  obtain rfl : v = u := hG.uniforms v u (h.origin v hv) hu (uniformName_inj hname)
  exact ⟨hv, count_eq_one_of_mem h.once (mem_map_of_mem hv)⟩

theorem compilePair_sameStock (vertex fragment : Node) (o : CompileOptions) (nextId : NodeId) (stage : Stage) :
    ((compiled vertex fragment o.folding nextId).session.registry stage).SameStock
      ((compilePair vertex fragment o nextId).session.registry stage) :=
  ((Session.Writes.report .vertexMain _ _).stock stage).trans ((Session.Writes.report .fragmentMain _ _).stock stage)

theorem Generated.Enrolls.of_readsItself (h : g.Enrolls m A P stage)
    (hpassed : ∀ v ∈ passed, v.Mentions (.name m) → A stage)
    (hreads : (StageProgram.ofResult stage reg g passed).ReadsItself g.var (.name m)) : A stage := by
  rcases hreads with hr | hr | hr
  · exact h.registered.code hr
  · exact h.registered.var (Atom.name_mem_sources.mp hr)
  · obtain ⟨v, hv, hr⟩ := Stmt.mem_allSources_flatMap.mp hr
    rcases Stmt.mem_allSources_append.mp hr with hr | hr
    · exact hpassed v hv (.code hr)
    · exact hpassed v hv (.source (by simpa [Stmt.allSources, Stmt.sources] using hr))

theorem Generated.Enrolls.of_function (h : g.Enrolls m A P stage)
    (hpassed : ∀ v ∈ passed, v.Mentions (.name m) → A stage)
    (hf : f ∈ (StageProgram.ofResult stage reg g passed).functions) (hr : .name m ∈ f.sources) :
    A stage ∨ P stage := by
  rcases Function.below_of_mem_flattenAll hf with hf | ⟨k, hk, hb⟩
  · cases hf
  · rcases mem_append.mp hk with hk | hk
    · exact h.registered.functions k hk ⟨f, hb, hr⟩
    · obtain ⟨v, hv, hk⟩ := mem_flatMap.mp hk
      exact .inl (hpassed v hv (.functions hk ⟨f, hb, hr⟩))

/-- What evaluating a pair leaves is enrolled, but for what is referred to. -/
theorem compiled_enrolls (hv : vertex ∈ G.nodes) (hf : fragment ∈ G.nodes) {folding : Bool} {nextId : NodeId}
    {r : Compiled} (hr : compiled vertex fragment folding nextId = r) (hm : IsUniformName m)
    (hgives : ¬ G.Gives m) (hA : r.session.Registers m A) :
    ∃ σ, r.session.Enrolls m A (r.trace.Refers · m) σ ∧
      ∀ stage, (r.result stage).Enrolls m A (r.trace.Refers · m) stage := by
  obtain ⟨gv, gf, s1, s2, tv, tf, hr', hvertex, hfragment⟩ :=
    compiled_eq (enrolls_everywhere hm hgives A (r.trace.Refers · m)) vertex fragment folding nextId
  obtain rfl := hr.symm.trans hr'
  have hinit : Session.From G { nextId, folding } := ⟨fun p hp => (by cases hp), fun p hp => (by cases hp)⟩
  have henrolls := Session.Enrolls.initial m A (Trace.Refers (tv ++ tf) · m) nextId folding
  obtain ⟨σ1, ha1, hs1, hgv⟩ := hvertex.2 hv hinit (hA.of_grows hfragment.1.1) (fun _ h => h.left tf) _
    henrolls.vertexMain henrolls
  -- the scope of the fragment stage is there from the start
  have hmain : Scope.fragmentMain.Stands σ1 s1 := by
    refine ⟨mem_cons_self, forall_mem_singleton.mpr ?_⟩
    exact ⟨Nat.one_lt_two.trans_le hvertex.1.1.nextScope, ha1 _ Nat.one_lt_two⟩
  obtain ⟨σ2, -, hs2, hgf⟩ := hfragment.2 hf (hvertex.1.2 hv hinit).2 hA (fun _ h => h.right tv) σ1 hmain hs1
  refine ⟨σ2, hs2, fun stage => ?_⟩
  cases stage with
  | vertex => exact hgv
  | fragment => exact hgf

theorem compiled_stocked (hG : G.Identifies) (hv : vertex ∈ G.nodes) (hf : fragment ∈ G.nodes) (folding : Bool)
    (nextId : NodeId) (stage : Stage) :
    ((compiled vertex fragment folding nextId).session.registry stage).Stocked G := by
  obtain ⟨gv, gf, s1, s2, tv, tf, hr, hvertex, hfragment⟩ :=
    compiled_eq (stocked_everywhere hG) vertex fragment folding nextId
  have hinit := Session.carries_initial (.stocked G) nextId folding
  have hs1 := hvertex.2 hv hinit fun stage => (by cases stage <;> exact .empty G)
  exact hr ▸ hfragment.2 hf (hvertex.1 hv hinit).2 hs1 stage

/-- Every uniform that the main of a stage, what it puts out or its epilogue reads is registered in
the stage, once. So is every uniform that one of its functions reads, unless the stage took over, as
a reference, a result that lists a function that reads it. The textures of a stage are those of its
uniforms, in the same order. A uniform is told by its name, which the graph must not give to
something else. -/
theorem uniforms_registered_unless_referred {G : Graph} (hG : G.Identifies) {vertex fragment : Node}
    (hv : vertex ∈ G.nodes) (hf : fragment ∈ G.nodes) {o : CompileOptions} {nextId : NodeId}
    {r : Compiled} (hr : compiled vertex fragment o.folding nextId = r) {j : Job}
    (hj : compilePair vertex fragment o nextId = j) (stage : Stage) :
    j.source stage = (r.program stage).sections.assemble.1 ∧
    (j.session.registry stage).textures = (j.session.registry stage).uniforms.filterMap (·.texture) ∧
    ∀ u, G.HasUniform u → ¬ G.Gives u.name →
      ((r.program stage).ReadsItself (r.result stage).var (.name u.name) →
        (j.session.registry stage).Holds u) ∧
      ∀ f ∈ (r.program stage).functions, .name u.name ∈ f.sources →
        (j.session.registry stage).Holds u ∨ r.trace.Refers stage u.name := by
  have hsame : (r.session.registry stage).SameStock (j.session.registry stage) :=
    hr ▸ hj ▸ compilePair_sameStock vertex fragment o nextId stage
  have hstock : (j.session.registry stage).Stocked G :=
    (hr ▸ compiled_stocked hG hv hf o.folding nextId stage).congr hsame
  have huniforms : (j.session.registry stage).uniforms = (r.session.registry stage).uniforms := hsame.1
  refine ⟨?_, hstock.textures, fun u hu hgives => ?_⟩
  · subst hj hr
    cases stage <;> rfl
  · obtain ⟨σ, hs, hresult⟩ := compiled_enrolls hv hf hr ⟨u.id, rfl⟩ hgives fun _ h => h
    have hholds (h : Lists (r.session.registry stage).uniforms u.name) : (j.session.registry stage).Holds u :=
      hstock.holds hG hu (huniforms ▸ h)
    obtain ⟨passed, hprogram, hpassed⟩ : ∃ passed,
        r.program stage = .ofResult stage (r.session.registry stage) (r.result stage) passed ∧
        ∀ v ∈ passed, v.Mentions (.name u.name) → Lists (r.session.registry stage).uniforms u.name := by
      cases stage with
      | vertex => exact ⟨_, rfl, hs.varyings⟩
      | fragment => exact ⟨[], rfl, fun v hv => by cases hv⟩
    rw [hprogram]
    exact ⟨fun h => hholds ((hresult stage).of_readsItself hpassed h),
      fun f hf h => ((hresult stage).of_function hpassed hf h).imp_left hholds⟩

/-! ## A function that is referred to -/

def referredUniform : Uniform := { id := 31, type := .float }

def referredFunction : Node :=
  .defun 35 "f" (.operator 34 .add [.argument 33 "p" 0 .float, .uniform 32 referredUniform])

def referredValue : Node := .builtin 37 .sin [.swizzle 36 (.resolution 5) "x"]

/-- Breaks off on a call of the function and has the variable of the value. -/
def referredBreak : Node :=
  .breakIf 42 (.operator 41 .gt [.call 39 referredFunction [.float 38 1], .float 40 0]) referredValue

def referredVertex : Node := .sumLoop 45 referredBreak (.float 43 3) (.float 44 0)

/-- Has the value declared when it comes to the break. -/
def referredFragment : Node :=
  .sumLoop 49 (.operator 46 .add [referredValue, referredBreak]) (.float 47 3) (.float 48 0)

def referredGraph : Graph :=
  .ofList [.uniform 32 referredUniform, .argument 33 "p" 0 .float,
    .operator 34 .add [.argument 33 "p" 0 .float, .uniform 32 referredUniform], referredFunction,
    .resolution 5, .swizzle 36 (.resolution 5) "x", referredValue, .float 38 1,
    .call 39 referredFunction [.float 38 1], .float 40 0,
    .operator 41 .gt [.call 39 referredFunction [.float 38 1], .float 40 0], referredBreak, .float 43 3,
    .float 44 0, referredVertex, .operator 46 .add [referredValue, referredBreak], .float 47 3, .float 48 0,
    referredFragment] <| by
  simp [referredFunction, referredValue, referredBreak, referredVertex, referredFragment, Node.children,
    Node.operands]

theorem referredGraph_identifies : referredGraph.Identifies := by
  have huniform (u : Uniform) (h : referredGraph.HasUniform u) : u = referredUniform := by
    simpa [Graph.HasUniform, referredGraph, Graph.ofList, referredFunction, referredValue, referredBreak,
      referredVertex, referredFragment] using h
  refine ⟨fun u v hu hv _ => (huniform u hu).trans (huniform v hv).symm, fun u t hu ht => ?_⟩
  rw [huniform u hu] at ht
  cases ht

/-- The fragment stage takes the break over as a reference, and with it the function. The uniform is
registered in a stage that reads it itself. -/
theorem referred_in_fragment :
    (compiled referredVertex referredFragment true 50).trace.Refers .fragment referredUniform.name ∧
      ((compilePair (.uniform 32 referredUniform) (.uniform 32 referredUniform) {} 50).session.registry
        .fragment).Holds referredUniform := by
  have hu : Node.uniform 32 referredUniform ∈ referredGraph.nodes := by simp [referredGraph, Graph.ofList]
  have hvertex : referredVertex ∈ referredGraph.nodes := by simp [referredGraph, Graph.ofList]
  have hfragment : referredFragment ∈ referredGraph.nodes := by simp [referredGraph, Graph.ofList]
  have hgives : ¬ referredGraph.Gives referredUniform.name := by
    simp [referredGraph, Graph.ofList, Graph.Gives, Graph.IsFunction, Graph.IsParameter, referredFunction,
      referredValue, referredBreak, referredVertex, referredFragment]
    decide
  have hmissing : ¬ ((compilePair referredVertex referredFragment {} 50).session.registry .fragment).Holds
      referredUniform := by
    unfold Registry.Holds
    decide +kernel
  obtain ⟨f, hf, hr⟩ : ∃ f ∈ (compiled referredVertex referredFragment true 50).fragmentProgram.functions,
      .name referredUniform.name ∈ f.sources := by decide +kernel
  obtain ⟨-, -, hall⟩ := uniforms_registered_unless_referred referredGraph_identifies hvertex hfragment
    (o := {}) (rfl : compiled referredVertex referredFragment true 50 = _) rfl .fragment
  obtain ⟨-, -, hown⟩ := uniforms_registered_unless_referred referredGraph_identifies hu hu
    (o := {}) (rfl : compiled _ _ true 50 = _) rfl .fragment
  exact ⟨((hall _ ⟨32, hu⟩ hgives).2 f hf hr).resolve_left hmissing,
    (hown _ ⟨32, hu⟩ hgives).1 (.inr (.inl (by decide +kernel)))⟩

/-- A function of the fragment stage reads a uniform that the stage has not registered. -/
theorem referred_unregistered :
    (compilePair referredVertex referredFragment {} 50).error? = none ∧
    (∃ f ∈ (compiled referredVertex referredFragment true 50).fragmentProgram.functions,
      .name referredUniform.name ∈ f.sources) ∧
    referredUniform ∉ (compilePair referredVertex referredFragment {} 50).session.fragment.uniforms := by
  decide +kernel

end ShaderGraph
