import ShaderGraph.Proofs.Captures

/-!
# Stage restrictions

Attributes belong to the vertex stage and fragment coordinates to the fragment stage. The node
that reads one checks this when it is evaluated. Results that are reused are not checked again:
what a stage reads against the restrictions without an error, it has from a result that it took
over, from the memo or from the function table.
-/

namespace ShaderGraph

open Eval List

variable {r name : String} {type : GlType} {id : NodeId} {body count g : Generated} {gs : List Generated}
  {n : Node} {φ : Form} {k : Nat} {stage : Stage} {m : Source}

/-! ## What results mention -/

/-- Reads a source itself or through the functions that it calls. -/
def Function.Mentions (f : Function) (m : Source) : Prop := ∃ h : Function, h.Below f ∧ m ∈ h.sources

/-- The code of a result, its variable or its functions read a source. -/
inductive Generated.Mentions (g : Generated) (m : Source) : Prop where
  | code (h : m ∈ Stmt.allSources g.code.stmts)
  | var (h : m ∈ g.var.sources)
  | functions {f : Function} (hf : f ∈ g.functions) (h : f.Mentions m)
  | function {f : Function} (hf : g.function = some f) (h : f.Mentions m)

inductive VaryingDef.Mentions (v : VaryingDef) (m : Source) : Prop where
  | code (h : m ∈ Stmt.allSources v.code)
  | source (h : m ∈ v.source.sources)
  | functions {f : Function} (hf : f ∈ v.functions) (h : f.Mentions m)

/-- A stage takes over a result that mentions a source. -/
def Trace.Brings (t : Trace) (stage : Stage) (m : Source) : Prop :=
  ∃ c g, .taken c g ∈ t ∧ c.stage = stage ∧ g.Mentions m

/-- What a stage must not read: the fragment stage attributes, the vertex stage coordinates. -/
def Stage.Refuses : Stage → Source → Prop
  | .fragment, .name r => ∃ a : Attribute, r = a.name
  | .vertex, .coordinate => True
  | .fragment, .coordinate | .vertex, .name _ => False

/-- No name that the graph gives, and no name of a generated variable. -/
def Graph.Spares (G : Graph) (m : Source) : Prop := ∀ r, m = .name r → ¬ G.Gives r ∧ ∀ k, ¬ Numbered k r

section
variable {G : Graph} {c : Scope} {s s' : Session} {t t' : Trace}

theorem Trace.Brings.left (h : t.Brings stage m) (t' : Trace) : (t ++ t').Brings stage m := by
  obtain ⟨c, g, hm, h⟩ := h
  exact ⟨c, g, mem_append_left _ hm, h⟩

theorem Trace.Brings.right (h : t.Brings stage m) (t' : Trace) : (t' ++ t).Brings stage m := by
  obtain ⟨c, g, hm, h⟩ := h
  exact ⟨c, g, mem_append_right _ hm, h⟩

theorem Generated.mentions_of_var (h : g.var = .name r) : g.Mentions (.name r) :=
  .var (Atom.mem_sources.mpr ⟨r, rfl, h⟩)

theorem mentions_gather {own : List Stmt} {v : Atom} {deps : List Generated} {x : Extras}
    (h : ((Generated.gather type own v deps).extend x).Mentions m) :
    (∃ d ∈ deps, d.Mentions m) ∨ m ∈ Stmt.allSources own ∨ m ∈ v.sources ∨ ∃ f ∈ x.functions, f.Mentions m := by
  cases h with
  | code h =>
    rcases Stmt.mem_allSources_append.mp h with h | h
    · obtain ⟨d, hd, h⟩ := Stmt.mem_allSources_flatMap.mp h
      exact .inl ⟨d, hd, .code h⟩
    · exact .inr (.inl h)
  | var h => exact .inr (.inr (.inl h))
  | functions hf h =>
    rcases mem_adjoin_foldl hf with ⟨d, hd, hf⟩ | hf
    · exact .inl ⟨d, hd, .functions hf h⟩
    · exact .inr (.inr (.inr ⟨_, hf, h⟩))
  | function hf => cases hf

theorem mentions_functionResult {f : Function} (h : (Step.functionResult f).Mentions m) :
    f.Mentions m ∨ m = .name f.name := by
  cases h with
  | code h => cases h
  | var h =>
    obtain ⟨r, rfl, hr⟩ := Atom.mem_sources.mp h
    cases hr
    exact .inr rfl
  | functions hf h => exact .inl (mem_singleton.mp hf ▸ h)
  | function hf h => cases hf; exact .inl h

theorem mentions_functionOf (h : (Step.functionOf id name body).Mentions m) : body.Mentions m := by
  obtain ⟨f, hf, hm⟩ := h
  cases hf with
  | refl => exact (mem_append.mp hm).elim .code .var
  | callee hk hf => exact .functions hk ⟨f, hf, hm⟩

theorem mentions_varyingDef (h : (Step.varyingDef id g).Mentions m) : g.Mentions m := by
  cases h with
  | code h => exact .code h
  | source h => exact .var h
  | functions hf h => exact .functions hf h

theorem Generated.Bare.var_of_mentions (hb : g.Bare) (h : g.Mentions m) :
    ∃ r, m = .name r ∧ g.var = .name r := by
  cases h with
  | code h => rw [hb.code] at h; cases h
  | var h => exact Atom.mem_sources.mp h
  | functions hf => rw [hb.functions] at hf; cases hf
  | function hf => rw [hb.function] at hf; cases hf

/-! ## Names that are refused -/

theorem Stage.Refuses.attribute (h : stage.Refuses (.name r)) : ∃ a : Attribute, r = a.name := by
  cases stage with
  | fragment => exact h
  | vertex => cases h

theorem Stage.Refuses.not_numbered (h : stage.Refuses (.name r)) (k : Nat) : ¬ Numbered k r := by
  obtain ⟨a, rfl⟩ := h.attribute
  exact IsResource.not_numbered ⟨a.id, .inr (.inl rfl)⟩ k

theorem Stage.Refuses.spares (h : stage.Refuses m) (hgives : ∀ r, m = .name r → ¬ G.Gives r) : G.Spares m :=
  fun r hr => ⟨hgives r hr, (hr ▸ h).not_numbered⟩

theorem Stage.Refuses.ne_append {p : String} (h : stage.Refuses (.name r)) (x : String)
    (hp : p.toList.head? ≠ some 'a') (hne : p.toList ≠ []) : r ≠ p ++ x := by
  obtain ⟨a, rfl⟩ := h.attribute
  exact append_ne_append (p := "attribute") (fun h => hp (h.symm.trans (by decide))) (by decide) hne _ x

/-! ## Every evaluation -/

/-- Only a fragment stage beside a vertex stage registers varyings; what they read against the
restrictions of the vertex stage is taken over. -/
def Registers (stage : Stage) (m : Source) (c : Scope) (s s' : Session) (t : Trace) : Prop :=
  ∀ v ∈ s'.fragment.varyings, v ∉ s.fragment.varyings →
    c.Paired ∧ (stage = .vertex → v.Mentions m → t.Brings stage m)

namespace Registers

variable {s1 : Session}

theorem none (h : s'.fragment.varyings = s.fragment.varyings) : Registers stage m c s s' t :=
  fun _ hv hn => absurd (h ▸ hv) hn

theorem trans (h : Registers stage m c s s1 t) (h' : Registers stage m c s1 s' t') :
    Registers stage m c s s' (t ++ t') := by
  intro v hv hn
  by_cases hv1 : v ∈ s1.fragment.varyings
  · obtain ⟨hp, hb⟩ := h v hv1 hn
    exact ⟨hp, fun hst hm => (hb hst hm).left t'⟩
  · obtain ⟨hp, hb⟩ := h' v hv hv1
    exact ⟨hp, fun hst hm => (hb hst hm).right t⟩

theorem after (h : Registers stage m c s s1 t) (he : s'.fragment.varyings = s1.fragment.varyings) :
    Registers stage m c s s' t :=
  fun v hv => h v (he ▸ hv)

theorem before (h : Registers stage m c s1 s' t) (he : s1.fragment.varyings = s.fragment.varyings) :
    Registers stage m c s s' t :=
  fun v hv hn => h v hv (he ▸ hn)

end Registers

/-- What an evaluation reads against the restrictions of a stage, it takes over. -/
structure Reported (stage : Stage) (m : Source) (c : Scope) (s : Session) (g : Generated) (s' : Session)
    (t : Trace) : Prop where
  result : c.stage = stage → g.Mentions m → t.Brings stage m
  registers : Registers stage m c s s' t

def reported (G : Graph) (stage : Stage) (m : Source) : Judgement := fun n c s g s' t =>
  n ∈ G.nodes → s.From G → (s'.registry stage).errors = [] → Reported stage m c s g s' t

theorem reported_threads {ns : List Node}
    (h : Threads ((grows.both (captured G)).both (reported G stage m)) c ns s gs s' t)
    (hns : ∀ n ∈ ns, n ∈ G.nodes) (hs : s.From G) (herr : (s'.registry stage).errors = []) :
    (c.stage = stage → ∀ g ∈ gs, g.Mentions m → t.Brings stage m) ∧ Registers stage m c s s' t := by
  induction h with
  | nil => exact ⟨fun _ _ hg => (nomatch hg), .none rfl⟩
  | @cons n ns s s1 s2 g gs t ts hn hrest ih =>
    obtain ⟨hmem, hns⟩ := forall_mem_cons.mp hns
    have hgrows : s1.Grows s2 := hrest.growing fun h => h.1.1
    have h1 := hn.2 hmem hs ((hgrows.registry stage).errors_nil herr)
    obtain ⟨hresults, hregisters⟩ := ih hns (hn.1.2 hmem hs).2 herr
    refine ⟨fun hc d hd hm => ?_, h1.registers.trans hregisters⟩
    rcases mem_cons.mp hd with rfl | hd
    · exact (h1.result hc hm).left ts
    · exact (hresults hc d hd hm).right t

/-- What a declaration mentions, an operand does, if it is neither the name of a new variable nor one
that the graph gives. -/
theorem mentions_form (hn : n ∈ G.nodes) (hm : G.Spares m) (hfits : φ.Fits n c gs) (h : (φ.result k).Mentions m) :
    (∃ d ∈ gs, d.Mentions m) ∨ m = .coordinate ∧ ∃ q, φ.value = .coordinate q := by
  rcases mentions_gather h with ⟨d, hd, h⟩ | h | h | ⟨f, hf, h⟩
  · exact .inl ⟨d, hfits.deps.subset hd, h⟩
  · have h : m ∈ φ.value.sources := by simpa [Stmt.allSources, Stmt.sources] using h
    rcases Expr.mem_sources h with ⟨r, hr, rfl⟩ | h
    · rcases hfits.reads r hr with ⟨d, hd, hvar⟩ | ⟨a, ha, rfl⟩
      · exact .inl ⟨d, hfits.deps.subset hd, Generated.mentions_of_var hvar⟩
      · exact absurd (.inr (.inl ⟨a.id, a.index, a.type, hfits.arguments a ha ▸ hn⟩)) (hm _ rfl).1
    · exact .inr h
  · obtain ⟨r, rfl, hr⟩ := Atom.mem_sources.mp h
    cases hr
    exact absurd ⟨φ.base, hfits.base, rfl⟩ ((hm _ rfl).2 k)
  · obtain ⟨d, hd, hfun⟩ := hfits.functions f hf
    exact .inl ⟨d, hd, .function hfun h⟩

/-- The statements of a loop read its initial value, its count, what its body reads, the sum and the
value that is added. -/
theorem Step.mem_loopStatements {b : Binding} (h : m ∈ Stmt.allSources (loopStatements count body b k)) :
    m ∈ b.initial.var.sources ∨ m ∈ count.var.sources ∨ m ∈ Stmt.allSources body.code.stmts ∨
      m = .name b.var ∨ m ∈ body.var.sources := by
  simp only [loopStatements, Stmt.mem_allSources, mem_cons, not_mem_nil, or_false,
    exists_eq_or_imp, exists_eq_left, Stmt.sources, mem_append] at h
  rcases h with h | ((h | h) | h | h)
  · exact .inl (by simpa [Expr.sources, Expr.names, names_castOf, Atom.sources] using h)
  · refine .inr (.inl ?_)
    split at h
    · cases h
    · exact h
  · exact .inr (.inr (.inl (Stmt.mem_allSources.mpr h)))
  · exact .inr (.inr (.inr (.inl h)))
  · exact .inr (.inr (.inr (.inr h)))

theorem mentions_loop {b : Step.Binding} (hm : G.Spares m) (hvar : G.Gives b.var ∨ ∃ k, Numbered k b.var)
    (h : (Step.loopResult count body b k).Mentions m) :
    count.Mentions m ∨ body.Mentions m ∨ b.initial.Mentions m := by
  have hnot : m ≠ .name b.var := by
    rintro rfl
    rcases hvar with hvar | ⟨k, hvar⟩
    · exact (hm _ rfl).1 hvar
    · exact (hm _ rfl).2 k hvar
  rcases mentions_gather h with ⟨d, hd, hdm⟩ | h | h | ⟨f, hf, h⟩
  · rcases mem_pair.mp hd with rfl | rfl
    · exact .inr (.inr hdm)
    · exact .inl hdm
  · rcases Step.mem_loopStatements h with h | h | h | h | h
    · exact .inr (.inr (.var h))
    · exact .inl (.var h)
    · exact .inr (.inl (.code h))
    · exact absurd h hnot
    · exact .inr (.inl (.var h))
  · obtain ⟨r, rfl, hr⟩ := Atom.mem_sources.mp h
    cases hr
    exact absurd rfl hnot
  · exact .inr (.inl (.functions hf h))

theorem not_mentions_of_immediate (hm : stage.Refuses m) (hi : n.isImmediate)
    (hr : (n.step c []).run s = (g, s')) (hbare : g.Bare) (hc : c.stage = stage)
    (herr : (s'.registry stage).errors = []) : ¬ g.Mentions m := by
  intro h
  obtain ⟨r, rfl, hvar⟩ := hbare.var_of_mentions h
  cases n with
  | absent | float | bool =>
    cases hr
    cases hvar
  | uniform id u =>
    obtain ⟨rfl, -⟩ := Step.readUniform_eq hr
    cases hvar
    exact hm.ne_append (p := "uniform") (toString u.id) (by decide) (by decide) rfl
  | «attribute» id a =>
    obtain ⟨-, es, hes, rfl⟩ := Step.readAttribute_eq hr
    subst hc
    have hvertex : c.stage ≠ .vertex := fun hv => by rw [hv] at hm; cases hm
    refine hes hvertex ?_
    have herr : ((s.registry c.stage).errors ++ es) = [] := by
      simpa [Session.report, Registry.addErrors, Registry.addAttribute] using herr
    exact (append_eq_nil_iff.mp herr).2
  | _ => cases hi

theorem not_mentions_accumulator {start : Node} {j : Nat} (hm : G.Spares m)
    (hn : Node.accumulator id name start ∈ G.nodes) :
    ¬ ((Step.accumulatorForm name start type k).result j).Mentions m := by
  intro h
  rcases mentions_gather h with ⟨d, hd, -⟩ | h | h | ⟨f, hf, -⟩
  · cases hd
  · have h : m = .name (name ++ toString k) := by
      simpa [Step.accumulatorForm, Stmt.allSources, Stmt.sources, Expr.sources, Expr.names, Cast.names,
        Atom.names] using h
    exact (hm _ h).1 (.inr (.inr ⟨id, name, start, k, hn, rfl⟩))
  · obtain ⟨r, rfl, hr⟩ := Atom.mem_sources.mp h
    cases hr
    exact (hm _ rfl).2 j ⟨"accum", .inl (by decide), rfl⟩
  · cases hf

variable (hm : stage.Refuses m) (hgives : ∀ r, m = .name r → ¬ G.Gives r)
include hm hgives

theorem reported_declared (hn : n ∈ G.nodes) (hfits : φ.Fits n c gs) (hc : c.stage = stage)
    (herr : ((φ.session c (n.check c gs) s).registry stage).errors = []) (h : (φ.result s.counter).Mentions m) :
    ∃ d ∈ gs, d.Mentions m := by
  have hcheck : n.check c gs = [] := by
    rw [← hc, φ.session_errors] at herr
    exact (append_eq_nil_iff.mp herr).2
  refine (mentions_form hn (hm.spares hgives) hfits h).resolve_right ?_
  rintro ⟨rfl, q, hq⟩
  rcases hfits.coordinate q hq with hfrag | hne
  · rw [← hc, hfrag] at hm
    cases hm
  · exact absurd hcheck hne

theorem reported_outcome (hn : n ∈ G.nodes) (hlen : gs.length = n.operands.length) (hc : c.stage = stage)
    (herr : (s'.registry stage).errors = []) (ho : Outcome n c gs s g s') (h : g.Mentions m) :
    ∃ d ∈ gs, d.Mentions m := by
  cases ho with
  | declared φ hφ hg hs =>
    subst hg hs
    exact reported_declared hm hgives hn (Node.form_fits c hlen hφ) hc herr h
  | @broken id a b cond value es hn' hgs hg hs =>
    subst hgs hg
    rcases mentions_gather (x := {}) h with h | h | h | ⟨f, hf, -⟩
    · exact h
    · exact ⟨cond, by simp, .var (by simpa [Stmt.allSources, Stmt.sources] using h)⟩
    · exact ⟨value, by simp, .var h⟩
    · cases hf
  | failed hne hg hs => exact absurd (hc ▸ herr) hne

theorem reported_rules : Rules (grows.both (captured G)) (reported G stage m) where
  immediate hi hr hbare _ ha _ _ _ herr :=
    ⟨fun hc h => absurd h (not_mentions_of_immediate hm hi hr hbare hc herr), .none (ha.varyings .fragment)⟩
  reuse _ _ _ ha _ _ _ _ := ⟨fun hc h => ⟨_, _, mem_cons_self, hc, h⟩, .none (ha.varyings .fragment)⟩
  compute hp _ ht _ ho _ hn hs herr := by
    rw [Session.registry_remember] at herr
    obtain ⟨hresults, hregisters⟩ := reported_threads ht (fun m hm => G.operand_mem hp hn hm) hs
      ((ho.grows.registry stage).errors_nil herr)
    refine ⟨fun hc h => ?_, hregisters.after (ho.varyings .fragment)⟩
    obtain ⟨d, hd, h⟩ := reported_outcome hm hgives hn ht.length hc herr ho h
    exact hresults hc d hd h
  loop := by
    rintro id body count start c s gi s1 t1 s2 gb s3 t2 n s4 bind gm s5 t3 g s6
      _ hcount _ ha2 hbody hopens hinit _ rfl ha6 _ hn hs herr
    obtain ⟨hcount_mem, hbody_mem, hstart⟩ := G.loop_mem hn
    rw [Session.registry_remember] at herr
    -- no errors at the end, so none before
    have herr5 := (ha6.registry stage).errors_nil herr
    have herr3 := ((hopens.grows.trans hinit.1.1).registry stage).errors_nil herr5
    have hgrows3 : s1.Grows s3 := (ha2.grows.trans (.openScope s2)).trans hbody.1.1
    have herr1 := (hgrows3.registry stage).errors_nil herr3
    have h1 := hcount.2 hcount_mem hs herr1
    have hs2 := ((hcount.1.2 hcount_mem hs).2).advance ha2
    have h3 := hbody.2 hbody_mem hs2.openScope herr3
    obtain ⟨hgb, hs3⟩ := hbody.1.2 hbody_mem hs2.openScope
    obtain ⟨hn_mem, hvar⟩ := hopens.from hgb hstart gm
    have h5 := hinit.2 hn_mem (hopens.from_session hs3) herr5
    refine ⟨fun hc h => ?_, ?_⟩
    · rcases mentions_loop (hm.spares hgives) (hvar.imp_right fun h => ⟨_, h.1⟩) h with h | h | h
      · exact (h1.result hc h).left _
      · exact ((h3.result hc h).left t3).right t1
      · rw [hopens.initial] at h
        exact ((h5.result hc h).right t2).right t1
    · have hr3 : Registers stage m c s1 s3 t2 := h3.registers.before (ha2.varyings .fragment)
      have hr5 : Registers stage m c s3 s6 t3 :=
        (h5.registers.before hopens.varyings).after (ha6.varyings .fragment)
      exact h1.registers.trans (hr3.trans hr5)
  accumulator := by
    rintro id name start c s s1 g0 s0 t0 g s2 s3 _ _ _ _ ha rfl rfl _ hn hs herr
    refine ⟨fun _ h => absurd h (not_mentions_accumulator (hm.spares hgives) hn), .none ?_⟩
    have hform := (Step.accumulatorForm name start g0.type s3.counter).advance c [] s3.bump
    exact (hform.varyings .fragment).trans (ha.varyings .fragment)
  knownFunction _ _ _ ha _ _ _ _ :=
    ⟨fun hc h => ⟨_, _, mem_cons_self, hc, h⟩, .none (ha.varyings .fragment)⟩
  newFunction := by
    rintro id name body c s gb s1 t f s2 g s3 _ hb _ _ rfl rfl ha _ hn hs herr
    have h1 := hb.2 (G.only_mem hn rfl) hs.openScope ((ha.registry stage).errors_nil herr)
    refine ⟨fun hc h => ?_, ?_⟩
    · rcases mentions_functionResult h with h | h
      · exact h1.result hc (mentions_functionOf h)
      · exact absurd (.inl ⟨id, body, hn⟩) (hgives _ h)
    · exact Registers.after (h1.registers.before rfl) (ha.varyings .fragment)
  varying := by
    intro id n c s g s1 t r s2 hp hop hr _ hn hs herr
    have h1 := hop.2 (G.only_mem hn rfl) hs
      (((Step.readVarying_grows hr).registry stage).errors_nil herr)
    refine ⟨fun _ h => ?_, fun v hv hnew => ?_⟩
    · obtain ⟨-, -, rfl, -⟩ := Step.readVarying_eq hr
      have hres : IsResource (Step.varyingName id) := ⟨id, .inr (.inr rfl)⟩
      have hbare := Generated.bare_resource g.type hres
      obtain ⟨r, rfl, hvar⟩ := hbare.var_of_mentions h
      cases hvar
      exact absurd rfl (hm.ne_append (p := "varying") (toString id) (by decide) (by decide))
    · -- the operand is evaluated in the vertex stage, which registers nothing
      have hold : v ∉ s1.fragment.varyings := fun hv1 => by cases (h1.registers v hv1 hnew).1.1
      rw [Step.readVarying_varyings hp.1 hr] at hv
      by_cases hhas : s1.hasVarying c.stage (Step.varyingName id)
      · rw [if_pos hhas] at hv
        exact absurd hv hold
      · rw [if_neg hhas] at hv ⊢
        rcases mem_append.mp hv with hv | hv
        · exact absurd hv hold
        · rw [mem_singleton.mp hv]
          exact ⟨hp, fun hst hmen => h1.result hst.symm (mentions_varyingDef hmen)⟩
  strayVarying := by
    intro id n c s g s1 t _ hop _ hn hs herr
    have ha := Session.Advance.report c s [.varyingStage (Step.varyingName id)]
    have h1 := hop.2 (G.only_mem hn rfl) (hs.advance ha) herr
    refine ⟨fun hc _ => ?_, h1.registers.before (ha.varyings .fragment)⟩
    subst hc
    exact absurd ((hop.1.1.registry c.stage).errors_nil herr) (s.report_errors_ne_nil c _)
  exhausted := by
    intro n c s g s' hr _ _ _ herr
    cases hr
    refine ⟨fun hc _ => ?_, .none ((Session.Advance.report c s [.absentOperand]).varyings .fragment)⟩
    subst hc
    exact absurd herr (s.report_errors_ne_nil c _)

theorem reported_everywhere : ((grows.both (captured G)).both (reported G stage m)).Everywhere :=
  have h := grows_everywhere.both (captured_everywhere G)
  h.both ((reported_rules hm hgives).everywhere h)

end

/-! ## Programs -/

/-- A stage reads a source in its main, in what it puts out, in its epilogue or in a function. -/
def StageProgram.Reads (p : StageProgram) (out : Atom) (m : Source) : Prop :=
  m ∈ Stmt.allSources p.main ∨ m ∈ out.sources ∨ m ∈ Stmt.allSources p.epilogue ∨
    ∃ f ∈ p.functions, m ∈ f.sources

theorem StageProgram.mentions_of_reads {r : Registry} {passed : List VaryingDef}
    (h : (ofResult stage r g passed).Reads g.var m) : g.Mentions m ∨ ∃ v ∈ passed, v.Mentions m := by
  rcases h with h | h | h | ⟨f, hf, h⟩
  · exact .inl (.code h)
  · exact .inl (.var h)
  · obtain ⟨v, hv, h⟩ := Stmt.mem_allSources_flatMap.mp h
    rcases Stmt.mem_allSources_append.mp h with h | h
    · exact .inr ⟨v, hv, .code h⟩
    · exact .inr ⟨v, hv, .source (by simpa [Stmt.allSources, Stmt.sources] using h)⟩
  · rcases Function.below_of_mem_flattenAll hf with hf | ⟨k, hk, hb⟩
    · cases hf
    · rcases mem_append.mp hk with hk | hk
      · exact .inl (.functions hk ⟨f, hb, h⟩)
      · obtain ⟨v, hv, hk⟩ := mem_flatMap.mp hk
        exact .inr ⟨v, hv, .functions hk ⟨f, hb, h⟩⟩

/-- In a job without errors the fragment program reads an attribute, in main or in a function, only
if the fragment stage took over a result that mentions it, and the vertex program reads the fragment
coordinates, in main, in a function or for a varying, only if the vertex stage took over a result
that mentions them. An attribute is told by its name, which the graph must not give to something
else. -/
theorem reads_refused_of_taken {G : Graph} {vertex fragment : Node} (hv : vertex ∈ G.nodes)
    (hf : fragment ∈ G.nodes) {o : CompileOptions} {nextId : NodeId} {r : Compiled}
    (hr : compiled vertex fragment o.folding nextId = r)
    (herr : (compilePair vertex fragment o nextId).error? = none) :
    (compilePair vertex fragment o nextId).vertexSource = r.vertexProgram.sections.assemble.1 ∧
    (compilePair vertex fragment o nextId).fragmentSource = r.fragmentProgram.sections.assemble.1 ∧
    (∀ a : Attribute, ¬ G.Gives a.name → r.fragmentProgram.Reads r.fragment.var (.name a.name) →
      r.trace.Brings .fragment (.name a.name)) ∧
    (r.vertexProgram.Reads r.vertex.var .coordinate → r.trace.Brings .vertex .coordinate) := by
  have herrors : ∀ stage, (r.session.registry stage).errors = [] := fun stage =>
    hr ▸ errors_compiled herr stage
  have hinit : Session.From G { nextId, folding := o.folding } :=
    ⟨fun _ hp => (nomatch hp), fun _ hp => (nomatch hp)⟩
  have hrefuses (a : Attribute) : Stage.fragment.Refuses (.name a.name) := ⟨a, rfl⟩
  have hcoordinate : Stage.vertex.Refuses .coordinate := trivial
  have hnamed : ∀ r, Source.coordinate = .name r → ¬ G.Gives r := fun r hr => by cases hr
  refine ⟨hr ▸ rfl, hr ▸ rfl, fun a hgives h => ?_, fun h => ?_⟩
  · obtain ⟨gv, gf, s₁, s₂, tv, tf, hr', hvertex, hfragment⟩ :=
      compiled_eq (reported_everywhere (hrefuses a) fun r hr => Source.name.inj hr ▸ hgives) vertex
        fragment o.folding nextId
    obtain rfl := hr.symm.trans hr'
    have hrep := hfragment.2 hf (hvertex.1.2 hv hinit).2 (herrors .fragment)
    rcases StageProgram.mentions_of_reads h with h | ⟨v, hv, -⟩
    · exact (hrep.result rfl h).right tv
    · cases hv
  · obtain ⟨gv, gf, s₁, s₂, tv, tf, hr', hvertex, hfragment⟩ :=
      compiled_eq (reported_everywhere hcoordinate hnamed) vertex fragment o.folding nextId
    obtain rfl := hr.symm.trans hr'
    have hrep₁ := hvertex.2 hv hinit ((hfragment.1.1.registry .vertex).errors_nil (herrors .vertex))
    have hrep₂ := hfragment.2 hf (hvertex.1.2 hv hinit).2 (herrors .vertex)
    rcases StageProgram.mentions_of_reads h with h | ⟨v, hv, h⟩
    · exact (hrep₁.result rfl h).left tf
    · have hold : v ∉ s₁.fragment.varyings := fun hold => by
        cases (hrep₁.registers v hold fun h => (nomatch h)).1.1
      exact ((hrep₂.registers v hv hold).2 rfl h).right tv

def crossedAttribute : Attribute := { id := 31, type := .float, size := 1, instanced := false }

def crossedSum : Node := .operator 34 .add [.attribute 32 crossedAttribute, .float 33 1]

/-- The coordinates, and the coordinates of the vertex stage. -/
def crossedVector : Node := .construct 36 .vec4 [.coordinate 1 .uv, .varying 35 (.coordinate 1 .uv)]

def crossedGraph : Graph :=
  .ofList [.attribute 32 crossedAttribute, .float 33 1, crossedSum, .coordinate 1 .uv,
    .varying 35 (.coordinate 1 .uv), crossedVector] <| by
  simp [crossedSum, crossedVector, Node.children, Node.operands]

/-- A sum that both stages share is taken over by the fragment stage, and coordinates that the
fragment stage shares with a varying by the vertex stage. -/
theorem reads_refused_crossed :
    (compiled crossedSum crossedSum true 37).trace.Brings .fragment (.name crossedAttribute.name) ∧
      (compiled crossedSum crossedVector true 37).trace.Brings .vertex .coordinate := by
  have hsum : crossedSum ∈ crossedGraph.nodes := by simp [crossedGraph, Graph.ofList]
  have hvector : crossedVector ∈ crossedGraph.nodes := by simp [crossedGraph, Graph.ofList]
  have hgives : ¬ crossedGraph.Gives crossedAttribute.name := by
    simp [crossedGraph, Graph.ofList, Graph.Gives, Graph.IsFunction, Graph.IsParameter, crossedSum,
      crossedVector]
  have hshared : (compilePair crossedSum crossedSum {} 37).error? = none := by decide +kernel
  have hvarying : (compilePair crossedSum crossedVector {} 37).error? = none := by decide +kernel
  exact ⟨(reads_refused_of_taken hsum hsum rfl hshared).2.2.1 _ hgives (.inl (by decide +kernel)),
    (reads_refused_of_taken hsum hvector rfl hvarying).2.2.2 (.inr (.inr (.inl (by decide +kernel))))⟩

/-- What a stage must not read is read without an error. -/
theorem refused_unreported :
    ((compilePair crossedSum crossedSum {} 37).error? = none ∧
      Source.name crossedAttribute.name ∈
        Stmt.allSources (compiled crossedSum crossedSum true 37).fragmentProgram.main) ∧
    (compilePair crossedSum crossedVector {} 37).error? = none ∧
      Source.coordinate ∈
        Stmt.allSources (compiled crossedSum crossedVector true 37).vertexProgram.epilogue := by
  decide +kernel

end ShaderGraph
