import ShaderGraph.Proofs.Owners
import ShaderGraph.Proofs.Restrictions

/-!
# Varyings of a session

A varying is registered for the fragment stage when it is read there, once under its name, and passes
on the variable of a result of the vertex stage. In a session without errors that variable is a
literal, a resource of the vertex stage, or declared with the type of the varying by a result that is
remembered; a variable has one type, unless the graph gives its name; and the name of a varying is read
where the varying is registered, and assigned to by no code.
-/

namespace ShaderGraph

open Eval List

variable {f : Function} {gs : List Generated} {id : NodeId}

/-! ## What code assigns to -/

inductive Stmt.Target where
  /-- A statement assigns to the variable. -/
  | assigned (v : String)
  /-- A loop adds to the variable. -/
  | summed (v : String)
deriving DecidableEq

mutual

def Stmt.targets : Stmt → List Stmt.Target
  | .assign v _ => [.assigned v]
  | .loop _ _ body v _ => .summed v :: Stmt.allTargets body
  | .decl .. | .breakIf _ | .verbatim _ => []

/-- What statements assign to or add to, in the bodies of loops too. -/
def Stmt.allTargets : List Stmt → List Stmt.Target
  | [] => []
  | st :: ss => st.targets ++ Stmt.allTargets ss

end

theorem Stmt.allTargets_append (ss ts : List Stmt) : allTargets (ss ++ ts) = allTargets ss ++ allTargets ts := by
  induction ss with
  | nil => rfl
  | cons st ss ih => rw [cons_append, allTargets, allTargets, ih, append_assoc]

theorem Stmt.allTargets_flatMap {α : Type} (xs : List α) (f : α → List Stmt) :
    allTargets (xs.flatMap f) = xs.flatMap fun x => allTargets (f x) := by
  induction xs with
  | nil => rfl
  | cons x xs ih => rw [flatMap_cons, allTargets_append, ih, flatMap_cons]

/-! ## What variables are -/

/-- The names that the vertex stage can pass on, and their types. -/
inductive Session.VertexTypes (s : Session) : String → GlType → Prop where
  | declared {type : GlType} {v : String} {e : Expr} (h : s.Declares type v e) : VertexTypes s v type
  | uniform {u : Uniform} (hu : u ∈ s.vertex.uniforms) : VertexTypes s u.name u.type
  | attribute {a : Attribute} (ha : a ∈ s.vertex.attributes) : VertexTypes s a.name a.type
  | varying {v : VaryingDef} (hv : v ∈ s.fragment.varyings) : VertexTypes s v.name v.type

/-- What the variable of a result is, under the type of the result. -/
inductive Generated.Denotes (G : Graph) (s : Session) (g : Generated) : Prop where
  | literal (h : g.var.HasType (fun _ _ => False) g.type)
  | uniform {u : Uniform} (hu : u ∈ g.uniforms) (hv : g.var = .name u.name) (ht : g.type = u.type)
  | attribute {a : Attribute} (ha : a ∈ s.vertex.attributes) (hv : g.var = .name a.name) (ht : g.type = a.type)
  | varying {v : VaryingDef} (hmem : v ∈ s.fragment.varyings) (hv : g.var = .name v.name) (ht : g.type = v.type)
  | function {r : String} (hf : G.IsFunction r) (hv : g.var = .name r) (ht : g.type = .function)
  | declared {r : String} {e : Expr} (hd : r ∈ g.declared) (hv : g.var = .name r) (h : s.Declares g.type r e)

/-- The name of a varying that the graph gives to nothing else. -/
def Graph.IsVarying (G : Graph) (r : String) : Prop := ¬ G.Gives r ∧ ∃ id, r = Step.varyingName id

/-- Code assigns to nothing and adds to numbered variables, and to names that the graph gives. -/
def Graph.Targets (G : Graph) (ss : List Stmt) : Prop :=
  ∀ w ∈ Stmt.allTargets ss, ∃ r, w = .summed r ∧ (G.Gives r ∨ ∃ k, Numbered k r)

structure Generated.Clear (G : Graph) (s : Session) (g : Generated) : Prop where
  denotes : g.Denotes G s
  covered : s.Covers g.code.stmts
  targets : G.Targets g.code.stmts
  mentions : ∀ r, G.IsVarying r → g.Mentions (.name r) → s.Lists r

structure VaryingDef.Clear (G : Graph) (s : Session) (v : VaryingDef) : Prop where
  source : v.source.HasType s.VertexTypes v.type
  covered : s.Covers v.code
  targets : G.Targets v.code

structure Session.Clear (G : Graph) (s : Session) : Prop where
  vertex : s.vertex.varyings = []
  nodup : (s.fragment.varyings.map (·.name)).Nodup
  numbered : ∀ {type v e}, s.Declares type v e → G.Gives v ∨ ∃ k, Numbered k v
  unique : ∀ {type type' v e e'}, s.Declares type v e → s.Declares type' v e' → G.Gives v ∨ type = type'
  varyings : ∀ v ∈ s.fragment.varyings, v.Clear G s

section
variable {G : Graph} {s s' : Session} {T : Trace} {c : Scope} {n : Node} {g : Generated} {r : String}

theorem Graph.IsVarying.spares (h : G.IsVarying r) : G.Spares (.name r) := by
  rintro _ ⟨⟩
  obtain ⟨hgives, id, rfl⟩ := h
  exact ⟨hgives, IsResource.not_numbered ⟨id, .inr (.inr rfl)⟩⟩

theorem Generated.Denotes.transfer {h : Generated} (hg : g.Denotes G s) (hvar : h.var = g.var)
    (htype : h.type = g.type) (huniforms : g.uniforms ⊆ h.uniforms) (hdeclared : g.declared ⊆ h.declared) :
    h.Denotes G s := by
  cases hg with
  | literal h => exact .literal (hvar ▸ htype ▸ h)
  | uniform hu hv ht => exact .uniform (huniforms hu) (hvar.trans hv) (htype.trans ht)
  | «attribute» ha hv ht => exact .attribute ha (hvar.trans hv) (htype.trans ht)
  | varying hmem hv ht => exact .varying hmem (hvar.trans hv) (htype.trans ht)
  | function hf hv ht => exact .function hf (hvar.trans hv) (htype.trans ht)
  | declared hd hv h => exact .declared (hdeclared hd) (hvar.trans hv) (htype ▸ h)

theorem Generated.Clear.reference (h : g.Clear G s) : g.reference.Clear G s where
  denotes := h.denotes.transfer rfl rfl (fun _ h => h) fun _ h => h
  covered := s.covers_nil
  targets r hr := by cases hr
  mentions r hr hm := by
    refine h.mentions r hr ?_
    cases hm with
    | code h => cases h
    | var h => exact .var h
    | functions hf h => exact .functions hf h
    | function hf h => exact .function hf h

/-! ## Clear results -/

theorem targets_append {ss ts : List Stmt} (hss : G.Targets ss) (hts : G.Targets ts) : G.Targets (ss ++ ts) := by
  intro r hr
  rw [Stmt.allTargets_append] at hr
  exact (mem_append.mp hr).elim (hss r) (hts r)

theorem targets_flatMap (h : ∀ g ∈ gs, G.Targets g.code.stmts) : G.Targets (gs.flatMap (·.code.stmts)) := by
  intro r hr
  rw [Stmt.allTargets_flatMap] at hr
  obtain ⟨g, hg, hr⟩ := mem_flatMap.mp hr
  exact h g hg r hr

theorem Generated.Bare.clear (hb : g.Bare) (hd : g.Denotes G s)
    (hvar : ∀ r, G.IsVarying r → g.var = .name r → s.Lists r) : g.Clear G s where
  denotes := hd
  covered := hb.code ▸ s.covers_nil
  targets r hr := by
    rw [hb.code] at hr
    cases hr
  mentions r hr hm := by
    obtain ⟨_, ⟨⟩, hv⟩ := hb.var_of_mentions hm
    exact hvar r hr hv

theorem denotes_immediate {S : Session} (hi : n.isImmediate) (hr : (n.step c []).run s = (g, s')) (hclean : s'.Clean)
    (hS : s'.Grows S) : g.Denotes G S ∧ ∀ r, G.IsVarying r → g.var ≠ .name r := by
  cases n with
  | absent =>
    cases hr
    exact absurd hclean.report (cons_ne_nil _ _)
  | float id v =>
    cases hr
    exact ⟨.literal (.float v), fun r _ h => by cases h⟩
  | bool id b =>
    cases hr
    exact ⟨.literal (.bool b), fun r _ h => by cases h⟩
  | uniform id u =>
    obtain ⟨rfl, -⟩ := Step.readUniform_eq hr
    refine ⟨.uniform (mem_singleton_self u) rfl rfl, ?_⟩
    rintro _ ⟨-, j, rfl⟩ h
    exact append_ne_append (p := "uniform") (q := "varying") (by decide) (by decide) (by decide) _ _
      (Atom.name.inj h)
  | «attribute» id a =>
    obtain ⟨rfl, es, hes, rfl⟩ := Step.readAttribute_eq hr
    have hstage : c.stage = .vertex := by
      refine Decidable.of_not_not fun hne => hes hne ?_
      have herr := hclean c.stage
      simp only [Session.registry_mark, Session.registry_update_self, Registry.addAttribute, Session.report,
        Registry.addErrors, append_eq_nil_iff] at herr
      exact herr.2
    refine ⟨.attribute (a := a) ((hS.registry .vertex).attributes ?_) rfl rfl, ?_⟩
    · rw [hstage]
      exact mem_adjoin_iff.mpr (.inr (mem_singleton_self a))
    · rintro _ ⟨-, j, rfl⟩ h
      exact append_ne_append (p := "attribute") (q := "varying") (by decide) (by decide) (by decide) _ _
        (Atom.name.inj h)
  | _ => cases hi

theorem clear_broken {cond value : Generated} (hcond : cond.Clear G s) (hvalue : value.Clear G s) :
    (Generated.gather value.type [.breakIf cond.var] value.var [cond, value]).Clear G s where
  denotes := hvalue.denotes.transfer rfl rfl
    (fun _ hu => mem_foldl_adjoin_iff.mpr (.inr ⟨value, by simp, hu⟩))
    fun _ hr => mem_declared_gather (x := {}).mpr (.inl ⟨value, by simp, hr⟩)
  covered := by
    have hdeps := Session.covers_flatMap
      (forall_mem_cons.mpr ⟨hcond.covered, forall_mem_singleton.mpr hvalue.covered⟩)
    exact Session.covers_append hdeps fun _ _ _ he => by cases mem_singleton.mp he
  targets := by
    refine targets_append (targets_flatMap ?_) fun r hr => by cases hr
    exact forall_mem_cons.mpr ⟨hcond.targets, forall_mem_singleton.mpr hvalue.targets⟩
  mentions r hr hm := by
    rcases mentions_gather (x := {}) hm with ⟨d, hd, h⟩ | h | h | ⟨f, hf, -⟩
    · rcases mem_pair.mp hd with rfl | rfl
      · exact hcond.mentions r hr h
      · exact hvalue.mentions r hr h
    · exact hcond.mentions r hr (.var (by simpa [Stmt.allSources, Stmt.sources] using h))
    · exact hvalue.mentions r hr (.var h)
    · cases hf

theorem clear_form {φ : Form} {e : MemoEntry} {k : Nat} (he : (id, e) ∈ s.memo) (hg : e.generated = φ.result k)
    (hdeps : ∀ d ∈ φ.deps, d.Clear G s)
    (hmentions : ∀ r, G.IsVarying r → (φ.result k).Mentions (.name r) → s.Lists r) : (φ.result k).Clear G s where
  denotes := .declared (mem_declared_gather.mpr (.inr ⟨cons_ne_nil _ _, rfl⟩)) rfl
    ⟨_, he, by dsimp only; rw [hg]; exact mem_concat_self⟩
  covered _ _ _ h := ⟨_, he, hg ▸ h⟩
  targets := targets_append (targets_flatMap fun d hd => (hdeps d hd).targets) fun r hr => by cases hr
  mentions := hmentions

theorem clear_loop {gi gb : Generated} {b : Step.Binding} {e : MemoEntry} {k : Nat} (he : (id, e) ∈ s.memo)
    (hg : e.generated = Step.loopResult gi gb b k) (hi : gi.Clear G s) (hb : gb.Clear G s) (hm : b.initial.Clear G s)
    (hvar : G.Gives b.var ∨ ∃ k, Numbered k b.var) : (Step.loopResult gi gb b k).Clear G s where
  denotes := .declared (mem_declared_gather.mpr (.inr ⟨cons_ne_nil _ _, rfl⟩)) rfl
    ⟨_, he, by dsimp only; rw [hg]; exact mem_append_right _ mem_cons_self⟩
  covered _ _ _ h := ⟨_, he, hg ▸ h⟩
  targets := by
    have hdeps : ∀ d ∈ [b.initial, gi], G.Targets d.code.stmts :=
      forall_mem_cons.mpr ⟨hm.targets, forall_mem_singleton.mpr hi.targets⟩
    refine targets_append (targets_flatMap hdeps) fun w hw => ?_
    have hw : w = .summed b.var ∨ w ∈ Stmt.allTargets gb.code.stmts := by
      simpa [Step.loopStatements, Stmt.allTargets, Stmt.targets] using hw
    rcases hw with rfl | hw
    · exact ⟨b.var, rfl, hvar⟩
    · exact hb.targets w hw
  mentions r hr h := by
    rcases mentions_loop hr.spares hvar h with h | h | h
    · exact hi.mentions r hr h
    · exact hb.mentions r hr h
    · exact hm.mentions r hr h

theorem clear_functionResult (hf : G.IsFunction f.name)
    (h : ∀ r, G.IsVarying r → f.Mentions (.name r) → s.Lists r) : (Step.functionResult f).Clear G s where
  denotes := .function hf rfl rfl
  covered := s.covers_nil
  targets r hr := by cases hr
  mentions r hr hm := by
    rcases mentions_functionResult hm with hm | hm
    · exact h r hr hm
    · cases hm
      exact absurd (.inl hf) hr.1

/-- In a session without errors every result is clear at the end. -/
theorem Session.Made.clear (h : s.Made G T c n g) (hG : G.Shared) (hs : s.Finished G T) (hcounted : s.Counted G) :
    g.Clear G s := by
  induction h with
  | immediate hi hr hclean hS =>
    obtain ⟨hd, hvar⟩ := denotes_immediate hi hr hclean hS
    exact (Node.step_bare hi hr).1.clear hd fun r hr h => absurd h (hvar r hr)
  | taken _ _ ih => exact ih
  | reference _ _ _ _ ih => exact ih.reference
  | declared hn _ hlen _ _ hfits he hg ih =>
    have hgs := forall_mem_of_zip (P := (·.Clear G s)) hlen ih
    refine clear_form he hg (fun d hd => hgs d (hfits.deps.subset hd)) fun r hr hm => ?_
    rcases mentions_form hn hr.spares hfits hm with ⟨d, hd, hm⟩ | ⟨h, -⟩
    · exact (hgs d hd).mentions r hr hm
    · cases h
  | broken _ _ _ _ _ _ iha ihb => exact clear_broken iha ihb
  | loop hn _ _ hopens _ he hg ihi ihb ihm =>
    refine clear_loop he hg ihi ihb (hopens.initial.symm ▸ ihm) (hcounted.numbered hs.sound ⟨hn, ?_, _, he, ?_⟩)
    · exact fun _ _ _ h => by cases h
    · rw [hg]
      rfl
  | accumulator hn he hg =>
    exact clear_form he hg (fun d hd => absurd hd not_mem_nil)
      fun r hr hm => absurd hm (not_mentions_accumulator hr.spares hn)
  | @function _ _ id _ body _ hn _ _ ih =>
    exact clear_functionResult ⟨id, body, hn⟩ fun r hr hm => ih.mentions r hr (mentions_functionOf hm)
  | @varying _ id _ _ hn hlisted h _ =>
    obtain ⟨v, hv, hname⟩ := hlisted
    have htype := hs.coherent.varying_type hG hs.sound.once hn h.knows v hv hname
    refine (Generated.bare_resource _ ⟨id, .inr (.inr rfl)⟩).clear (.varying hv (hname ▸ rfl) htype.symm) ?_
    intro r _ hvar
    cases hvar
    exact ⟨v, hv, hname⟩

/-! ## Clear sessions -/

/-- What a session declares has an owner. -/
theorem Session.Finished.owner {type : GlType} {v : String} {x : Expr} (hs : s.Finished G T) (hG : G.Shared)
    (hd : s.Declares type v x) : ∃ n, s.Owns G n v ∧ ∃ e, (n.id, e) ∈ s.memo ∧ e.generated.type = type := by
  obtain ⟨p, hp, hd⟩ := hd
  obtain ⟨m, -, -, c, hmade⟩ := hs.past.memo p hp
  obtain ⟨n, hn, hwrote⟩ := hmade.explains _ (.here hd)
  exact ⟨n, hwrote.owns hs.coherent hG hn⟩

theorem Generated.Clear.varying (hg : g.Clear G s) (htype : Step.interpolates g.type)
    (huniforms : g.uniforms ⊆ s.vertex.uniforms) : (Step.varyingDef id g).Clear G s where
  source := by
    change g.var.HasType s.VertexTypes g.type
    cases hg.denotes with
    | literal h => exact Atom.HasType.mono h fun h => h.elim
    | uniform hu hv ht => exact hv ▸ ht ▸ .name (.uniform (huniforms hu))
    | «attribute» ha hv ht => exact hv ▸ ht ▸ .name (.attribute ha)
    | varying hmem hv ht => exact hv ▸ ht ▸ .name (.varying hmem)
    | function hf hv ht =>
      rw [ht] at htype
      cases htype
    | declared hd hv h => exact hv ▸ .name (.declared h)
  covered := hg.covered
  targets := hg.targets

theorem Session.Finished.clear (hs : s.Finished G T) (hG : G.Shared) (hcounted : s.Counted G) : s.Clear G where
  vertex := hs.past.vertex
  nodup := hs.past.nodup
  numbered hd := by
    obtain ⟨n, ho, -⟩ := hs.owner hG hd
    exact hcounted.numbered hs.sound ho
  unique {type type' v x y} hd hd' := by
    obtain ⟨m, hm, e, he, rfl⟩ := hs.owner hG hd
    obtain ⟨n, hn, e', he', rfl⟩ := hs.owner hG hd'
    rcases hcounted.apart m n v hm hn with rfl | hb | hb
    · exact .inr (hs.coherent.alike _ he _ he' rfl).type
    · exact .inl (hb.gives hs.sound)
    · exact .inl (hb.gives hs.sound)
  varyings v hv := by
    obtain ⟨id, n, g, -, rfl, hg, htype, huniforms⟩ := hs.past.varyings v hv
    exact (hg.clear hG hs hcounted).varying htype huniforms

end

end ShaderGraph
