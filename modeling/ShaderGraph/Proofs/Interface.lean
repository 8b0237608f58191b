import ShaderGraph.Proofs.Varyings

/-!
# The interface of the stages

The vertex stage declares the varyings that the fragment stage reads, and assigns them at the end of
its main. What is assigned to a varying was evaluated in the main of the vertex stage, where a variable
may count as declared that is not, and where a name that the graph gives may have been declared with
another type.
-/

namespace ShaderGraph

open Eval List

variable {v : VaryingDef} {type : GlType} {deps : List Generated} {id : NodeId} {before after : List VaryingDef}

/-! ## What the main of the vertex stage is given -/

/-- The text of a literal. -/
def IsLiteral (r : String) : Prop := ∃ a : Atom, (∀ q, a ≠ .name q) ∧ a.text = r

/-- Names that are read where they are not declared, and literals. -/
def Graph.Foreign (G : Graph) (r : String) : Prop := G.Outer r ∨ IsLiteral r

/-- Every varying passes on a name in `P` or one that is declared in its code or in that of a varying
before it, unless it passes on a literal. -/
inductive Sourced : (String → Prop) → List VaryingDef → Prop where
  | nil {P : String → Prop} : Sourced P []
  | cons {P : String → Prop} {v : VaryingDef} {vs : List VaryingDef}
      (hv : ∀ r, v.source = .name r → P r ∨ r ∈ declares v.code)
      (hvs : Sourced (fun r => P r ∨ r ∈ declares v.code) vs) : Sourced P (v :: vs)

/-- Between two sessions the main of the vertex stage is given the code, if it is evaluated there, and
the code of the new varyings. Names in `U` may be read without a declaration. -/
structure Tracks (U : String → Prop) (c : Scope) (s : Session) (code : List Stmt) (s' : Session)
    (new : List VaryingDef) : Prop where
  varyings : s'.fragment.varyings = s.fragment.varyings ++ new
  unpaired : ¬ c.Paired → new = []
  marked : ∀ r, (Scope.vertexMain.id, r) ∈ s'.emitted → (Scope.vertexMain.id, r) ∈ s.emitted ∨
    c.id = Scope.vertexMain.id ∧ r ∈ declares code ∨ r ∈ declares (new.flatMap (·.code)) ∨ U r
  sourced : Sourced (fun r => (Scope.vertexMain.id, r) ∈ s.emitted ∨ U r) new

/-- In the main of the vertex stage the variable of a result is declared there, or is in `U`. -/
def Generated.Reached (U : String → Prop) (c : Scope) (g : Generated) (s : Session) : Prop :=
  c.id = Scope.vertexMain.id →
    (Scope.vertexMain.id, g.var.text) ∈ s.emitted ∨ g.var.text ∈ declares g.code.stmts ∨ U g.var.text

/-- The scope is no other scope's main of the vertex stage. -/
structure Scope.Apart (c : Scope) (s : Session) : Prop where
  next : Scope.vertexMain.id < s.nextScope
  paired : c.Paired → c.id ≠ Scope.vertexMain.id
  visible : c.id = Scope.vertexMain.id → c.visible = [Scope.vertexMain.id]

section
variable {G : Graph} {P Q U : String → Prop} {vs ws : List VaryingDef} {c c' : Scope} {s s1 s' : Session}
  {code code' : List Stmt} {t : Trace} {new new' : List VaryingDef} {g : Generated} {r : String}

theorem Sourced.imp (h : Sourced P vs) (hPQ : ∀ r, P r → Q r) : Sourced Q vs := by
  induction h generalizing Q with
  | nil => exact .nil
  | cons hv _ ih =>
    exact .cons (fun r hr => (hv r hr).imp_left (hPQ r)) (ih fun r hr => hr.imp_left (hPQ r))

theorem Sourced.append (h : Sourced P vs)
    (h' : Sourced (fun r => P r ∨ r ∈ declares (vs.flatMap (·.code))) ws) : Sourced P (vs ++ ws) := by
  induction h with
  | nil => exact h'.imp fun r hr => hr.resolve_right not_mem_nil
  | cons hv _ ih =>
    refine .cons hv (ih (h'.imp fun r hr => ?_))
    rw [flatMap_cons, declares_append, mem_append] at hr
    exact or_assoc.mpr hr

theorem Sourced.split (h : Sourced P (vs ++ v :: ws)) (hr : v.source = .name r) :
    P r ∨ r ∈ declares (vs.flatMap (·.code) ++ v.code) := by
  induction vs generalizing P with
  | nil =>
    cases h with
    | cons hv _ => exact hv r hr
  | cons w vs ih =>
    cases h with
    | cons _ hvs =>
      rw [flatMap_cons, append_assoc, declares_append, mem_append]
      exact or_assoc.mp (ih hvs)

theorem Scope.Apart.mono (h : c.Apart s) (hg : s.Grows s') : c.Apart s' :=
  { h with next := h.next.trans_le hg.nextScope }

theorem Scope.Apart.loopBody (h : c.Apart s) : (c.loopBody s.nextScope).Apart s.openScope where
  next := Nat.lt_succ_of_lt h.next
  paired _ := h.next.ne'
  visible hid := absurd hid h.next.ne'

theorem Scope.Apart.functionBody (h : c.Apart s) : (c.functionBody s.nextScope).Apart s.openScope where
  next := Nat.lt_succ_of_lt h.next
  paired _ := h.next.ne'
  visible hid := absurd hid h.next.ne'

theorem Scope.Apart.vertexMain (h : c.Apart s) : Scope.vertexMain.Apart s where
  next := h.next
  paired hp := by cases hp.1
  visible _ := rfl

namespace Tracks

theorem refl (U : String → Prop) (c : Scope) (s : Session) : Tracks U c s [] s [] where
  varyings := (append_nil _).symm
  unpaired _ := rfl
  marked _ hr := .inl hr
  sourced := .nil

theorem trans (hc : c.Paired → c.id ≠ Scope.vertexMain.id) (h : Tracks U c s code s1 new)
    (h' : Tracks U c s1 code' s' new') : Tracks U c s (code ++ code') s' (new ++ new') where
  varyings := by rw [h'.varyings, h.varyings, append_assoc]
  unpaired hc := by rw [h.unpaired hc, h'.unpaired hc, append_nil]
  marked r hr := by
    simp only [flatMap_append, declares_append, mem_append]
    rcases h'.marked r hr with hr | ⟨hc, hr⟩ | hr | hr
    · rcases h.marked r hr with hr | ⟨hc, hr⟩ | hr | hr
      · exact .inl hr
      · exact .inr (.inl ⟨hc, .inl hr⟩)
      · exact .inr (.inr (.inl (.inl hr)))
      · exact .inr (.inr (.inr hr))
    · exact .inr (.inl ⟨hc, .inr hr⟩)
    · exact .inr (.inr (.inl (.inr hr)))
    · exact .inr (.inr (.inr hr))
  sourced := by
    refine h.sourced.append ?_
    by_cases hpaired : c.Paired
    · refine h'.sourced.imp fun r hr => ?_
      rcases hr with hr | hr
      · rcases h.marked r hr with hr | ⟨hid, -⟩ | hr | hr
        · exact .inl (.inl hr)
        · exact absurd hid (hc hpaired)
        · exact .inr hr
        · exact .inl (.inr hr)
      · exact .inl (.inr hr)
    · rw [h'.unpaired hpaired]
      exact .nil

theorem advance {names : List String} (h : Tracks U c s code s1 new) (ha : s1.Advance c names s')
    (hcode : ∀ r ∈ declares code, r ∈ declares code')
    (hnames : c.id = Scope.vertexMain.id → ∀ r ∈ names, (Scope.vertexMain.id, r) ∈ s1.emitted ∨
      r ∈ declares code' ∨ U r) : Tracks U c s code' s' new where
  varyings := (ha.varyings .fragment).trans h.varyings
  unpaired := h.unpaired
  marked r hr := by
    have hold (hr : (Scope.vertexMain.id, r) ∈ s1.emitted) :=
      (h.marked r hr).imp_right fun hr => hr.imp_left fun ⟨hid, hr⟩ => And.intro hid (hcode r hr)
    rw [ha.emitted, mem_append] at hr
    rcases hr with hr | hr
    · obtain ⟨v, hv, heq⟩ := mem_map.mp hr
      obtain ⟨hid, rfl⟩ := Prod.mk.inj heq
      rcases hnames hid v (mem_filter.mp hv).1 with hr | hr | hr
      · exact hold hr
      · exact .inr (.inl ⟨hid, hr⟩)
      · exact .inr (.inr (.inr hr))
    · exact hold hr
  sourced := h.sourced

/-- Nothing is declared or marked. -/
theorem idle (ha : s.Advance c [] s') : Tracks U c s code s' [] :=
  (refl U c s).advance ha (fun _ h => by cases h) fun _ _ h => by cases h

theorem congr {s2 : Session} (h : Tracks U c s1 code s2 new) (he : s1.emitted = s.emitted)
    (hv : s1.fragment.varyings = s.fragment.varyings) (he' : s'.emitted = s2.emitted)
    (hv' : s'.fragment.varyings = s2.fragment.varyings) : Tracks U c s code s' new where
  varyings := by rw [hv', h.varyings, hv]
  unpaired := h.unpaired
  marked r hr := he ▸ h.marked r (he' ▸ hr)
  sourced := he ▸ h.sourced

theorem inner (h : Tracks U c' s code s' new) (hid : c'.id ≠ Scope.vertexMain.id)
    (hpaired : c'.Paired → c.Paired) : Tracks U c s [] s' new where
  varyings := h.varyings
  unpaired hc := h.unpaired fun h => hc (hpaired h)
  marked r hr := (h.marked r hr).imp_right fun hr => hr.imp_left fun ⟨h, _⟩ => absurd h hid
  sourced := h.sourced

theorem marked_of_nil (h : Tracks U c s code s' []) (hr : (Scope.vertexMain.id, r) ∈ s'.emitted) :
    (Scope.vertexMain.id, r) ∈ s.emitted ∨ r ∈ declares code ∨ U r := by
  rcases h.marked r hr with hr | ⟨-, hr⟩ | hr | hr
  · exact .inl hr
  · exact .inr (.inl hr)
  · cases hr
  · exact .inr (.inr hr)

end Tracks

theorem IsResource.foreign (h : IsResource r) : G.Foreign r := .inl (.inl h)

theorem Generated.Bare.foreign (h : g.Bare) : G.Foreign g.var.text := by
  by_cases hname : ∃ r, g.var = .name r
  · obtain ⟨r, hr⟩ := hname
    rw [hr]
    exact (h.var r hr).foreign
  · exact .inr ⟨g.var, fun q hq => hname ⟨q, hq⟩, rfl⟩

theorem Generated.Reached.mono (h : g.Reached U c s) (hg : s.Grows s') : g.Reached U c s' := fun hid =>
  (h hid).imp_left (hg.emitted.subset ·)

theorem mem_declares_gather {own : List Stmt} {v : Atom} {x : Extras} :
    r ∈ declares ((Generated.gather type own v deps).extend x).code.stmts ↔
      (∃ d ∈ deps, r ∈ declares d.code.stmts) ∨ r ∈ declares own := by
  change r ∈ declares (deps.flatMap (·.code.stmts) ++ own) ↔ _
  rw [declares_append, declares_flatMap, mem_append, mem_flatMap]

theorem Tracks.gather {v : Atom} (h : Tracks U c s code s1 new)
    (ha : s1.Advance c (marks deps v) s') (hcode : ∀ r ∈ declares code, r ∈ declares code')
    (hdeps : ∀ d ∈ deps, d.Reached U c s1 ∧ ∀ r ∈ declares d.code.stmts, r ∈ declares code')
    (hv : c.id = Scope.vertexMain.id → (Scope.vertexMain.id, v.text) ∈ s1.emitted ∨ v.text ∈ declares code' ∨
      U v.text) : Tracks U c s code' s' new := by
  refine h.advance ha hcode fun hid r hr => ?_
  rcases mem_append.mp hr with hr | hr
  · obtain ⟨d, hd, rfl⟩ := mem_map.mp hr
    obtain ⟨hreached, hsubset⟩ := hdeps d (mem_filter.mp hd).1
    exact (hreached hid).imp_right fun h => h.imp_left (hsubset _)
  · exact mem_singleton.mp hr ▸ hv hid

theorem Tracks.form {φ : Form} (h : Tracks U c s code s1 new)
    (hcode : ∀ r ∈ declares code, r ∈ declares (φ.result s1.counter).code.stmts)
    (hdeps : ∀ d ∈ φ.deps, d.Reached U c s1) (es : List GraphError) (id : NodeId) :
    Tracks U c s (φ.result s1.counter).code.stmts
        ((φ.session c es s1).remember c id (φ.result s1.counter)) new ∧
      (φ.result s1.counter).Reached U c ((φ.session c es s1).remember c id (φ.result s1.counter)) := by
  have hown : φ.name s1.counter ∈ declares (φ.result s1.counter).code.stmts :=
    mem_declares_gather.mpr (.inr mem_cons_self)
  have h' := h.gather (φ.advance c es s1) hcode
    (fun d hd => ⟨hdeps d hd, fun r hr => mem_declares_gather.mpr (.inl ⟨d, hd, hr⟩)⟩)
    fun _ => .inr (.inl hown)
  exact ⟨h'.congr rfl rfl rfl rfl, fun _ => .inr (.inl hown)⟩

/-! ## Every evaluation -/

/-- What is lost to the main of the vertex stage is in `U`. -/
def tracked (U : String → Prop) : Judgement := fun _ c s g s' t =>
  (∀ r, t.Loses Scope.vertexMain.id r → U r) → c.Apart s →
    (∃ new, Tracks U c s g.code.stmts s' new) ∧ g.Reached U c s'

theorem tracked_threads {ns : List Node} {gs : List Generated} (h : Threads ((tracked U).properly G) c ns s gs s' t)
    (ht : ∀ r, t.Loses Scope.vertexMain.id r → U r) (hc : c.Apart s) :
    (∃ new, Tracks U c s (gs.flatMap (·.code.stmts)) s' new) ∧ ∀ g ∈ gs, g.Reached U c s' := by
  induction h with
  | nil => exact ⟨⟨[], .refl U c _⟩, forall_mem_nil _⟩
  | cons hn hrest ih =>
    obtain ⟨⟨new, hfirst⟩, hg⟩ := hn.2 (fun r hr => ht r (loses_append.mpr (.inl hr))) hc
    obtain ⟨⟨new', hothers⟩, hgs⟩ := ih (fun r hr => ht r (loses_append.mpr (.inr hr))) (hc.mono hn.1.grows)
    exact ⟨⟨new ++ new', hfirst.trans hc.paired hothers⟩, forall_mem_cons.mpr ⟨hg.mono hrest.grows, hgs⟩⟩

theorem Session.Derives.listed {n : Node} (h : s.Derives n g) : ¬ g.isReference ∧ g.var.text ∈ g.declared := by
  cases h with
  | declared | accumulator | loop =>
    exact ⟨Bool.false_ne_true, mem_declared_gather.mpr (.inr ⟨cons_ne_nil _ _, rfl⟩)⟩
  | broken =>
    exact ⟨Bool.false_ne_true, (mem_declared_gather (x := {})).mpr (.inr ⟨cons_ne_nil _ _, rfl⟩)⟩

theorem tracked_reuse (ht : s.Takes c id g s') (hs : s.Coherent G) (hc : c.Apart s)
    (hU : ∀ r, Trace.Loses [.taken c g] Scope.vertexMain.id r → U r) :
    (∃ new, Tracks U c s g.code.stmts s' new) ∧ g.Reached U c s' := by
  -- what a remembered result lists, it declares, or it is lost
  have hlisted (hg : ¬ g.isReference) (hid : c.id = Scope.vertexMain.id) (r : String) (hr : r ∈ g.declared) :
      r ∈ declares g.code.stmts ∨ U r := by
    by_cases hd : r ∈ declares g.code.stmts
    · exact .inl hd
    · exact .inr (hU r (loses_taken.mpr ⟨hid.symm, hg, hr, hd⟩))
  have hderived {e : MemoEntry} (he : s.memo.lookup id = some e) :
      ¬ e.generated.isReference ∧ e.generated.var.text ∈ e.generated.declared := by
    obtain ⟨n, -, -, -, hderives⟩ := hs.derived _ (mem_of_lookup he)
    exact hderives.listed
  cases ht with
  | @reference e he hv =>
    refine ⟨⟨[], .idle (.refl c s)⟩, fun hid => ?_⟩
    obtain ⟨id, hmem, he⟩ := Session.isEmitted_iff.mp hv
    rw [hc.visible hid] at hmem
    exact .inl (mem_singleton.mp hmem ▸ he)
  | again he =>
    obtain ⟨hg, hvar⟩ := hderived he
    exact ⟨⟨[], .idle (.refl c s)⟩, fun hid => .inr (hlisted hg hid _ hvar)⟩
  | @whole e he =>
    obtain ⟨hg, hvar⟩ := hderived he
    have ha := (Session.Advance.mark c s (e.generated.declared ++ [e.generated.var.text])).trans
      (.useUniforms c _ c.stage e.generated.uniforms)
    refine ⟨⟨[], (Tracks.refl U c s).advance ha (fun _ h => by cases h) fun hid r hr => ?_⟩,
      fun hid => .inr (hlisted hg hid _ hvar)⟩
    rcases mem_append.mp (nil_append _ ▸ hr) with hr | hr
    · exact .inr (hlisted hg hid r hr)
    · exact mem_singleton.mp hr ▸ .inr (hlisted hg hid _ hvar)

theorem tracked_varying {x : Generated} (hpaired : c.Paired) (hid : c.id ≠ Scope.vertexMain.id)
    (h : Tracks U .vertexMain s g.code.stmts s1 []) (hg : g.Reached U .vertexMain s1)
    (hr : (Step.readVarying c id g).run s1 = (x, s'))
    (hU : s1.hasVarying c.stage (Step.varyingName id) → ∀ r ∈ declares g.code.stmts, U r) :
    ∃ new, Tracks U c s [] s' new := by
  have hvaryings := Step.readVarying_varyings hpaired.1 hr
  have hmarked (r : String) (hr' : (Scope.vertexMain.id, r) ∈ s'.emitted) :
      (Scope.vertexMain.id, r) ∈ s.emitted ∨ r ∈ declares g.code.stmts ∨ U r := by
    obtain ⟨s2, ha, -, rfl⟩ := Step.readVarying_eq hr
    obtain ⟨-, -, -, -, hemitted⟩ := s2.updateRegistry_same c.stage (·.addVarying (Step.varyingDef id g))
    rw [hemitted, ha.emitted, mem_append] at hr'
    rcases hr' with hr' | hr'
    · obtain ⟨v, -, heq⟩ := mem_map.mp hr'
      exact absurd (Prod.mk.inj heq).1 hid
    · exact h.marked_of_nil hr'
  split at hvaryings
  next hhas =>
    refine ⟨[], ?_, fun _ => rfl, fun r hr => ?_, .nil⟩
    · rw [hvaryings, h.varyings]
    · exact (hmarked r hr).imp_right fun hr => .inr (.inr (hr.elim (hU hhas r) fun h => h))
  next hhas =>
    refine ⟨[Step.varyingDef id g], ?_, fun hc => absurd hpaired hc, fun r hr => ?_, .cons (fun r hr => ?_) .nil⟩
    · rw [hvaryings, h.varyings, append_nil]
    · exact (hmarked r hr).imp_right fun hr => .inr (by simpa [Step.varyingDef] using hr)
    · have hr : g.var.text = r := congrArg Atom.text hr
      rcases hr ▸ hg rfl with hr | hr | hr
      · rcases h.marked_of_nil hr with hr | hr | hr
        · exact .inl (.inl hr)
        · exact .inr hr
        · exact .inl (.inr hr)
      · exact .inr hr
      · exact .inl (.inr hr)

theorem tracked_rules (hU : ∀ r, G.Foreign r → U r) : ProperRules G (tracked U) where
  immediate _ _ hbare hvs ha _ _ _ :=
    ⟨⟨[], (Tracks.refl U _ _).advance ha (fun _ h => by cases h) fun _ r hr =>
      .inr (.inr (hU r (hvs r hr).foreign))⟩, fun _ => .inr (.inr (hU _ hbare.foreign))⟩
  reuse _ ht _ hp hlost hc := tracked_reuse ht hp.coherent hc hlost
  declared := by
    intro n c s gs s1 t φ _ ht hφ hfits hp hlost hc
    obtain ⟨⟨new, h⟩, hgs⟩ := tracked_threads ht hlost hc
    -- the operand that is left out has no code
    have hcode (r : String) (hr : r ∈ declares (gs.flatMap (·.code.stmts))) :
        r ∈ declares (φ.result s1.counter).code.stmts := by
      obtain ⟨rest, hrest⟩ := hfits.deps
      rw [declares_flatMap] at hr
      obtain ⟨d, hd, hr⟩ := mem_flatMap.mp hr
      rcases mem_append.mp (hrest ▸ hd) with hd' | hd'
      · exact mem_declares_gather.mpr (.inl ⟨d, hd', hr⟩)
      · obtain ⟨f, -, hf⟩ := hfits.rest rest hrest.symm d hd'
        rw [((ht.origin d hd).function f hf).2.1] at hr
        cases hr
    obtain ⟨h', hreached⟩ := h.form hcode (fun d hd => hgs d (hfits.deps.subset hd)) [] n.id
    exact ⟨⟨new, h'⟩, hreached⟩
  broken := by
    intro id a b c s cond value s1 t g s2 _ ht hg ha hp hlost hc
    obtain ⟨⟨new, h⟩, hgs⟩ := tracked_threads ht hlost hc
    have hcode (d : Generated) (hd : d ∈ [cond, value]) (r : String) (hr : r ∈ declares d.code.stmts) :
        r ∈ declares g.code.stmts := by
      rw [hg]
      exact (mem_declares_gather (x := {})).mpr (.inl ⟨d, hd, hr⟩)
    have hvalue (hid : c.id = Scope.vertexMain.id) : (Scope.vertexMain.id, value.var.text) ∈ s1.emitted ∨
        value.var.text ∈ declares g.code.stmts ∨ U value.var.text :=
      (hgs value (by simp) hid).imp_right fun h => h.imp_left (hcode value (by simp) _)
    have h' := h.gather ha
      (fun r hr => by
        rw [declares_flatMap] at hr
        obtain ⟨d, hd, hr⟩ := mem_flatMap.mp hr
        exact hcode d hd r hr)
      (fun d hd => ⟨hgs d hd, hcode d hd⟩) hvalue
    have hvar : g.var = value.var := by rw [hg]; rfl
    exact ⟨⟨new, h'.congr rfl rfl rfl rfl⟩, fun hid =>
      hvar ▸ (hvalue hid).imp_left (ha.grows.emitted.subset ·)⟩
  loop := by
    intro id body count start c s gi s1 t1 s2 gb s3 t2 m s4 bind gm s5 t3 g s6
      _ hcount ha2 hbody hopens hinit hg ha6 hp hlost hc
    have ha4 := hopens.advance c
    have hc2 := (hc.mono hcount.1.grows).mono (.advance ha2)
    have hc4 := ((hc2.mono (.openScope s2)).mono hbody.1.grows).mono (.advance ha4)
    simp only [loses_append] at hlost
    obtain ⟨⟨new1, h1⟩, hgi⟩ := hcount.2 (fun r hr => hlost r (.inl hr)) hc
    obtain ⟨⟨new2, h2⟩, -⟩ := hbody.2 (fun r hr => hlost r (.inr (.inl hr))) hc2.loopBody
    obtain ⟨⟨new3, h3⟩, hgm⟩ := hinit.2 (fun r hr => hlost r (.inr (.inr hr))) hc4
    have h2 : Tracks U c s1 [] s3 new2 :=
      (h2.inner (c := c) hc2.next.ne' fun h => h).congr ha2.emitted (ha2.varyings .fragment) rfl rfl
    have h3 : Tracks U c s3 gm.code.stmts s5 new3 := h3.congr ha4.emitted (ha4.varyings .fragment) rfl rfl
    have h := h1.trans hc.paired (h2.trans hc.paired h3)
    have hcode (d : Generated) (hd : d ∈ [gm, gi]) (r : String) (hr : r ∈ declares d.code.stmts) :
        r ∈ declares g.code.stmts := by
      rw [hg]
      exact mem_declares_gather.mpr (.inl ⟨d, by rwa [hopens.initial], hr⟩)
    have hown : (bind gm).var ∈ declares g.code.stmts := by
      rw [hg]
      exact mem_declares_gather.mpr (.inr mem_cons_self)
    have hgrows : s1.Grows s5 := ha2.grows.trans <| (Session.Grows.openScope s2).trans <|
      hbody.1.grows.trans <| hopens.grows.trans hinit.1.grows
    have hreached : ∀ d ∈ [gm, gi], d.Reached U c s5 :=
      forall_mem_cons.mpr ⟨hgm, forall_mem_singleton.mpr (hgi.mono hgrows)⟩
    have h' := h.gather ha6
      (fun r hr => by
        rw [declares_append, nil_append, mem_append] at hr
        exact hr.elim (hcode gi (by simp) r) (hcode gm (by simp) r))
      (fun d hd => ⟨hreached d hd, hcode d hd⟩) fun _ => .inr (.inl hown)
    have hvar : g.var = .name (bind gm).var := by rw [hg]; rfl
    exact ⟨⟨_, h'.congr rfl rfl rfl rfl⟩, fun _ => hvar ▸ .inr (.inl hown)⟩
  accumulator := by
    intro id name start c s s1 type g s2 ha hg hs2 hp _ hc
    subst hg hs2
    have h : Tracks U c s [] (s1.bump) [] := .idle (ha.trans (.bump c s1))
    obtain ⟨h', hreached⟩ := h.form (φ := Step.accumulatorForm name start type s1.counter)
      (fun _ h => by cases h) (fun d hd => by cases hd) [] id
    exact ⟨⟨[], h'⟩, hreached⟩
  knownFunction hf ha hp _ _ :=
    ⟨⟨[], .idle ha⟩, fun _ => .inr (.inr (hU _ (.inl (.inr (hp.sound.origin.functions _ hf)))))⟩
  newFunction := by
    intro id name body c s gb s1 t f s3 hb hf ha hp hlost hc
    obtain ⟨⟨new, h⟩, -⟩ := hb.2 hlost hc.functionBody
    have h : Tracks U c s [] s3 new := (h.inner (c := c) hc.next.ne' fun h => h).congr rfl rfl
      ha.emitted (ha.varyings .fragment)
    subst hf
    exact ⟨⟨new, h⟩, fun _ => .inr (.inr (hU _ (.inl (.inr ⟨id, body, hp.mem⟩))))⟩
  varying := by
    intro id n c s g s1 t r s2 hpaired hop hr hp hlost hc
    -- the code of a varying that exists is lost
    have hinner (r : String) (hr : t.Loses Scope.vertexMain.id r) : U r := by
      refine hlost r ?_
      split
      · exact loses_discarded.mpr (.inr hr)
      · exact hr
    obtain ⟨⟨new, h⟩, hg⟩ := hop.2 hinner hc.vertexMain
    obtain rfl := h.unpaired fun h => by cases h.1
    have h' := tracked_varying hpaired (hc.paired hpaired) h hg hr fun hhas r hr => by
      rw [if_pos hhas] at hlost
      exact hlost r (loses_discarded.mpr (.inl ⟨rfl, hr⟩))
    obtain ⟨-, -, rfl, -⟩ := Step.readVarying_eq hr
    exact ⟨h', fun _ => .inr (.inr (hU _ (.inl (.inl ⟨id, .inr (.inr rfl)⟩))))⟩

/-! ## Assignments to varyings -/

theorem Graph.Targets.count_assigned (h : G.Targets code) (x : String) :
    (Stmt.allTargets code).count (.assigned x) = 0 := by
  refine count_eq_zero.mpr fun hx => ?_
  obtain ⟨r, hr, -⟩ := h _ hx
  cases hr

theorem count_assigned_statements (h : ∀ v ∈ vs, G.Targets v.code) (x : String) :
    (Stmt.allTargets (vs.flatMap (·.statements))).count (.assigned x) = (vs.map (·.name)).count x := by
  induction vs with
  | nil => rfl
  | cons v vs ih =>
    obtain ⟨hv, hvs⟩ := forall_mem_cons.mp h
    have hassign : (Stmt.allTargets [.assign v.name v.source]).count (.assigned x) =
        if v.name == x then 1 else 0 := by
      simp [Stmt.allTargets, Stmt.targets, count_singleton]
    rw [flatMap_cons, VaryingDef.statements, Stmt.allTargets_append, Stmt.allTargets_append,
      count_append, count_append, hv.count_assigned, hassign, ih hvs, map_cons,
      count_cons, Nat.zero_add, Nat.add_comm]

theorem summed_statements (h : ∀ v ∈ vs, G.Targets v.code) {w : Stmt.Target}
    (hw : w ∈ Stmt.allTargets (vs.flatMap (·.statements))) :
    (∃ v ∈ vs, w = .assigned v.name) ∨ ∃ r, w = .summed r ∧ (G.Gives r ∨ ∃ k, Numbered k r) := by
  rw [Stmt.allTargets_flatMap] at hw
  obtain ⟨v, hv, hw⟩ := mem_flatMap.mp hw
  rw [VaryingDef.statements, Stmt.allTargets_append] at hw
  rcases mem_append.mp hw with hw | hw
  · exact .inr (h v hv w hw)
  · exact .inl ⟨v, hv, mem_singleton.mp hw⟩

/-! ## Jobs -/

/-- The variable that a statement declares at its own level, with its type. -/
def Stmt.types : Stmt → List (String × GlType)
  | .decl type v _ => [(v, type)]
  | .breakIf _ | .loop .. | .assign .. | .verbatim _ => []

/-- The types of the names in a program, after the given statements of its main. -/
def StageProgram.types (p : StageProgram) (ss : List Stmt) : List (String × GlType) :=
  ss.flatMap Stmt.types ++ p.uniforms.map (fun u => (u.name, u.type)) ++
    p.attributes.map (fun a => (a.name, a.type)) ++ p.varyings.map (fun v => (v.name, v.type))

def Atom.hasTypeIn (Γ : List (String × GlType)) : Atom → GlType → Bool
  | .name x, type => Γ.contains (x, type)
  | .float _, type => type == .float
  | .bool _, type => type == .bool

theorem Atom.hasTypeIn_iff {Γ : List (String × GlType)} {a : Atom} :
    a.hasTypeIn Γ type ↔ a.HasType (fun x t => (x, t) ∈ Γ) type := by
  cases a with
  | name x =>
    simp only [hasTypeIn, contains_iff_mem]
    exact ⟨fun h => .name h, fun h => by cases h; assumption⟩
  | float v =>
    simp only [hasTypeIn, beq_iff_eq]
    exact ⟨fun h => h ▸ .float v, fun h => by cases h; rfl⟩
  | bool b =>
    simp only [hasTypeIn, beq_iff_eq]
    exact ⟨fun h => h ▸ .bool b, fun h => by cases h; rfl⟩

instance (Γ : List (String × GlType)) (a : Atom) (type : GlType) :
    Decidable (a.HasType (fun x t => (x, t) ∈ Γ) type) :=
  decidable_of_iff _ Atom.hasTypeIn_iff

/-- A name that has the type after the given statements, and is declared with no other. -/
structure StageProgram.Provides (p : StageProgram) (ss : List Stmt) (x : String) (type : GlType) : Prop where
  bound : (x, type) ∈ p.types ss
  alone : ∀ type', (x, type') ∈ (p.main ++ p.epilogue).flatMap Stmt.types → type' = type

/-- A name that the graph gives is read like a resource, a function or a literal, or is declared with
another type too. -/
def Session.Confuses (G : Graph) (s : Session) (x : String) (type : GlType) : Prop :=
  G.Gives x ∧ (G.Foreign x ∨ ∃ type' e, s.Declares type' x e ∧ type' ≠ type)

/-- The stages of a job agree on its varyings. -/
structure Compiled.Agrees (G : Graph) (r : Compiled) : Prop where
  declarations : r.vertexProgram.sections.varyings = r.fragmentProgram.sections.varyings
  nodup : (r.fragmentProgram.varyings.map (·.name)).Nodup
  reads : ∀ id, r.fragmentProgram.Reads r.fragment.var (.name (Step.varyingName id)) →
    G.Gives (Step.varyingName id) ∨ ∃ v ∈ r.fragmentProgram.varyings, v.name = Step.varyingName id
  epilogue : r.vertexProgram.epilogue = r.fragmentProgram.varyings.flatMap (·.statements)
  assigned : ∀ v ∈ r.fragmentProgram.varyings,
    (Stmt.allTargets (r.vertexProgram.main ++ r.vertexProgram.epilogue)).count (.assigned v.name) = 1 ∧
    (.summed v.name ∈ Stmt.allTargets (r.vertexProgram.main ++ r.vertexProgram.epilogue) → G.Gives v.name)
  /-- What is assigned has the type of the varying where it is assigned, unless it is lost there or its
  name is confused. -/
  typed : ∀ before v after, r.fragmentProgram.varyings = before ++ v :: after →
    v.source.HasType
      (r.vertexProgram.Provides (r.vertexProgram.main ++ before.flatMap (·.statements) ++ v.code)) v.type ∨
    ∃ x, v.source = .name x ∧
      (r.trace.Loses Scope.vertexMain.id x ∨ r.session.Confuses G x v.type)

theorem declares_eq_map_types (ss : List Stmt) : declares ss = (ss.flatMap Stmt.types).map (·.1) := by
  rw [map_flatMap]
  refine flatMap_congr fun st _ => ?_
  cases st <;> rfl

theorem decl_of_mem_types {ss : List Stmt} (h : (r, type) ∈ ss.flatMap Stmt.types) :
    ∃ e, .decl type r e ∈ ss := by
  obtain ⟨st, hst, hr⟩ := mem_flatMap.mp h
  cases st with
  | decl type v e =>
    cases mem_singleton.mp hr
    exact ⟨e, hst⟩
  | _ => cases hr

theorem Graph.Foreign.gives (h : G.Foreign r) {k : Nat} (hk : Numbered k r) : G.Gives r := by
  rcases h with (h | h) | ⟨a, ha, rfl⟩
  · exact absurd hk (h.not_numbered k)
  · exact .inl h
  · exact absurd hk ((Atom.text_endsForeign ha).not_numbered k)

theorem Session.VertexTypes.alone (hs : s.Clear G) (hc : s.Coherent G) (h : s.VertexTypes r type)
    (hconf : ¬ s.Confuses G r type) {type' : GlType} {e : Expr} (hd : s.Declares type' r e) : type' = type := by
  by_contra hne
  by_cases hgives : G.Gives r
  · exact hconf ⟨hgives, .inr ⟨type', e, hd, hne⟩⟩
  · obtain ⟨k, hk⟩ := (hs.numbered hd).resolve_left hgives
    cases h with
    | declared h => exact hne ((hs.unique hd h).resolve_left hgives)
    | @uniform u _ => exact IsResource.not_numbered ⟨u.id, .inl rfl⟩ k hk
    | @«attribute» a _ => exact IsResource.not_numbered ⟨a.id, .inr (.inl rfl)⟩ k hk
    | varying hv =>
      obtain ⟨id, _, _, _, hname, _⟩ := hc.varyings _ hv
      exact IsResource.not_numbered ⟨id, .inr (.inr hname)⟩ k hk

/-- What is known of the varyings of a job without errors. -/
structure Compiled.Delivers (G : Graph) (r : Compiled) : Prop where
  clear : r.session.Clear G
  coherent : r.session.Coherent G
  vertex : r.vertex.Clear G r.session
  fragment : r.fragment.Clear G r.session
  sourced : Sourced (fun x => x ∈ declares r.vertex.code.stmts ∨ r.trace.Loses Scope.vertexMain.id x ∨
    G.Foreign x) r.session.fragment.varyings

theorem compiled_delivers (hG : G.Shared) {vertex fragment : Node} (hv : vertex ∈ G.nodes)
    (hf : fragment ∈ G.nodes) {o : CompileOptions} {nextId : NodeId} {r : Compiled}
    (hr : compiled vertex fragment o.folding nextId = r)
    (herr : (compilePair vertex fragment o nextId).error? = none) : r.Delivers G := by
  obtain ⟨hs, hgv, hgf⟩ := compiled_made hG hv hf hr herr
  have hcounted := compiled_counted hG hv hf hr herr
  refine ⟨hs.clear hG hcounted, hs.coherent, hgv.clear hG hs hcounted, hgf.clear hG hs hcounted, ?_⟩
  have hrules := tracked_rules (U := fun x => r.trace.Loses Scope.vertexMain.id x ∨ G.Foreign x) fun _ h => .inr h
  obtain ⟨gv, gf, s1, s2, tv, tf, rfl, ⟨hpv, htrackv⟩, hpf, htrackf⟩ :=
    compiled_properly hG (hrules.everywhere hG) hv hf hr herr
  have hmain : Scope.vertexMain.Apart { nextId, folding := o.folding } :=
    ⟨Nat.zero_lt_two, (fun h => by cases h.1), fun _ => rfl⟩
  have hpaired : Scope.fragmentMain.Apart s1 :=
    ⟨(hmain.mono hpv.grows).next, fun _ => Nat.one_ne_zero, fun h => absurd h Nat.one_ne_zero⟩
  obtain ⟨⟨new1, h1⟩, -⟩ := htrackv (fun r hr => .inl (loses_append.mpr (.inl hr))) hmain
  obtain ⟨⟨new2, h2⟩, -⟩ := htrackf (fun r hr => .inl (loses_append.mpr (.inr hr))) hpaired
  obtain rfl := h1.unpaired fun h => by cases h.1
  change Sourced _ s2.fragment.varyings
  rw [h2.varyings, h1.varyings]
  refine h2.sourced.imp fun x hx => hx.elim (fun hx => ?_) .inr
  exact (h1.marked_of_nil hx).resolve_left not_mem_nil

namespace Compiled.Delivers

variable {r : Compiled} (h : r.Delivers G)
include h

theorem vertexProgram_varyings : r.vertexProgram.varyings = r.session.fragment.varyings := by
  change r.session.vertex.varyings ++ r.session.fragment.varyings = _
  rw [h.clear.vertex, nil_append]

theorem covers : r.session.Covers (r.vertexProgram.main ++ r.vertexProgram.epilogue) := by
  refine Session.covers_append h.vertex.covered fun type x e he => ?_
  obtain ⟨v, hv, he⟩ := mem_flatMap.mp he
  rcases mem_append.mp he with he | he
  · exact (h.clear.varyings v hv).covered type x e he
  · cases mem_singleton.mp he

theorem not_numbered (hv : v ∈ r.session.fragment.varyings) (k : Nat) : ¬ Numbered k v.name := by
  obtain ⟨id, _, _, _, hname, _⟩ := h.coherent.varyings v hv
  exact IsResource.not_numbered ⟨id, .inr (.inr hname)⟩ k

theorem assigned (hv : v ∈ r.session.fragment.varyings) :
    (Stmt.allTargets (r.vertexProgram.main ++ r.vertexProgram.epilogue)).count (.assigned v.name) = 1 ∧
    (.summed v.name ∈ Stmt.allTargets (r.vertexProgram.main ++ r.vertexProgram.epilogue) → G.Gives v.name) := by
  have htargets (w : VaryingDef) (hw : w ∈ r.session.fragment.varyings) : G.Targets w.code :=
    (h.clear.varyings w hw).targets
  rw [Stmt.allTargets_append]
  constructor
  · have hmain : (Stmt.allTargets r.vertexProgram.main).count (.assigned v.name) = 0 :=
      h.vertex.targets.count_assigned v.name
    have hepilogue : (Stmt.allTargets r.vertexProgram.epilogue).count (.assigned v.name) = 1 :=
      (count_assigned_statements htargets v.name).trans
        (count_eq_one_of_mem h.clear.nodup (mem_map_of_mem hv))
    rw [count_append, hmain, hepilogue]
  · intro hmem
    have hsum : ∃ x, Stmt.Target.summed v.name = .summed x ∧ (G.Gives x ∨ ∃ k, Numbered k x) := by
      rcases mem_append.mp hmem with hmem | hmem
      · exact h.vertex.targets _ hmem
      · rcases summed_statements htargets hmem with ⟨_, _, heq⟩ | hsum
        · cases heq
        · exact hsum
    obtain ⟨_, ⟨⟩, hx⟩ := hsum
    exact hx.resolve_right fun ⟨k, hk⟩ => h.not_numbered hv k hk

theorem provides {x : String} (hsplit : r.session.fragment.varyings = before ++ v :: after)
    (hsource : v.source = .name x) (hx : r.session.VertexTypes x type)
    (hlost : ¬ r.trace.Loses Scope.vertexMain.id x) (hconf : ¬ r.session.Confuses G x type) :
    r.vertexProgram.Provides (r.vertexProgram.main ++ before.flatMap (·.statements) ++ v.code) x type := by
  have halone (type' : GlType)
      (ht : (x, type') ∈ (r.vertexProgram.main ++ r.vertexProgram.epilogue).flatMap Stmt.types) : type' = type := by
    obtain ⟨e, he⟩ := decl_of_mem_types ht
    exact hx.alone h.clear h.coherent hconf (h.covers type' x e he)
  refine ⟨?_, halone⟩
  unfold StageProgram.types
  simp only [mem_append]
  cases hx with
  | uniform hu => exact .inl (.inl (.inr (mem_map_of_mem hu)))
  | «attribute» ha => exact .inl (.inr (mem_map_of_mem ha))
  | varying hv => exact .inr (mem_map_of_mem (h.vertexProgram_varyings ▸ hv))
  | declared hd =>
    have hforeign : ¬ G.Foreign x := fun hf => hconf
      ⟨(h.clear.numbered hd).elim id fun ⟨k, hk⟩ => hf.gives hk, .inl hf⟩
    have hstands : x ∈ declares (r.vertexProgram.main ++ before.flatMap (·.statements) ++ v.code) := by
      simp only [declares_append, declares_flatMap, mem_append, mem_flatMap, VaryingDef.statements]
      rcases (hsplit ▸ h.sourced).split hsource with (hx | hx | hx) | hx
      · exact .inl (.inl hx)
      · exact absurd hx hlost
      · exact absurd hx hforeign
      · simp only [declares_append, declares_flatMap, mem_append, mem_flatMap] at hx
        rcases hx with ⟨w, hw, hx⟩ | hx
        · exact .inl (.inr ⟨w, hw, .inl hx⟩)
        · exact .inr hx
    rw [declares_eq_map_types] at hstands
    obtain ⟨⟨y, type'⟩, ht, hy⟩ := mem_map.mp hstands
    obtain rfl : x = y := hy.symm
    have hepilogue : r.vertexProgram.epilogue = (before ++ v :: after).flatMap (·.statements) := hsplit ▸ rfl
    have hall : (x, type') ∈ (r.vertexProgram.main ++ r.vertexProgram.epilogue).flatMap Stmt.types := by
      rw [hepilogue]
      simp only [flatMap_append, flatMap_cons, VaryingDef.statements, mem_append] at ht ⊢
      rcases ht with (ht | ht) | ht
      · exact .inl ht
      · exact .inr (.inl ht)
      · exact .inr (.inr (.inl (.inl ht)))
    exact .inl (.inl (.inl (halone type' hall ▸ ht)))

theorem typed (hsplit : r.session.fragment.varyings = before ++ v :: after) :
    v.source.HasType
      (r.vertexProgram.Provides (r.vertexProgram.main ++ before.flatMap (·.statements) ++ v.code)) v.type ∨
    ∃ x, v.source = .name x ∧ (r.trace.Loses Scope.vertexMain.id x ∨ r.session.Confuses G x v.type) := by
  have hmem : v ∈ r.session.fragment.varyings := hsplit ▸ mem_append_right _ mem_cons_self
  have htyped := (h.clear.varyings v hmem).source
  generalize hsource : v.source = a at htyped ⊢
  generalize v.type = type at htyped ⊢
  cases htyped with
  | float y => exact .inl (.float y)
  | bool b => exact .inl (.bool b)
  | @name x _ hx =>
    by_cases hlost : r.trace.Loses Scope.vertexMain.id x
    · exact .inr ⟨x, rfl, .inl hlost⟩
    by_cases hconf : r.session.Confuses G x type
    · exact .inr ⟨x, rfl, .inr hconf⟩
    · exact .inl (.name (h.provides hsplit hsource hx hlost hconf))

end Compiled.Delivers

/-- In a job without errors the stages have the same varyings, with different names. The fragment stage
reads no other, and the vertex stage assigns to each once, at its end and, unless the variable is lost or
its name confused, from what has the type of the varying. -/
theorem stages_agree_on_varyings (hG : G.Shared) {vertex fragment : Node} (hv : vertex ∈ G.nodes)
    (hf : fragment ∈ G.nodes) {o : CompileOptions} {nextId : NodeId} {r : Compiled}
    (hr : compiled vertex fragment o.folding nextId = r)
    (herr : (compilePair vertex fragment o nextId).error? = none) :
    (compilePair vertex fragment o nextId).vertexSource = r.vertexProgram.sections.assemble.1 ∧
      (compilePair vertex fragment o nextId).fragmentSource = r.fragmentProgram.sections.assemble.1 ∧
      r.Agrees G := by
  have h := compiled_delivers hG hv hf hr herr
  have hvaryings : r.fragmentProgram.varyings = r.session.fragment.varyings := List.append_nil _
  refine ⟨hr ▸ rfl, hr ▸ rfl, ?_⟩
  exact
    { declarations := by
        simp only [StageProgram.sections, h.vertexProgram_varyings, hvaryings]
      nodup := hvaryings ▸ h.clear.nodup
      reads := fun id hread => by
        by_cases hgives : G.Gives (Step.varyingName id)
        · exact .inl hgives
        · rcases StageProgram.mentions_of_reads hread with hm | ⟨v, hv, -⟩
          · exact .inr (hvaryings ▸ h.fragment.mentions _ ⟨hgives, id, rfl⟩ hm)
          · cases hv
      epilogue := by rw [hvaryings]; rfl
      assigned := fun v hv => h.assigned (hvaryings ▸ hv)
      typed := fun before v after hsplit => h.typed (hvaryings ▸ hsplit) }

end

/-! ## A wave and its crest -/

def relayLevel : Node := .uniform 1 { id := 1, type := .float }

def relayWave : Node := .builtin 2 .sin [relayLevel]

def relayCorner : Node := .construct 3 .vec2 [relayWave]

def relayCrest : Node := .operator 4 .mult [relayWave, relayLevel]

/-- What a loop adds up. -/
def relayTerm : Node := .operator 7 .add [.varying 5 relayWave, .varying 6 relayCrest]

def relaySum : Node := .sumLoop 10 relayTerm (.float 8 4) (.float 9 0)

def relayBody : Node := .operator 12 .add [.argument 11 "q" 0 .float, .varying 6 relayCrest]

def relayFunction : Node := .defun 13 "shade" relayBody

/-- The varyings are read in the main of the fragment stage, in a loop and in a function. -/
def relayShade : Node := .operator 15 .add [relaySum, .call 14 relayFunction [.varying 5 relayWave]]

def relayNodes : List Node :=
  [relayLevel, relayWave, relayCorner, relayCrest, .varying 5 relayWave, .varying 6 relayCrest, relayTerm,
    .float 8 4, .float 9 0, relaySum, .argument 11 "q" 0 .float, relayBody, relayFunction,
    .call 14 relayFunction [.varying 5 relayWave], relayShade]

def relayGraph : Graph := .ofList relayNodes <| by
  simp [relayNodes, relayLevel, relayWave, relayCorner, relayCrest, relayTerm, relaySum, relayBody,
    relayFunction, relayShade, Node.children, Node.operands]

theorem relayGraph_shared : relayGraph.Shared := Graph.shared_ofList (by decide)

def relayJob : Compiled := compiled relayCorner relayShade true 16

theorem relayJob_ok : (compilePair relayCorner relayShade {} 16).error? = none := by decide +kernel

/-- The wave is passed on from the main of the vertex stage, which uses it, and the crest is computed
after it. Nothing is lost. -/
theorem relayJob_agrees : relayJob.Agrees relayGraph ∧ relayJob.trace.lost = [] ∧
    Stmt.block relayJob.vertexProgram.main = "float sinVal0 = sin(uniform1);\nvec2 vec2Val1 = vec2(sinVal0);" ∧
    Stmt.block relayJob.vertexProgram.epilogue =
      "varying5 = sinVal0;\nfloat multVal2 = sinVal0*uniform1;\nvarying6 = multVal2;" := by
  have hr : compiled relayCorner relayShade ({} : CompileOptions).folding 16 = relayJob := rfl
  have hv : relayCorner ∈ relayNodes := by simp [relayNodes]
  have hf : relayShade ∈ relayNodes := by simp [relayNodes]
  refine ⟨(stages_agree_on_varyings relayGraph_shared hv hf hr relayJob_ok).2.2, ?_, ?_, ?_⟩
  · decide +kernel
  · decide +kernel
  · decide +kernel

/-! ## Varyings from nowhere and from another type -/

/-- Every varying is assigned what has its type where it is assigned. -/
def Compiled.WellSourced (r : Compiled) : Prop :=
  ∀ before v after, r.fragmentProgram.varyings = before ++ v :: after →
    v.source.HasType (fun x type => (x, type) ∈
      r.vertexProgram.types (r.vertexProgram.main ++ before.flatMap (·.statements) ++ v.code)) v.type

theorem Compiled.WellSourced.get {r : Compiled} (h : r.WellSourced) (i : Fin r.fragmentProgram.varyings.length) :
    (r.fragmentProgram.varyings.get i).source.HasType (fun x type => (x, type) ∈
      r.vertexProgram.types (r.vertexProgram.main ++
        (r.fragmentProgram.varyings.take i).flatMap (·.statements) ++ (r.fragmentProgram.varyings.get i).code))
      (r.fragmentProgram.varyings.get i).type := by
  refine h _ _ (r.fragmentProgram.varyings.drop (i + 1)) ?_
  rw [get_eq_getElem, ← drop_eq_getElem_cons i.isLt, take_append_drop]

def strayPair : Node := .uniform 2 { id := 2, type := .vec2 }

def strayStep : Node := .operator 4 .add [relayLevel, .float 3 1]

def strayEcho : Node := .builtin 5 .sin [strayStep]

def strayCorner : Node := .construct 6 .vec2 [relayLevel]

/-- The echo is passed on as the fragment stage has it, without the step that it was computed from. -/
def strayTotal : Node := .operator 9 .add [strayStep, strayEcho, .varying 7 strayEcho, .varying 8 strayStep]

def strayTerm : Node := .operator 11 .add [.argument 10 "p" 0 .float, relayLevel]

def straySum : Node := .sumLoop 13 strayTerm (.float 12 2) relayLevel

def strayPoint : Node := .construct 14 .vec2 [straySum]

def strayOffset : Node := .operator 16 .add [.argument 15 "p" 0 .vec2, strayPair]

/-- A sum of another type with the same name. -/
def strayDrift : Node := .sumLoop 17 strayOffset (.float 12 2) strayPair

def strayMix : Node := .operator 19 .add [strayDrift, .varying 18 strayDrift]

def strayNodes : List Node :=
  [relayLevel, strayPair, .float 3 1, strayStep, strayEcho, strayCorner, .varying 7 strayEcho,
    .varying 8 strayStep, strayTotal, .argument 10 "p" 0 .float, strayTerm, .float 12 2, straySum, strayPoint,
    .argument 15 "p" 0 .vec2, strayOffset, strayDrift, .varying 18 strayDrift, strayMix]

def strayGraph : Graph := .ofList strayNodes <| by
  simp [strayNodes, relayLevel, strayPair, strayStep, strayEcho, strayCorner, strayTotal, strayTerm, straySum,
    strayPoint, strayOffset, strayDrift, strayMix, Node.children, Node.operands]

def strayLost : Compiled := compiled strayCorner strayTotal true 20

def strayMistyped : Compiled := compiled strayPoint strayMix true 20

/-- In two jobs without errors the vertex stage assigns to a varying a variable that it does not declare,
and a float to a varying of type vec2. -/
theorem varyings_not_wellSourced :
    strayGraph.Shared ∧ (∀ n ∈ [strayCorner, strayTotal, strayPoint, strayMix], n ∈ strayGraph.nodes) ∧
    ((compilePair strayCorner strayTotal {} 20).error? = none ∧ ¬ strayLost.WellSourced ∧
      Stmt.block (strayLost.vertexProgram.main ++ strayLost.vertexProgram.epilogue) =
        "vec2 vec2Val0 = vec2(uniform1);\nfloat sinVal2 = sin(addVal1);\nvarying7 = sinVal2;\nvarying8 = addVal1;") ∧
    (compilePair strayPoint strayMix {} 20).error? = none ∧ ¬ strayMistyped.WellSourced ∧
      strayMistyped.fragmentProgram.varyings.map (fun v => (v.type, v.source.text)) = [(.vec2, "p")] ∧
      ("p", GlType.float) ∈ strayMistyped.vertexProgram.main.flatMap Stmt.types := by
  refine ⟨Graph.shared_ofList (by decide), ?_, ⟨?_, fun h => ?_, ?_⟩, ?_, fun h => ?_, ?_, ?_⟩
  · show ∀ n ∈ _, n ∈ strayNodes
    simp [strayNodes]
  · decide +kernel
  · exact absurd (h.get ⟨1, by decide +kernel⟩) (by decide +kernel)
  · decide +kernel
  · decide +kernel
  · exact absurd (h.get ⟨0, by decide +kernel⟩) (by decide +kernel)
  · decide +kernel
  · decide +kernel

end ShaderGraph
