import ShaderGraph.Proofs.Requests

/-!
# Evaluating twice

A node that is evaluated a second time in one scope gives a reference to its variable, and the session
stays as it is. What makes it so is that a remembered result is declared in the scope that
it was evaluated in. This leaves out results without a variable, which no scope can declare, and
functions, which are not declared as variables: a call of what is no function stands for its first
operand, and that may be a function.
-/

namespace ShaderGraph

open Eval List

/-! ## Declared results -/

/-- Where a result of the scope with that id is read, nothing has to be declared. -/
def Session.Serves (s : Session) (id : ScopeId) (g : Generated) : Prop :=
  g.var.text ≠ "" → g.function = none → g.isReference ∨ (id, g.var.text) ∈ s.emitted

/-- Remembered results are declared in their scopes. -/
def Session.Served (s : Session) : Prop := ∀ p ∈ s.memo, s.Serves p.2.scope p.2.generated

section
variable {s s' : Session} {c : Scope} {g : Generated}

namespace Session

theorem Serves.mono {id : ScopeId} (h : s.Serves id g) (hg : s.Grows s') : s'.Serves id g :=
  fun hv hf => (h hv hf).imp_right fun hm => hg.emitted.subset hm

theorem Serves.reference {id : ScopeId} (h : g.isReference) : s.Serves id g := fun _ _ => .inl h

theorem Serves.function {id : ScopeId} {f : Function} (h : g.function = some f) : s.Serves id g :=
  fun _ hf => by rw [h] at hf; cases hf

theorem Advance.serves {vs : List String} (h : s.Advance c vs s') (hv : g.var.text ∈ vs) :
    s'.Serves c.id g := fun hne _ => .inr (h.mem_emitted hv hne)

theorem Served.congr (h : s.Served) (hg : s.Grows s') (hm : s'.memo = s.memo) : s'.Served := by
  intro p hp
  rw [hm] at hp
  exact (h p hp).mono hg

theorem Served.advance {vs : List String} (h : s.Served) (ha : s.Advance c vs s') : s'.Served :=
  h.congr (.advance ha) ha.memo

theorem Served.openScope (h : s.Served) : s.openScope.Served := h.congr (.openScope s) rfl

theorem Served.remember (h : s.Served) (id : NodeId) (hg : s.Serves c.id g) :
    (s.remember c id g).Served ∧ (s.remember c id g).Serves c.id g := by
  have hgrows := Grows.remember s c id g
  refine ⟨fun p hp => ?_, hg.mono hgrows⟩
  rcases mem_cons.mp hp with rfl | hp
  · exact hg.mono hgrows
  · exact (h p hp).mono hgrows

theorem Served.take {id : NodeId} (h : s.Served) (ht : s.Takes c id g s') : s'.Served ∧ s'.Serves c.id g := by
  cases ht with
  | reference => exact ⟨h, .reference rfl⟩
  | again he _ hc => exact ⟨h, hc ▸ h _ (mem_of_lookup he)⟩
  | @whole e =>
    have ha := Session.Advance.take s c e.generated
    exact ⟨h.advance ha, ha.serves mem_concat_self⟩

end Session

/-! ## Every evaluation -/

theorem Session.Advance.serves_var {deps : List Generated} {v : Atom} (h : s.Advance c (marks deps v) s')
    (hg : g.var = v) : s'.Serves c.id g :=
  h.serves (hg ▸ mem_concat_self)

theorem Node.step_serves {n : Node} (hn : n.isImmediate) (hr : (n.step c []).run s = (g, s')) :
    s'.Serves c.id g := by
  cases n with
  | absent | float | bool =>
    cases hr
    exact .reference rfl
  | uniform id u =>
    obtain ⟨rfl, es, rfl⟩ := Step.readUniform_eq hr
    exact (Session.Advance.mark c _ [u.name]).serves mem_cons_self
  | «attribute» id a =>
    obtain ⟨rfl, es, -, rfl⟩ := Step.readAttribute_eq hr
    exact (Session.Advance.mark c _ [a.name]).serves mem_cons_self
  | _ => cases hn

theorem Form.serves (φ : Form) (c : Scope) (es : List GraphError) (s : Session) :
    (φ.session c es s).Serves c.id (φ.result s.counter) :=
  (φ.advance c es s).serves_var rfl

theorem Outcome.serves {n : Node} {gs : List Generated} (h : Outcome n c gs s g s')
    (hgs : ∀ d ∈ gs, s.Serves c.id d) : s'.Serves c.id g := by
  have hgrows := h.grows
  cases h with
  | declared φ _ hg hs =>
    subst hg hs
    exact φ.serves c _ s
  | broken _ _ hg hs =>
    subst hg hs
    exact (Session.Advance.mark c _ _).serves_var rfl
  | failed _ hg _ =>
    rcases hg with hg | rfl
    · exact (hgs g hg).mono hgrows
    · exact .reference rfl

/-- Evaluation keeps remembered results declared, and declares its own. -/
def serving : Judgement := fun _ c s g s' _ => s.Served → s'.Served ∧ s'.Serves c.id g

theorem Threads.serving {ns : List Node} {gs : List Generated} {t : Trace}
    (h : Threads (grows.both serving) c ns s gs s' t) (hs : s.Served) :
    (∀ d ∈ gs, s'.Serves c.id d) ∧ s'.Served :=
  h.carry And.left (fun hg h => h.mono hg) (fun _ _ _ _ _ _ h hs => (h.2 hs).symm) hs

theorem serving_rules : Rules grows serving where
  immediate hn hr _ _ ha _ hs := ⟨hs.advance ha, Node.step_serves hn hr⟩
  reuse _ _ ht _ _ hs := hs.take ht
  compute _ _ ht _ ho _ hs := by
    obtain ⟨hgs, hs1⟩ := ht.serving hs
    obtain ⟨vs, ha⟩ := ho.advance
    exact (hs1.advance ha).remember _ (ho.serves hgs)
  loop _ hc _ ha2 hb ho hm _ hg ha6 _ hs := by
    have hs2 := (hc.2 hs).1.advance ha2
    have hs3 := (hb.2 hs2.openScope).1.congr ho.grows ho.memo
    obtain ⟨hs5, -⟩ := hm.2 hs3
    exact (hs5.advance ha6).remember _ (ha6.serves_var (hg ▸ rfl))
  accumulator _ _ _ _ ha hg hs2 _ hs := by
    subst hg hs2
    have hs3 := hs.advance (ha.trans (.bump _ _))
    exact (hs3.advance (Form.advance ..)).remember _ (Form.serves _ _ [] _)
  knownFunction _ _ hg ha _ hs := by
    subst hg
    exact ⟨hs.advance ha, .function rfl⟩
  newFunction _ hb _ _ _ hg ha _ hs := by
    obtain ⟨hs1, -⟩ := hb.2 hs.openScope
    subst hg
    exact ⟨(hs1.congr (.define _ _ _) rfl).advance ha, .function rfl⟩
  varying _ hn hr _ hs := by
    have hgrows := Step.readVarying_grows hr
    have hmemo := (Step.readVarying_same hr).1
    obtain ⟨s2, ha, rfl, rfl⟩ := Step.readVarying_eq hr
    exact ⟨(hn.2 hs).1.congr hgrows hmemo, (ha.serves mem_cons_self).mono (.addVarying ..)⟩
  strayVarying _ hn _ hs := hn.2 (hs.advance (.report _ _ _))
  exhausted hr _ hs := by
    cases hr
    exact ⟨hs.advance (.report _ _ _), .reference rfl⟩

theorem serving_everywhere : serving.Everywhere := serving_rules.everywhere grows_everywhere

end

namespace Usage.Asked

variable {u : Usage} {rs : List Request}

theorem served (h : u.Asked rs) : u.session.Served := by
  induction h with
  | initial h =>
    cases h with
    | pair | lone => exact forall_mem_nil _
  | functionBody _ _ ih | loopBody _ _ ih => exact ih.openScope
  | @call u _ _ c n _ _ _ _ _ _ ih => exact (serving_everywhere.eval n.id n c u.session ih).1
  | @ask u _ _ _ ih => exact ih.advance (.bump .vertexMain u.session)
  | @emit u _ c _ _ _ _ var deps ih => exact ih.advance (.mark c u.session (marks deps (.name var)))
  | @report u _ c _ _ es ih => exact ih.advance (.report c u.session es)

theorem mem_visible (h : u.Asked rs) : ∀ c ∈ u.scopes, c.id ∈ c.visible := by
  induction h with
  | initial h =>
    cases h with
    | pair => exact forall_mem_cons.mpr ⟨by decide, forall_mem_singleton.mpr (by decide)⟩
    | lone => exact forall_mem_singleton.mpr mem_cons_self
  | functionBody _ _ ih => exact forall_mem_cons.mpr ⟨mem_cons_self, ih⟩
  | loopBody _ _ ih => exact forall_mem_cons.mpr ⟨mem_cons_self, ih⟩
  | call _ _ _ _ ih | ask _ _ ih | emit _ _ _ _ _ _ ih | report _ _ _ ih => exact ih

end Usage.Asked

/-! ## The second evaluation -/

section
variable {n : Node} {c : Scope} {s s' : Session} {g : Generated}

theorem Node.generate_memoized (hn : n.isMemoized) (c : Scope) :
    ∃ e : Eval Generated, n.generate c = memoized c n.id e := by
  obtain ⟨initial, hi⟩ := evalWithin_eq_eval n.id
  rw [generate, hi]
  cases n with
  | absent | float | bool | uniform | «attribute» | defun | varying => cases hn
  | _ => exact ⟨_, rfl⟩

theorem Generated.reference_of_isReference (h : g.isReference) : g.reference = g := by
  obtain ⟨code⟩ := g
  cases code with
  | reference => rfl
  | statements => cases h

theorem Session.lookup_of_entry {id : NodeId} {e : MemoEntry} (he : s.memo.lookup id = some e)
    (h : s.isEmitted c e.generated.var.text ∨ e.scope = c.id) :
    s.lookup? c id =
      some (if s.isEmitted c e.generated.var.text then e.generated.reference else e.generated, s) := by
  unfold lookup?
  rw [he]
  dsimp only
  by_cases hv : s.isEmitted c e.generated.var.text
  · rw [if_pos hv, if_pos hv]
  · rw [if_neg hv, if_neg hv, if_pos (h.resolve_left hv)]

theorem Node.entry_of_generate (hn : n.isMemoized) (hc : c.id ∈ c.visible)
    (hr : (n.generate c).run s = (g, s')) (hv : g.var.text ≠ "") :
    ∃ e, s'.memo.lookup n.id = some e ∧ e.generated.reference = g.reference ∧
      (s'.isEmitted c g.var.text ∨ e.scope = c.id ∧ e.generated = g) := by
  obtain ⟨x, hx⟩ := generate_memoized hn c
  rw [hx, run_memoized] at hr
  cases hl : s.lookup? c n.id with
  | none =>
    rw [hl] at hr
    cases hr
    exact ⟨⟨c.id, _⟩, lookup_cons_self, rfl, .inr ⟨rfl, rfl⟩⟩
  | some r =>
    rw [hl] at hr
    cases hr
    cases Session.takes_of_lookup hl with
    | @reference e he hemitted => exact ⟨e, he, rfl, .inl hemitted⟩
    | again he _ hscope => exact ⟨_, he, rfl, .inr ⟨hscope, rfl⟩⟩
    | @whole e he =>
      have ha := Session.Advance.take s c e.generated
      have hmem := ha.mem_emitted mem_concat_self hv
      exact ⟨_, ha.memo ▸ he, rfl, .inl (Session.isEmitted_iff.mpr ⟨c.id, hc, hmem⟩)⟩

end

/-- However a session was used before, evaluating a memoized node a second time in the same scope
changes nothing of the session and gives a reference to the variable of the first result, with
everything else as it was. The result must have a variable and must not stand for a function. -/
theorem Usage.Asked.generate_twice {u : Usage} {rs : List Request} (hu : u.Asked rs) {c : Scope}
    (hc : c ∈ u.scopes) {n : Node} (hn : n.isMemoized) {g : Generated} {s : Session}
    (hr : (n.generate c).run u.session = (g, s)) (hv : g.var.text ≠ "") (hf : g.function = none) :
    (n.generate c).run s = ({ g with code := .reference }, s) ∧
      ({ g with code := .reference } : Generated).codeText = g.var.text := by
  refine ⟨?_, rfl⟩
  have hvisible := hu.mem_visible c hc
  have hserved : s.Served := by
    have h := serving_everywhere.eval n.id n c u.session hu.served
    change ((n.generate c).run u.session).2.Served ∧ _ at h
    rw [hr] at h
    exact h.1
  obtain ⟨e, he, hsame, hknown⟩ := Node.entry_of_generate hn hvisible hr hv
  have hvar : e.generated.reference.var = g.reference.var := congrArg Generated.var hsame
  change e.generated.var = g.var at hvar
  have hlookup := Session.lookup_of_entry (c := c) he (by
    rw [hvar]
    exact hknown.imp_right And.left)
  obtain ⟨x, hx⟩ := Node.generate_memoized hn c
  rw [hx, run_memoized, hlookup]
  by_cases hemitted : s.isEmitted c e.generated.var.text
  · rw [if_pos hemitted]
    exact congrArg (·, s) hsame
  · -- a result of the scope itself that is not declared there is a reference already
    rw [if_neg hemitted]
    obtain ⟨hscope, rfl⟩ := hknown.resolve_left (hvar ▸ hemitted)
    rcases hserved _ (mem_of_lookup he) hv hf with href | hmem
    · exact congrArg (·, s) (Generated.reference_of_isReference href).symm
    · exact absurd (Session.isEmitted_iff.mpr ⟨c.id, hvisible, hscope ▸ hmem⟩) hemitted

/-- A sum that a loop declared is declared again outside of the loop, and then referred to. -/
theorem shiftedTime_twice : clashUsage.Asked clashRequests ∧ ∃ g s,
    (shiftedTime.generate (.lone .fragment)).run clashUsage.session = (g, s) ∧
      g.var.text = "addVal10" ∧ ¬ g.isReference ∧
      (shiftedTime.generate (.lone .fragment)).run s = ({ g with code := .reference }, s) := by
  refine ⟨clashUsage_asked, _, _, rfl, by decide +kernel, by decide +kernel, ?_⟩
  exact (clashUsage_asked.generate_twice (c := .lone .fragment) (by decide +kernel) rfl rfl
    (by decide +kernel) (by rfl)).1

/-- A loop that holds its sum in a parameter without a name. -/
def namelessSum : Node :=
  .sumLoop 7 (.operator 4 .add [.argument 2 "" 0 .float, .uniform 3 { id := 3, type := .float }])
    (.float 5 3) (.float 6 0)

/-- A call of a number, with a function as argument. -/
def numberCall : Node := .call 4 (.uniform 1 { id := 1, type := .float }) [.defun 3 "f" (.float 2 2)]

/-- A second evaluation may repeat the first without any error, also in full: where the variable has no
name, and where the result stands for a function. -/
theorem generate_repeats :
    let c := Scope.lone .fragment
    let u₀ : Usage := ⟨{ nextId := 8, folding := true }, [c], []⟩
    let u₁ := u₀.call c numberCall
    (∃ rs, u₀.Asked rs ∧ namelessSum.isMemoized ∧ ∃ g s,
      (namelessSum.generate c).run u₀.session = (g, s) ∧
      (∀ stage, (s.registry stage).errors = (u₀.session.registry stage).errors) ∧
      g.function = none ∧ ¬ ((namelessSum.generate c).run s).1.isReference) ∧
    ∃ rs, u₁.Asked rs ∧ numberCall.isMemoized ∧ ∃ g s,
      (numberCall.generate c).run u₁.session = (g, s) ∧
      (∀ stage, (s.registry stage).errors = (u₁.session.registry stage).errors) ∧
      g.var.text = "f" ∧ ¬ ((numberCall.generate c).run s).1.isReference := by
  intro c u₀ u₁
  have h₀ : u₀.Asked [] := .initial (.lone .fragment 8 true)
  obtain ⟨rs, h₁⟩ := h₀.evaluate (c := c) List.mem_cons_self numberCall
  refine ⟨⟨[], h₀, rfl, _, _, rfl, fun stage => ?_, rfl, by decide +kernel⟩,
    rs, h₁, rfl, _, _, rfl, fun stage => ?_, by decide +kernel, by decide +kernel⟩
  · cases stage with
    | vertex | fragment => decide +kernel
  · cases stage with
    | vertex | fragment => decide +kernel

end ShaderGraph
