import ShaderGraph.Proofs.Steps

/-!
# Rules of evaluation

`Rules` lists what has to be shown of a judgement about evaluations, one field for each way an
evaluation can go, and `Rules.everywhere` concludes that the judgement holds of every
evaluation. A judgement that is known already may be used in showing the next one. `OpenRules.graded`
is for judgements that fail of initial values nested too deep.

A judgement speaks about a node, the scope, the session before, the result, the session after
and the trace. `Session.Takes` lists the ways in which a remembered result is reused.
-/

namespace ShaderGraph

open Eval List

variable {s s' : Session} {c : Scope} {v : String} {vs : List String} {id : NodeId} {name : String} {g : Generated}
  {n start body m : Node} {gs : List Generated} {ns : List Node} {t : Trace} {gb : Generated}
  {bind : Generated → Step.Binding}

/-! ## Scopes -/

/-- Whether a scope belongs to a fragment stage beside a vertex stage. -/
def Scope.Paired (c : Scope) : Prop := c.stage = .fragment ∧ c.paired

/-! ## Declared variables -/

theorem Session.isEmitted_iff : s.isEmitted c v ↔ ∃ id ∈ c.visible, (id, v) ∈ s.emitted := by
  simp [isEmitted]

theorem Session.isEmitted_mono (h : s.emitted ⊆ s'.emitted) (hv : s.isEmitted c v) : s'.isEmitted c v := by
  obtain ⟨id, hid, hm⟩ := isEmitted_iff.mp hv
  exact isEmitted_iff.mpr ⟨id, hid, h hm⟩

theorem Session.Advance.mem_emitted (h : s.Advance c vs s') (hv : v ∈ vs) (hne : v ≠ "") :
    (c.id, v) ∈ s'.emitted := by
  rw [h.emitted]
  exact mem_append_left _ (mem_map.mpr ⟨v, mem_filter.mpr ⟨hv, by simpa using hne⟩, rfl⟩)

theorem Session.Advance.of_mem_emitted (h : s.Advance c vs s') {p : ScopeId × String} (hp : p ∈ s'.emitted) :
    p ∈ s.emitted ∨ p.1 = c.id ∧ p.2 ∈ vs := by
  rw [h.emitted] at hp
  rcases mem_append.mp hp with hp | hp
  · obtain ⟨v, hv, rfl⟩ := mem_map.mp hp
    exact .inr ⟨rfl, (mem_filter.mp hv).1⟩
  · exact .inl hp

/-! ## Reuse of remembered results -/

/-- A remembered result as a scope takes it, and the session after. -/
inductive Session.Takes (s : Session) (c : Scope) (id : NodeId) : Generated → Session → Prop where
  /-- Its variable is declared already. -/
  | reference {e : MemoEntry} (he : s.memo.lookup id = some e)
      (hv : s.isEmitted c e.generated.var.text) : Takes s c id e.generated.reference s
  /-- It comes from the scope itself. -/
  | again {e : MemoEntry} (he : s.memo.lookup id = some e)
      (hv : ¬ s.isEmitted c e.generated.var.text) (hc : e.scope = c.id) : Takes s c id e.generated s
  /-- It comes from a scope none of whose declarations are known. -/
  | whole {e : MemoEntry} (he : s.memo.lookup id = some e)
      (hv : ¬ s.isEmitted c e.generated.var.text) (hc : e.scope ≠ c.id)
      (hd : ∀ v ∈ e.generated.declared, ¬ s.isEmitted c v) :
      Takes s c id e.generated
        ((s.mark c (e.generated.declared ++ [e.generated.var.text])).updateRegistry c.stage
          (·.addUniforms e.generated.uniforms))

theorem Session.takes_of_lookup (h : s.lookup? c id = some (g, s')) : s.Takes c id g s' := by
  unfold lookup? at h
  cases he : s.memo.lookup id with
  | none => simp [he] at h
  | some e =>
    simp only [he] at h
    by_cases hv : s.isEmitted c e.generated.var.text
    · rw [if_pos hv] at h
      cases h
      exact .reference he hv
    · rw [if_neg hv] at h
      by_cases hc : e.scope = c.id
      · rw [if_pos hc] at h
        cases h
        exact .again he hv hc
      · rw [if_neg hc] at h
        by_cases hd : e.generated.declared.any (s.isEmitted c)
        · rw [if_pos hd] at h
          cases h
        · rw [if_neg hd] at h
          cases h
          exact .whole he hv hc (by simpa using hd)

theorem Session.Advance.take (s : Session) (c : Scope) (g : Generated) :
    s.Advance c (g.declared ++ [g.var.text])
      ((s.mark c (g.declared ++ [g.var.text])).updateRegistry c.stage (·.addUniforms g.uniforms)) := by
  have h := Session.Advance.mark c s (g.declared ++ [g.var.text])
  simpa using h.trans (.useUniforms c _ c.stage g.uniforms)

theorem Session.Takes.advance (h : s.Takes c id g s') : ∃ vs, s.Advance c vs s' := by
  cases h with
  | reference | again => exact ⟨[], .refl c s⟩
  | whole => exact ⟨_, .take s c _⟩

theorem mem_of_lookup {α : Type} {l : List (NodeId × α)} {a : α} (h : l.lookup id = some a) : (id, a) ∈ l := by
  obtain ⟨l1, l2, rfl, -⟩ := lookup_eq_some_iff.mp h
  simp

theorem Session.lookup_remember {j : NodeId} {e : MemoEntry} (h : (s.remember c id g).memo.lookup j = some e) :
    j = id ∧ e = ⟨c.id, g⟩ ∨ j ≠ id ∧ s.memo.lookup j = some e := by
  have h : ((id, ⟨c.id, g⟩) :: s.memo).lookup j = some e := h
  by_cases hj : j = id
  · subst hj
    rw [lookup_cons_self] at h
    exact .inl ⟨rfl, (Option.some.inj h).symm⟩
  · rw [lookup_cons, beq_eq_false_iff_ne.mpr hj] at h
    exact .inr ⟨hj, h⟩

/-! ## Judgements -/

/-- A statement about an evaluation: the node, its scope, the session before, the result, the
session after and the trace. -/
abbrev Judgement := Node → Scope → Session → Generated → Session → Trace → Prop

namespace Judgement

def both (A M : Judgement) : Judgement := fun n c s g s' t => A n c s g s' t ∧ M n c s g s' t

def trivial : Judgement := fun _ _ _ _ _ _ => True

def below (bound : Nat) (M : Judgement) : Judgement := fun n c s g s' t => n.id < bound → M n c s g s' t

def Within (M : Judgement) (depth : Nat) : Prop := ∀ n c s,
  M n c s ((n.evalWithin depth c).run s).1 ((n.evalWithin depth c).run s).2 (n.traceWithin depth c s)

/-- The judgement holds of every evaluation, also of one that stands for an initial value nested
too deep. -/
structure Everywhere (M : Judgement) : Prop where
  eval : ∀ depth n c s, M n c s ((n.evalWithin depth c).run s).1 ((n.evalWithin depth c).run s).2
    (n.traceWithin depth c s)
  exhausted : ∀ n c s, M n c s ((Step.absentOperand c).run s).1 ((Step.absentOperand c).run s).2 []

theorem everywhere_trivial : trivial.Everywhere := ⟨fun _ _ _ _ => True.intro, fun _ _ _ => True.intro⟩

theorem Everywhere.both {A M : Judgement} (hA : A.Everywhere) (hM : M.Everywhere) :
    (A.both M).Everywhere :=
  ⟨fun depth n c s => ⟨hA.eval depth n c s, hM.eval depth n c s⟩,
    fun n c s => ⟨hA.exhausted n c s, hM.exhausted n c s⟩⟩

theorem Everywhere.mono {A M : Judgement} (hA : A.Everywhere)
    (h : ∀ {n c s g s' t}, A n c s g s' t → M n c s g s' t) : M.Everywhere :=
  ⟨fun depth n c s => h (hA.eval depth n c s), fun n c s => h (hA.exhausted n c s)⟩

end Judgement

/-- The operands of a node, evaluated one after another in a scope. -/
inductive Threads (M : Judgement) (c : Scope) :
    List Node → Session → List Generated → Session → Trace → Prop where
  | nil {s : Session} : Threads M c [] s [] s []
  | cons {n : Node} {ns : List Node} {s s1 s2 : Session} {g : Generated} {gs : List Generated}
      {t ts : Trace} : M n c s g s1 t → Threads M c ns s1 gs s2 ts →
      Threads M c (n :: ns) s (g :: gs) s2 (t ++ ts)

theorem Threads.length {M : Judgement} (h : Threads M c ns s gs s' t) : gs.length = ns.length := by
  induction h with
  | nil => rfl
  | cons _ _ ih => simp only [length_cons, ih]

/-- How a loop with the given body starts its sum: the node that it evaluates for the initial
value, the session it does so in, and the binding it makes of the result. -/
inductive Opens (body : Generated) (start : Node) (s : Session) :
    Node → Session → (Generated → Step.Binding) → Prop where
  | accumulated {a : AccumulatorDef} {rest : List AccumulatorDef} (h : body.accumulators = a :: rest) :
      Opens body start s a.initial s fun g => ⟨a.storage, g, body.arguments, rest⟩
  | parameter {a : ArgumentDef} (h : body.accumulators = [])
      (ha : Step.lowestArgument? body.arguments = some a) :
      Opens body start s start s fun g =>
        ⟨a.name, g, body.arguments.filter (·.name ≠ a.name), []⟩
  | own (h : body.accumulators = []) (ha : Step.lowestArgument? body.arguments = none) :
      Opens body start s start s.bump fun g => ⟨"loopVal" ++ toString s.counter, g, [], []⟩

theorem Opens.initial {gm : Generated} (h : Opens gb start s m s' bind) : (bind gm).initial = gm := by
  cases h <;> rfl

/-- What shows that `M` holds of every evaluation, where `A` is known to and `I` holds of the initial
values of accumulators. What a run comes to is given beside it. -/
structure OpenRules (I A M : Judgement) : Prop where
  immediate : ∀ {n c s g s' vs}, n.isImmediate → (n.step c []).run s = (g, s') → g.Bare →
    (∀ v ∈ vs, IsResource v) → s.Advance c vs s' → A n c s g s' [] → M n c s g s' []
  reuse : ∀ {n c s g s' vs}, n.isMemoized → s.lookup? c n.id = some (g, s') → s.Takes c n.id g s' →
    s.Advance c vs s' → A n c s g s' [.taken c g] → M n c s g s' [.taken c g]
  compute : ∀ {n c s gs s1 t g s2}, n.isPlain → s.lookup? c n.id = none →
    Threads (A.both M) c n.operands s gs s1 t → (n.step c gs).run s1 = (g, s2) → Outcome n c gs s1 g s2 →
    A n c s g (s2.remember c n.id g) t → M n c s g (s2.remember c n.id g) t
  loop : ∀ {id body count start c s gi s1 t1 s2 gb s3 t2 m s4 bind gm s5 t3 g s6},
    s.lookup? c id = none → A.both M count c s gi s1 t1 →
    ((Step.checkCount c gi).run s1).2 = s2 → s1.Advance c [] s2 →
    A.both M body (c.loopBody s2.nextScope) s2.openScope gb s3 t2 →
    Opens gb start s3 m s4 bind → I m c s4 gm s5 t3 →
    (Step.sumLoop c gi gb (bind gm)).run s5 = (g, s6) →
    g = Step.loopResult gi gb (bind gm) s5.counter → s5.Advance c (marks [gm, gi] (.name (bind gm).var)) s6 →
    A (.sumLoop id body count start) c s g (s6.remember c id g) (t1 ++ (t2 ++ t3)) →
    M (.sumLoop id body count start) c s g (s6.remember c id g) (t1 ++ (t2 ++ t3))
  accumulator : ∀ {id name start c s s1 g0 s0 t0 g s2 s3}, s.lookup? c id = none →
    (if c.inLoop then s else s.report c [.accumulatorOutside name]) = s1 →
    A.both M start (.lone c.stage) { nextId := s1.nextId, folding := s1.folding } g0 s0 t0 →
    (Step.accumulator c name start g0.type).run { s1 with nextId := s0.nextId } = (g, s2) →
    s.Advance c [] s3 → g = (Step.accumulatorForm name start g0.type s3.counter).result s3.bump.counter →
    s2 = (Step.accumulatorForm name start g0.type s3.counter).session c [] s3.bump →
    A (.accumulator id name start) c s g (s2.remember c id g) [] →
    M (.accumulator id name start) c s g (s2.remember c id g) []
  knownFunction : ∀ {id name body c s f g s'}, s.functions.lookup id = some f →
    (Step.readFunction c f).run s = (g, s') → g = Step.functionResult f → s.Advance c [] s' →
    A (.defun id name body) c s g s' [.taken c g] → M (.defun id name body) c s g s' [.taken c g]
  newFunction : ∀ {id name body c s gb s1 t f s2 g s3}, s.functions.lookup id = none →
    A.both M body (c.functionBody s.nextScope) s.openScope gb s1 t →
    (Step.function c id name gb).run s1 = (f, s2) → (Step.readFunction c f).run (s2.define id f) = (g, s3) →
    f = Step.functionOf id name gb → g = Step.functionResult f → (s1.define id f).Advance c [] s3 →
    A (.defun id name body) c s g s3 t → M (.defun id name body) c s g s3 t
  varying : ∀ {id n c s g s1 t r s2}, c.Paired →
    A.both M n .vertexMain s g s1 t → (Step.readVarying c id g).run s1 = (r, s2) →
    A (.varying id n) c s r s2
      (if s1.hasVarying c.stage (Step.varyingName id) then [.discarded g t] else t) →
    M (.varying id n) c s r s2
      (if s1.hasVarying c.stage (Step.varyingName id) then [.discarded g t] else t)
  strayVarying : ∀ {id n c s g s1 t}, ¬ c.Paired →
    A.both M n c (s.report c [.varyingStage (Step.varyingName id)]) g s1 t →
    A (.varying id n) c s g s1 t → M (.varying id n) c s g s1 t

/-- What shows that `M` holds of every evaluation, where `A` is known to. -/
structure Rules (A M : Judgement) : Prop extends OpenRules (A.both M) A M where
  exhausted : ∀ {n c s g s'}, (Step.absentOperand c).run s = (g, s') →
    A n c s g s' [] → M n c s g s' []

/-! ## Every evaluation -/

section
variable {I A M : Judgement} {initial : Node → Scope → Eval Generated} {past : Node → Scope → Session → Trace}

def Judgement.Of (M : Judgement) (initial : Node → Scope → Eval Generated)
    (past : Node → Scope → Session → Trace) (n : Node) : Prop :=
  ∀ c s, M n c s ((n.eval initial c).run s).1 ((n.eval initial c).run s).2
    (n.trace initial past c s)

theorem threads_evalAll {ns : List Node} (h : ∀ n ∈ ns, M.Of initial past n) (c : Scope)
    (s : Session) :
    Threads M c ns s ((Node.evalAll initial ns c).run s).1 ((Node.evalAll initial ns c).run s).2
      (Node.traceAll initial past ns c s) := by
  induction ns generalizing s with
  | nil => exact .nil
  | cons n ns ih =>
    exact .cons (h n mem_cons_self c s) (ih (fun m hm => h m (mem_cons_of_mem _ hm)) _)

namespace OpenRules

/-- However a loop starts its sum, the judgement holds of the evaluation of the initial value. -/
theorem opening (hi : ∀ n c s, M n c s ((initial n c).run s).1 ((initial n c).run s).2 (past n c s))
    (hstart : M.Of initial past start) (c : Scope) (body : Generated) (s : Session) :
    ∃ m s1 bind gm s2 t, Opens body start s m s1 bind ∧ M m c s1 gm s2 t ∧
      openSum initial body start c s = (bind gm, s2) ∧
      traceOpening initial past body start c s = t := by
  unfold openSum traceOpening
  split
  · next a rest ha => exact ⟨_, _, _, _, _, _, .accumulated ha, hi a.initial c s, rfl, rfl⟩
  · next a ha ha' => exact ⟨_, _, _, _, _, _, .parameter ha ha', hstart c s, rfl, rfl⟩
  · next ha ha' => exact ⟨_, _, _, _, _, _, .own ha ha', hstart c s.bump, rfl, rfl⟩

section
variable (h : OpenRules I A M)
include h

theorem remembered (hm : n.isMemoized) (hl : s.lookup? c n.id = some (g, s')) (hA : A n c s g s' [.taken c g]) :
    M n c s g s' [.taken c g] := by
  have ht := Session.takes_of_lookup hl
  obtain ⟨vs, ha⟩ := ht.advance
  exact h.reuse hm hl ht ha hA

theorem plain (hn : n.isPlain) (hA : A.Of initial past n)
    (ih : ∀ m ∈ n.operands, (A.both M).Of initial past m) : M.Of initial past n := by
  intro c s
  have hA := hA c s
  have hm := isMemoized_of_isPlain hn
  rw [eval_plain hn, trace_plain hn, Session.traceMemo] at hA ⊢
  cases hl : s.lookup? c n.id with
  | some r =>
    rw [hl] at hA
    exact h.remembered hm hl hA
  | none =>
    rw [hl] at hA
    have ht := threads_evalAll ih c s
    exact h.compute hn hl ht rfl (Node.step_outcome hn ht.length rfl) hA

theorem sumLoop {count : Node} (hA : A.Of initial past (.sumLoop id body count start))
    (hi : ∀ n c s, I n c s ((initial n c).run s).1 ((initial n c).run s).2 (past n c s))
    (hbody : (A.both M).Of initial past body) (hcount : (A.both M).Of initial past count)
    (hstart : I.Of initial past start) : M.Of initial past (.sumLoop id body count start) := by
  intro c s
  have hA := hA c s
  rw [eval_sumLoop, trace_sumLoop, Session.traceMemo] at hA ⊢
  cases hl : s.lookup? c id with
  | some r =>
    rw [hl] at hA
    exact h.remembered rfl hl hA
  | none =>
    rw [hl] at hA
    dsimp only at hA ⊢
    have hc := hcount c s
    generalize (count.eval initial c).run s = r at hc hA ⊢
    generalize hs : ((Step.checkCount c r.1).run r.2).2 = s2 at hA ⊢
    have hb := hbody (c.loopBody s2.nextScope) s2.openScope
    generalize (body.eval initial (c.loopBody s2.nextScope)).run s2.openScope = b at hb hA ⊢
    obtain ⟨m, s3, bind, gm, s4, t, ho, hm, he, ht⟩ := opening hi hstart c b.1 b.2
    simp only [he, ht] at hA ⊢
    generalize hr : (Step.sumLoop c r.1 b.1 (bind gm)).run s4 = q at hA ⊢
    obtain ⟨hg, hw⟩ := Step.sumLoop_writes hr
    rw [ho.initial] at hw
    exact h.loop hl hc hs (Step.checkCount_writes hs).toAdvance hb ho hm hr hg hw.toAdvance hA

theorem newAccumulator {s1 s0 s2 : Session} {g0 : Generated} (hl : s.lookup? c id = none)
    (hs : (if c.inLoop then s else s.report c [.accumulatorOutside name]) = s1)
    (hp : A.both M start (.lone c.stage) { nextId := s1.nextId, folding := s1.folding } g0 s0 t)
    (hr : (Step.accumulator c name start g0.type).run { s1 with nextId := s0.nextId } = (g, s2))
    (hA : A (.accumulator id name start) c s g (s2.remember c id g) []) :
    M (.accumulator id name start) c s g (s2.remember c id g) [] := by
  obtain ⟨s3, hw, hg, hs2⟩ := Step.accumulator_writes hs hr
  exact h.accumulator hl hs hp hr hw.toAdvance hg hs2 hA

theorem accumulated (hA : A.Of initial past (.accumulator id name start))
    (hstart : (A.both M).Of initial past start) : M.Of initial past (.accumulator id name start) := by
  intro c s
  have hA := hA c s
  simp only [Node.eval, Node.trace, run_memoized, Session.traceMemo] at hA ⊢
  cases hl : s.lookup? c id with
  | some r =>
    rw [hl] at hA
    exact h.remembered rfl hl hA
  | none =>
    rw [hl] at hA
    by_cases hc : c.inLoop
    · simp only [hc] at hA ⊢
      exact h.newAccumulator hl (if_pos hc) (hstart _ _) rfl hA
    · simp only [hc] at hA ⊢
      exact h.newAccumulator hl (if_neg hc) (hstart _ _) rfl hA

theorem newDefinition {s1 s2 s3 : Session} {f : Function} (hl : s.functions.lookup id = none)
    (hb : A.both M body (c.functionBody s.nextScope) s.openScope gb s1 t)
    (hf : (Step.function c id name gb).run s1 = (f, s2))
    (hr : (Step.readFunction c f).run (s2.define id f) = (g, s3)) (hA : A (.defun id name body) c s g s3 t) :
    M (.defun id name body) c s g s3 t := by
  obtain ⟨hf', hw⟩ := Step.function_writes hf
  obtain ⟨hg, ha⟩ := Step.readFunction_eq hr
  exact h.newFunction hl hb hf hr hf' hg (hw.toAdvance.define.trans ha) hA

theorem defun (hA : A.Of initial past (.defun id name body)) (hbody : (A.both M).Of initial past body) :
    M.Of initial past (.defun id name body) := by
  intro c s
  have hA := hA c s
  simp only [Node.eval, Node.trace, run_bind, run_get] at hA ⊢
  cases hl : s.functions.lookup id with
  | some f =>
    rw [hl] at hA
    obtain ⟨hg, ha⟩ := Step.readFunction_eq (rfl : (Step.readFunction c f).run s = (_, _))
    exact h.knownFunction hl rfl hg ha hA
  | none =>
    rw [hl] at hA
    exact h.newDefinition hl (hbody _ _) rfl rfl hA

theorem varied (hA : A.Of initial past (.varying id n)) (hn : (A.both M).Of initial past n) :
    M.Of initial past (.varying id n) := by
  intro c s
  have hA := hA c s
  simp only [Node.eval, Node.trace, run_ite] at hA ⊢
  by_cases hc : c.stage = .fragment ∧ c.paired
  · simp only [if_pos hc] at hA ⊢
    exact h.varying hc (hn _ _) rfl hA
  · simp only [if_neg hc] at hA ⊢
    exact h.strayVarying hc (hn _ _) hA

/-- The rules give the judgement for every node, by recursion on the node. -/
theorem of (hI : ∀ {n c s g s' t}, A.both M n c s g s' t → I n c s g s' t)
    (hi : ∀ n c s, I n c s ((initial n c).run s).1 ((initial n c).run s).2 (past n c s))
    (hA : ∀ n, A.Of initial past n) (n : Node) : M.Of initial past n := by
  have both {m : Node} (hm : M.Of initial past m) : (A.both M).Of initial past m :=
    fun c s => ⟨hA m c s, hm c s⟩
  by_cases hp : n.isPlain
  · exact h.plain hp (hA n) fun m hm =>
      have := sizeOf_operand_lt hm
      both (of hI hi hA m)
  by_cases hn : n.isImmediate
  · intro c s
    have hA := hA n c s
    rw [eval_immediate hn, trace_immediate hn] at hA ⊢
    obtain ⟨hbare, vs, hvs, ha⟩ := Node.step_bare (c := c) hn rfl
    exact h.immediate hn rfl hbare hvs ha hA
  cases n with
  | sumLoop id body count start =>
    exact h.sumLoop (hA _) hi (both (of hI hi hA body)) (both (of hI hi hA count))
      fun c s => hI (both (of hI hi hA start) c s)
  | accumulator id name start => exact h.accumulated (hA _) (both (of hI hi hA start))
  | defun id name body => exact h.defun (hA _) (both (of hI hi hA body))
  | varying id n => exact h.varied (hA _) (both (of hI hi hA n))
  | absent | float | bool | uniform | «attribute» => exact absurd rfl hn
  | _ => exact absurd rfl hp
termination_by sizeOf n

end

/-- The rules may use less and less of the judgement for initial values, down to nothing, if the ids
of the nodes say how deep these nest. -/
theorem graded (h : ∀ bound, OpenRules (A.both (M.below bound)) A (M.below (bound + 1)))
    (hA : A.Everywhere) (depth : Nat) : (M.below (depth + 1)).Within depth := by
  have hlower (bound : Nat) {n : Node} {c : Scope} {s s' : Session} {g : Generated} {t : Trace}
      (hM : A.both (M.below (bound + 1)) n c s g s' t) : A.both (M.below bound) n c s g s' t :=
    ⟨hM.1, fun hn => hM.2 (Nat.lt_succ_of_lt hn)⟩
  induction depth with
  | zero =>
    change ∀ n, (M.below 1).Of (fun _ c => Step.absentOperand c) (fun _ _ _ => []) n
    exact (h 0).of (hlower 0) (fun n c s => ⟨hA.exhausted n c s, fun hn => absurd hn (Nat.not_lt_zero _)⟩)
      (hA.eval 0)
  | succ depth ih =>
    exact (h (depth + 1)).of (hlower (depth + 1)) (fun n c s => ⟨hA.eval depth n c s, ih n c s⟩)
      (hA.eval (depth + 1))

/-- The rules may do without the initial values. -/
theorem within (h : OpenRules .trivial A M) {depth : Nat} (hA : A.Within depth) : M.Within depth := by
  cases depth with
  | zero => exact h.of (fun _ => trivial) (fun _ _ _ => trivial) hA
  | succ depth => exact h.of (fun _ => trivial) (fun _ _ _ => trivial) hA

end OpenRules

/-- What the rules show of evaluation holds everywhere. -/
theorem Rules.everywhere (h : Rules A M) (hA : A.Everywhere) : M.Everywhere := by
  have hx : ∀ n c s, M n c s ((Step.absentOperand c).run s).1 ((Step.absentOperand c).run s).2 [] :=
    fun n c s => h.exhausted rfl (hA.exhausted n c s)
  refine ⟨fun depth => ?_, hx⟩
  induction depth with
  | zero =>
    change ∀ n, M.Of (fun _ c => Step.absentOperand c) (fun _ _ _ => []) n
    exact h.of id (fun n c s => ⟨hA.exhausted n c s, hx n c s⟩) (hA.eval 0)
  | succ depth ih => exact h.of id (fun n c s => ⟨hA.eval depth n c s, ih n c s⟩) (hA.eval (depth + 1))

theorem threads_generate (hM : M.Everywhere) {roots : List Node} {c : Scope} {s s' : Session}
    {gs : List Generated} (hr : (roots.mapM (Node.generate · c)).run s = (gs, s')) :
    ∃ t, Threads M c roots s gs s' t := by
  induction roots generalizing s gs with
  | nil =>
    cases hr
    exact ⟨[], .nil⟩
  | cons n ns ih =>
    rw [mapM_cons] at hr
    cases hr
    obtain ⟨t, ht⟩ := ih rfl
    exact ⟨_, .cons (hM.eval n.id n c s) ht⟩

end

end ShaderGraph
