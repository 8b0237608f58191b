import ShaderGraph.Proofs.Provenance

/-!
# Breaks and the loops that they leave

A break is remembered like any other result, but the variable that it is remembered under is that of
its value. A result with a break in its code may so be taken over outside of loops, and a result that
should bring a break with it may be taken over as a reference to a variable, without its code. In a job
without errors these are the only ways in which a break gets out of the loops that reach it, or is
missing from one.
-/

namespace ShaderGraph

open Eval List

/-! ## What a loop reaches -/

def Stmt.isBreak : Stmt → Bool
  | .breakIf _ => true
  | _ => false

/-- Neither a loop nor a function nor a running sum. -/
def Node.passes : Node → Bool
  | sumLoop .. | defun .. | accumulator .. => false
  | _ => true

/-- Reached from a node, but not through a loop, a function or the initial value of a running sum. -/
inductive Node.Reaches : Node → Node → Prop where
  | refl (n : Node) : Reaches n n
  | child {n m b : Node} (hn : n.passes) (hm : m ∈ n.children) (h : Reaches m b) : Reaches n b

def Trace.Strays (t : Trace) (st : Stmt) : Prop := ∃ c g, t.Takes c g ∧ ¬ c.inLoop ∧ st ∈ g.code.stmts

/-- A remembered result of the node ends in the statement. -/
def Session.Ends (s : Session) (id : NodeId) (st : Stmt) : Prop :=
  ∃ e, (id, e) ∈ s.memo ∧ e.generated.code.stmts.getLast? = some st

/-- Between two nodes there is a varying, or a result that is taken over as a reference. -/
inductive Session.Misses (s : Session) (t : Trace) (n b : Node) : Prop where
  | varying {id : NodeId} {m : Node} (hn : n.Reaches (.varying id m)) (hb : m.Reaches b)
  | reference {m : Node} {e : MemoEntry} {c : Scope} (hn : n.Reaches m) (hb : m.Reaches b)
      (he : (m.id, e) ∈ s.memo) (ht : t.Takes c e.generated.reference)

/-- The code has all breaks that the node reaches, but for those that are missed. -/
def Session.Places (s : Session) (t : Trace) (n : Node) (ss : List Stmt) : Prop :=
  ∀ id a b, n.Reaches (.breakIf id a b) → (∃ st ∈ ss, s.Ends id st) ∨ s.Misses t n (.breakIf id a b)

section
variable {G : Graph} {s : Session} {c : Scope} {n m b : Node} {g : Generated} {st : Stmt} {ss : List Stmt}
  {t : Trace} {id : NodeId}

theorem Session.Misses.child (h : s.Misses t m b) (hn : n.passes) (hm : m ∈ n.children) : s.Misses t n b := by
  cases h with
  | varying hk hb => exact .varying (.child hn hm hk) hb
  | reference hk hb he h => exact .reference (.child hn hm hk) hb he h

/-- Nothing is reached through a loop, a function or a running sum. -/
theorem Session.places_of_not_passes (hn : ¬ n.passes) (hne : ∀ id a b, n ≠ .breakIf id a b) : s.Places t n ss := by
  intro id a b hb
  cases hb with
  | refl => exact absurd rfl (hne id a b)
  | child hp => exact absurd hp hn

theorem Session.places_of_operands (hplain : n.isPlain)
    (hgs : ∀ m ∈ n.operands, ∃ g : Generated, s.Places t m g.code.stmts ∧ g.code.stmts ⊆ ss)
    (hown : ∀ id a b, n = .breakIf id a b → ∃ st ∈ ss, s.Ends id st) : s.Places t n ss := by
  intro id a b hb
  cases hb with
  | refl => exact .inl (hown id a b rfl)
  | @child _ m _ hpass hm hb =>
    obtain ⟨g, hplaces, hsub⟩ := hgs m (Node.children_of_isPlain hplain ▸ hm)
    rcases hplaces id a b hb with ⟨st, hst, hend⟩ | h
    · exact .inl ⟨st, hsub hst, hend⟩
    · exact .inr (h.child hpass hm)

/-! ## What is made -/

/-- A break that is made outside of loops is taken over there. -/
theorem Session.Made.inside (h : s.Made G t c n g) :
    ∀ st ∈ g.code.stmts, st.isBreak → c.inLoop ∨ t.Strays st := by
  induction h with
  | immediate hi hr => exact fun _ hst => absurd hst (by simp [(Node.step_bare hi hr).1.code])
  | @taken c _ _ g ht =>
    intro st hst _
    by_cases hc : c.inLoop
    · exact .inl hc
    · exact .inr ⟨c, g, ht, hc, hst⟩
  | reference | function | varying => exact forall_mem_nil _
  | @declared c _ _ _ _ _ _ _ hlen _ _ hfits _ _ ih =>
    have hgs := forall_mem_of_zip (P := fun g => ∀ st ∈ g.code.stmts, st.isBreak → c.inLoop ∨ t.Strays st) hlen ih
    intro st hst hb
    rcases mem_append.mp hst with hst | hst
    · obtain ⟨d, hd, hst⟩ := mem_flatMap.mp hst
      exact hgs d (hfits.deps.subset hd) st hst hb
    · rw [mem_singleton.mp hst] at hb
      cases hb
  | broken hc => exact fun _ _ _ => .inl hc
  | @loop c _ _ _ _ _ _ gi _ gm _ _ bind _ _ _ _ _ hopens _ _ _ ihi _ ihm =>
    have hdeps : ∀ d ∈ [(bind gm).initial, gi], ∀ st ∈ d.code.stmts, st.isBreak → c.inLoop ∨ t.Strays st :=
      forall_mem_cons.mpr ⟨hopens.initial.symm ▸ ihm, forall_mem_singleton.mpr ihi⟩
    intro st hst hb
    rcases mem_append.mp hst with hst | hst
    · obtain ⟨d, hd, hst⟩ := mem_flatMap.mp hst
      exact hdeps d hd st hst hb
    · rcases mem_pair.mp hst with rfl | rfl <;> cases hb
  | accumulator =>
    intro st hst hb
    rw [mem_singleton.mp hst] at hb
    cases hb

theorem Session.Made.code_of_function {f : Function} (h : s.Made G t c n g) (hf : g.function = some f) :
    g.code.stmts = [] := by
  induction h with
  | immediate hi hr => exact (Node.step_bare hi hr).1.code
  | taken _ _ ih => exact ih hf
  | reference | function => rfl
  | declared | broken | loop | accumulator | varying => cases hf

/-- What a node reaches is placed in the code that is made for it. -/
theorem Session.Made.placed (h : s.Made G t c n g) : s.Places t n g.code.stmts := by
  induction h with
  | @immediate _ n _ _ _ hi =>
    intro id a b hb
    cases hb with
    | refl => cases hi
    | child _ hm =>
      cases n with
      | absent | float | bool | uniform | «attribute» => exact absurd hm not_mem_nil
      | _ => cases hi
  | taken _ _ ih => exact ih
  | reference _ he ht => exact fun id a b hb => .inr (.reference (.refl _) hb he ht)
  | declared _ hp hlen hgs hφ hfits _ _ ih =>
    refine places_of_operands hp (fun m hm => ?_) ?_
    · obtain ⟨g, hmem⟩ := exists_mem_zip hlen hm
      refine ⟨g, ih _ hmem, fun st hst => ?_⟩
      obtain ⟨rest, hrest⟩ := hfits.deps
      rcases mem_append.mp (hrest ▸ (of_mem_zip hmem).2) with hg | hg
      · exact mem_append_left _ (mem_flatMap.mpr ⟨g, hg, hst⟩)
      · obtain ⟨f, -, hf⟩ := hfits.rest rest hrest.symm g hg
        rw [(hgs _ hmem).code_of_function hf] at hst
        cases hst
    · rintro id a b rfl
      cases hφ
  | @broken _ id a b cond value e _ _ _ _ he hg iha ihb =>
    have hlast : e.generated.code.stmts.getLast? = some (.breakIf cond.var) := by
      rw [hg]
      exact getLast?_concat
    have hcode {d : Generated} (hd : d ∈ [cond, value]) : d.code.stmts ⊆
        [cond, value].flatMap (·.code.stmts) ++ [.breakIf cond.var] :=
      fun st hst => mem_append_left _ (mem_flatMap.mpr ⟨d, hd, hst⟩)
    refine places_of_operands rfl ?_ fun id' a' b' h => ?_
    · exact forall_mem_cons.mpr
        ⟨⟨cond, iha, hcode (by simp)⟩, forall_mem_singleton.mpr ⟨value, ihb, hcode (by simp)⟩⟩
    · cases h
      exact ⟨_, mem_concat_self, e, he, hlast⟩
  | loop | accumulator | function =>
    exact places_of_not_passes (by simp [Node.passes]) fun _ _ _ h => by cases h
  | varying =>
    intro id a b hb
    cases hb with
    | child _ hm hb =>
      obtain rfl := mem_singleton.mp hm
      exact .inr (.varying (.refl _) hb)

/-- What the body of a loop reaches is placed in the loop. -/
theorem Session.Made.placed_body {body count start : Node} {index v : String} {bound : LoopBound} {inner : List Stmt}
    {term : Atom} (h : s.Made G t c n g) (hn : n = .sumLoop id body count start)
    (hlast : g.code.stmts.getLast? = some (.loop index bound inner v term)) : s.Places t body inner := by
  induction h with
  | immediate hi =>
    subst hn
    cases hi
  | taken _ _ ih => exact ih hn hlast
  | reference => cases hlast
  | declared _ _ _ _ hφ =>
    subst hn
    cases hφ
  | loop _ _ hb =>
    cases hn
    cases (getLast?_append_of_ne_nil _ (cons_ne_nil _ _)).symm.trans hlast
    exact hb.placed
  | broken | accumulator | function | varying => cases hn

theorem Graph.mem_of_reaches (h : n.Reaches b) (hn : n ∈ G.nodes) : b ∈ G.nodes := by
  induction h with
  | refl => exact hn
  | child _ hm _ ih => exact ih (G.closed _ hn _ hm)

theorem Session.Ends.of_breakIf {a : Node} (h : s.Ends id st) (hs : s.Coherent G) (hG : G.Shared)
    (hn : .breakIf id a b ∈ G.nodes) : ∃ x, st = .breakIf x := by
  obtain ⟨e, he, hst⟩ := h
  obtain ⟨m, hm, -, hid, hd⟩ := hs.derived _ he
  obtain rfl := hG m hm _ hn hid
  generalize e.generated = r at hd hst
  cases hd with
  | declared _ _ hφ => cases hφ
  | broken => exact ⟨_, (Option.some.inj (getLast?_concat.symm.trans hst)).symm⟩

end

/-! ## The breaks of a job -/

/-- A break stands in a loop, unless it is taken over outside of loops. A loop is that of a summing node, and
has all breaks that the body of the node reaches, unless they are missed. -/
structure Compiled.KeepsBreaks (G : Graph) (r : Compiled) : Prop where
  inside : ∀ block ∈ r.blocks, ∀ st ∈ block, st.isBreak → r.trace.Strays st
  loops : ∀ block ∈ r.blocks, ∀ index bound inner v term, (Stmt.loop index bound inner v term).Inside block →
    ∃ id body count start, .sumLoop id body count start ∈ G.nodes ∧
      r.session.Ends id (.loop index bound inner v term)
  placed : ∀ id body count start, .sumLoop id body count start ∈ G.nodes → ∀ index bound inner v term,
    r.session.Ends id (.loop index bound inner v term) → ∀ i a b, body.Reaches (.breakIf i a b) →
      (∃ x, .breakIf x ∈ inner ∧ r.session.Ends i (.breakIf x)) ∨
        r.session.Misses r.trace body (.breakIf i a b)

/-- In a job without errors breaks are where they belong, but for what is taken over in the wrong place or
in the wrong form. -/
theorem breaks_kept_but_for_reuse {G : Graph} (hG : G.Shared) {vertex fragment : Node} (hv : vertex ∈ G.nodes)
    (hf : fragment ∈ G.nodes) {o : CompileOptions} {nextId : NodeId} {r : Compiled}
    (hr : compiled vertex fragment o.folding nextId = r)
    (herr : (compilePair vertex fragment o nextId).error? = none) :
    (compilePair vertex fragment o nextId).vertexSource = r.vertexProgram.sections.assemble.1 ∧
    (compilePair vertex fragment o nextId).fragmentSource = r.fragmentProgram.sections.assemble.1 ∧
    r.KeepsBreaks G := by
  refine ⟨hr ▸ rfl, hr ▸ rfl, ?_⟩
  obtain ⟨hs, hgv, hgf⟩ := compiled_made hG hv hf hr herr
  refine ⟨?_, ?_, ?_⟩
  · refine Compiled.forall_blocks (P := fun ss => ∀ st ∈ ss, st.isBreak → r.trace.Strays st) ?_ ?_ ?_ hr
      (fun st hst hb => (hgv.inside st hst hb).resolve_left Bool.false_ne_true)
      (fun st hst hb => (hgf.inside st hst hb).resolve_left Bool.false_ne_true) ?_ ?_
    · exact fun _ h => absurd h List.not_mem_nil
    · exact fun hss hts => List.forall_mem_append.mpr ⟨hss, hts⟩
    · intro v a st hst hb
      rw [List.mem_singleton.mp hst] at hb
      cases hb
    · intro v hv st hst hb
      obtain ⟨id, n, g, -, rfl, hg, -⟩ := hs.past.varyings v hv
      exact (hg.inside st hst hb).resolve_left Bool.false_ne_true
    · intro p hp st hst hb
      obtain ⟨name, body, gb, -, hfunction, c, hc, hbody⟩ := hs.past.functions p hp
      rw [hfunction] at hst
      exact (hbody.inside st hst hb).resolve_left hc
  · intro block hblock index bound inner v term hloop
    rcases compiled_explains hG hv hf hr herr block hblock _ hloop with ⟨_, _, h⟩ | ⟨n, hn, hwrote⟩
    · cases h
    · obtain ⟨id, body, count, start, e, rfl, he, hlast⟩ := hwrote.of_loop hs.coherent hG hn
      exact ⟨id, body, count, start, hn, e, he, hlast⟩
  · rintro id body count start hn index bound inner v term ⟨e, he, hlast⟩ i a b hb
    have hbody : body ∈ G.nodes := G.closed _ hn _ (by simp [Node.children])
    obtain ⟨n, hn', hid, c, hmade⟩ := hs.past.memo _ he
    rcases hmade.placed_body (hG n hn' _ hn hid) hlast i a b hb with ⟨st, hst, hend⟩ | h
    · obtain ⟨x, rfl⟩ := hend.of_breakIf hs.coherent hG (Graph.mem_of_reaches hb hbody)
      exact .inl ⟨x, hst, hend⟩
    · exact .inr h

/-! ## A gate in two loops -/

def weirLevel : Node := .uniform 1 { id := 1, type := .float }

def weirFlow : Node := .builtin 2 .sin [weirLevel]

def weirGate : Node := .breakIf 5 (.operator 4 .gt [weirLevel, .float 3 1]) weirFlow

def weirSum : Node := .sumLoop 8 weirGate (.float 6 3) (.float 7 0)

def weirSpill : Node := .sumLoop 11 (.operator 9 .mult [weirGate, weirLevel]) (.float 10 4) (.float 7 0)

/-- The flow is declared in the loops only. -/
def weirBasin : Node := .operator 12 .add [weirSum, weirSpill]

/-- The flow is declared before the loops. -/
def weirPool : Node := .operator 13 .add [weirFlow, weirSum, weirSpill]

/-- The gate is used after its loop. -/
def weirOverflow : Node := .operator 14 .add [weirSum, weirGate]

def weirCorner : Node := .construct 15 .vec2 [weirLevel]

def weirNodes : List Node :=
  [weirLevel, weirFlow, .float 3 1, .operator 4 .gt [weirLevel, .float 3 1], weirGate, .float 6 3, .float 7 0, weirSum,
    .operator 9 .mult [weirGate, weirLevel], .float 10 4, weirSpill, weirBasin, weirPool, weirOverflow, weirCorner]

def weirGraph : Graph := .ofList weirNodes <| by
  simp [weirNodes, weirLevel, weirFlow, weirGate, weirSum, weirSpill, weirBasin, weirPool, weirOverflow, weirCorner,
    Node.children, Node.operands]

theorem weirGraph_shared : weirGraph.Shared := Graph.shared_ofList (by decide)

def weirJob : Compiled := compiled weirCorner weirBasin true 16

theorem weirJob_ok : (compilePair weirCorner weirBasin {} 16).error? = none := by decide +kernel

/-- Each loop has the break. -/
theorem weirJob_keepsBreaks : weirJob.KeepsBreaks weirGraph ∧ Stmt.block weirJob.fragmentProgram.main =
    "float loopVal3 = 0.0;\nfor (float i4 = 0.0; i4 < 3.0; i4 += 1.0) \x7b\n\tbool gtVal1 = uniform1>1.0;\n\t" ++
    "float sinVal2 = sin(uniform1);\n\tif (gtVal1) break;\n\tloopVal3 += sinVal2;\n\x7d\nfloat loopVal6 = 0.0;\n" ++
    "for (float i7 = 0.0; i7 < 4.0; i7 += 1.0) \x7b\n\tbool gtVal1 = uniform1>1.0;\n\t" ++
    "float sinVal2 = sin(uniform1);\n\tif (gtVal1) break;\n\tfloat multVal5 = sinVal2*uniform1;\n\t" ++
    "loopVal6 += multVal5;\n\x7d\nfloat addVal8 = loopVal3+loopVal6;" := by
  have hr : compiled weirCorner weirBasin ({} : CompileOptions).folding 16 = weirJob := rfl
  have hv : weirCorner ∈ weirNodes := by simp [weirNodes]
  have hf : weirBasin ∈ weirNodes := by simp [weirNodes]
  refine ⟨(breaks_kept_but_for_reuse weirGraph_shared hv hf hr weirJob_ok).2.2, ?_⟩
  decide +kernel

/-! ## A gate that is left open, and one without a loop -/

/-- A loop without a break of its own. -/
def Stmt.lacksBreak : Stmt → Bool
  | .loop _ _ inner _ _ => !inner.any (·.isBreak)
  | _ => false

/-- The statement that the last result of a node ends in. -/
def Session.lastStatement? (s : Session) (id : NodeId) : Option Stmt :=
  (s.memo.lookup id).bind (·.generated.code.stmts.getLast?)

theorem Session.ends_of_lastStatement {s : Session} {id : NodeId} {st : Stmt} (h : s.lastStatement? id = some st) :
    s.Ends id st := by
  obtain ⟨e, he, hst⟩ := Option.bind_eq_some_iff.mp h
  exact ⟨e, mem_of_lookup he, hst⟩

def weirPooled : Compiled := compiled weirCorner weirPool true 16

def weirFlooded : Compiled := compiled weirCorner weirOverflow true 16

/-- In two jobs without errors a loop lacks the break that its body reaches, and a break stands in no loop. -/
theorem breaks_missing_and_strayed :
    weirGraph.Shared ∧ (∀ n ∈ [weirCorner, weirPool, weirOverflow], n ∈ weirGraph.nodes) ∧
    ((compilePair weirCorner weirPool {} 16).error? = none ∧
      (Node.operator 9 .mult [weirGate, weirLevel]).Reaches weirGate ∧
      (∃ st, weirPooled.session.Ends 11 st ∧ st.lacksBreak) ∧ Stmt.block weirPooled.fragmentProgram.main =
        "float sinVal1 = sin(uniform1);\nfloat loopVal3 = 0.0;\nfor (float i4 = 0.0; i4 < 3.0; i4 += 1.0) \x7b\n\t" ++
        "bool gtVal2 = uniform1>1.0;\n\tif (gtVal2) break;\n\tloopVal3 += sinVal1;\n\x7d\nfloat loopVal6 = 0.0;\n" ++
        "for (float i7 = 0.0; i7 < 4.0; i7 += 1.0) \x7b\n\tfloat multVal5 = sinVal1*uniform1;\n\t" ++
        "loopVal6 += multVal5;\n\x7d\nfloat addVal8 = sinVal1+loopVal3+loopVal6;") ∧
    (compilePair weirCorner weirOverflow {} 16).error? = none ∧
      ∃ st ∈ weirFlooded.fragmentProgram.main, st.isBreak := by
  refine ⟨weirGraph_shared, ?_, ⟨?_, .child rfl List.mem_cons_self (.refl _), ?_, ?_⟩, ?_, ?_⟩
  · show ∀ n ∈ _, n ∈ weirNodes
    simp [weirNodes]
  · decide +kernel
  · have h : (weirPooled.session.lastStatement? 11).any (·.lacksBreak) := by decide +kernel
    obtain ⟨st, hst, hlacks⟩ := (Option.any_eq_true ..).mp h
    exact ⟨st, Session.ends_of_lastStatement hst, hlacks⟩
  · decide +kernel
  · decide +kernel
  · exact List.any_eq_true.mp (by decide +kernel)

end ShaderGraph
