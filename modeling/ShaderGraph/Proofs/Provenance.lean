import ShaderGraph.Proofs.Closure
import ShaderGraph.Proofs.Lineage

/-!
# Where statements come from

The code of a job without errors is made of statements that nodes were given when they were evaluated:
each is the last one of a remembered result, or declares the running sum of a loop.
-/

namespace ShaderGraph

open Eval List

variable {gs : List Generated} {id nextId : NodeId} {inner : List Stmt} {v index : String} {bound : LoopBound}
  {term : Atom} {vertex fragment : Node} {r : Compiled} {G : Graph} {type : GlType} {st : Stmt} {ss ts : List Stmt}

/-! ## Statements in code -/

/-- Is among the statements or in the body of a loop among them. -/
inductive Stmt.Inside (st : Stmt) : List Stmt → Prop where
  | here {ss : List Stmt} (h : st ∈ ss) : Inside st ss
  | body {index : String} {bound : LoopBound} {body ss : List Stmt} {target : String} {term : Atom}
      (h : .loop index bound body target term ∈ ss) (hst : Inside st body) : Inside st ss

namespace Stmt

theorem Inside.mono (h : st.Inside ss) (hsub : ss ⊆ ts) : st.Inside ts := by
  cases h with
  | here h => exact .here (hsub h)
  | body h hst => exact .body (hsub h) hst

theorem inside_append : st.Inside (ss ++ ts) ↔ st.Inside ss ∨ st.Inside ts := by
  constructor
  · rintro (h | ⟨h, hst⟩)
    · exact (mem_append.mp h).imp .here .here
    · exact (mem_append.mp h).imp (.body · hst) (.body · hst)
  · rintro (h | h)
    · exact h.mono (subset_append_left ..)
    · exact h.mono (subset_append_right ..)

theorem Inside.flatMap {α : Type} {xs : List α} {f : α → List Stmt} (h : st.Inside (xs.flatMap f)) :
    ∃ x ∈ xs, st.Inside (f x) := by
  rcases h with h | ⟨h, hst⟩
  · obtain ⟨x, hx, h⟩ := mem_flatMap.mp h
    exact ⟨x, hx, .here h⟩
  · obtain ⟨x, hx, h⟩ := mem_flatMap.mp h
    exact ⟨x, hx, .body h hst⟩

theorem not_inside_nil : ¬ st.Inside [] := by
  rintro (h | ⟨h, -⟩) <;> cases h

theorem Inside.decl {v : String} {e : Expr} (h : st.Inside [.decl type v e]) : st = .decl type v e := by
  rcases h with h | ⟨h, -⟩
  · exact mem_singleton.mp h
  · cases mem_singleton.mp h

end Stmt

/-! ## Statements and nodes -/

/-- The node was given the statement: a remembered result ends in it, or declares the sum of its loop by
it. -/
inductive Session.Wrote (s : Session) (st : Stmt) : Node → Prop where
  | last {n : Node} {e : MemoEntry} (he : (n.id, e) ∈ s.memo) (hst : e.generated.code.stmts.getLast? = some st) :
      Wrote s st n
  | sum {id : NodeId} {body count start : Node} {e : MemoEntry} {ss inner : List Stmt} {type : GlType}
      {v index : String} {x : Expr} {bound : LoopBound} {term : Atom} (he : (id, e) ∈ s.memo)
      (hcode : e.generated.code.stmts = ss ++ [.decl type v x, .loop index bound inner v term])
      (hst : st = .decl type v x) : Wrote s st (.sumLoop id body count start)

/-- All statements of the code were given to nodes. -/
def Session.Explains (G : Graph) (s : Session) (ss : List Stmt) : Prop :=
  ∀ st : Stmt, st.Inside ss → ∃ n ∈ G.nodes, s.Wrote st n

section
variable {s : Session} {T : Trace} {c : Scope} {n : Node} {g : Generated} {e : MemoEntry}

theorem Session.explains_nil : s.Explains G [] := fun _ h => absurd h Stmt.not_inside_nil

theorem Session.explains_append (hss : s.Explains G ss) (hts : s.Explains G ts) : s.Explains G (ss ++ ts) :=
  fun st hst => (Stmt.inside_append.mp hst).elim (hss st) (hts st)

theorem Session.explains_flatMap (h : ∀ g ∈ gs, s.Explains G g.code.stmts) :
    s.Explains G (gs.flatMap (·.code.stmts)) := by
  intro st hst
  obtain ⟨g, hg, hst⟩ := hst.flatMap
  exact h g hg st hst

theorem Session.explains_concat (hn : n ∈ G.nodes) (he : (n.id, e) ∈ s.memo) (hss : s.Explains G ss)
    (hcode : e.generated.code.stmts = ss ++ [st]) (hst : ∀ i b inner v a, st ≠ .loop i b inner v a) :
    s.Explains G (ss ++ [st]) := by
  refine explains_append hss fun st' hst' => ?_
  rcases hst' with hst' | ⟨hloop, -⟩
  · rw [mem_singleton.mp hst']
    exact ⟨n, hn, .last he (by rw [hcode, getLast?_concat])⟩
  · exact absurd (mem_singleton.mp hloop).symm (hst _ _ _ _ _)

theorem Session.explains_loop {body count start : Node} {x : Expr} (hn : .sumLoop id body count start ∈ G.nodes)
    (he : (id, e) ∈ s.memo) (hss : s.Explains G ss) (hinner : s.Explains G inner)
    (hcode : e.generated.code.stmts = ss ++ [.decl type v x, .loop index bound inner v term]) :
    s.Explains G (ss ++ [.decl type v x, .loop index bound inner v term]) := by
  refine explains_append hss fun st hst => ?_
  rcases hst with hst | ⟨hloop, hst⟩
  · rcases mem_pair.mp hst with rfl | rfl
    · exact ⟨_, hn, .sum he hcode rfl⟩
    · exact ⟨_, hn, .last he (by rw [hcode, append_cons, getLast?_concat])⟩
  · rcases mem_pair.mp hloop with heq | heq
    · cases heq
    · cases heq
      exact hinner st hst

/-- The code of every result is explained. -/
theorem Session.Made.explains (h : s.Made G T c n g) : s.Explains G g.code.stmts := by
  induction h with
  | immediate hi hr => exact (Node.step_bare hi hr).1.code ▸ explains_nil
  | taken _ _ ih => exact ih
  | reference | function | varying => exact explains_nil
  | declared hn _ hlen _ _ hfits he hg ih =>
    have hgs := forall_mem_of_zip (P := fun g => s.Explains G g.code.stmts) hlen ih
    exact explains_concat hn he (explains_flatMap fun d hd => hgs d (hfits.deps.subset hd)) (by rw [hg]; rfl)
      (fun _ _ _ _ _ h => by cases h)
  | broken _ hn _ _ he hg iha ihb =>
    have hdeps := explains_flatMap (forall_mem_cons.mpr ⟨iha, forall_mem_singleton.mpr ihb⟩)
    exact explains_concat hn he hdeps (by rw [hg]; rfl) (fun _ _ _ _ _ h => by cases h)
  | @loop _ _ _ _ _ _ _ gi gb gm _ _ bind k _ hn _ _ hopens _ he hg ihi ihb ihm =>
    have hdeps : s.Explains G ([(bind gm).initial, gi].flatMap (·.code.stmts)) :=
      explains_flatMap (forall_mem_cons.mpr ⟨hopens.initial.symm ▸ ihm, forall_mem_singleton.mpr ihi⟩)
    exact explains_loop hn he hdeps ihb (by rw [hg]; rfl)
  | accumulator hn he hg =>
    exact explains_concat hn he explains_nil (by rw [hg]; rfl) (fun _ _ _ _ _ h => by cases h)

theorem Session.Wrote.of_loop (h : s.Wrote (.loop index bound inner v term) n) (hs : s.Coherent G)
    (hG : G.Shared) (hn : n ∈ G.nodes) :
    ∃ id body count start e, n = .sumLoop id body count start ∧ (id, e) ∈ s.memo ∧
      e.generated.code.stmts.getLast? = some (.loop index bound inner v term) := by
  cases h with
  | sum _ _ hst => cases hst
  | @last _ e he hst =>
    obtain ⟨m, hm, -, hid, hd⟩ := hs.derived _ he
    obtain rfl := hG m hm n hn hid
    have hlast {ss : List Stmt} {st : Stmt} (hcode : e.generated.code.stmts = ss ++ [st]) :
        st = .loop index bound inner v term := by
      rw [hcode, getLast?_concat] at hst
      exact Option.some.inj hst
    generalize hr : e.generated = r at hd
    cases hd with
    | declared | accumulator | broken => cases hlast (by rw [hr]; rfl)
    | loop => exact ⟨_, _, _, _, e, rfl, he, hst⟩

end

/-! ## The blocks of a job -/

/-- The statements of the mains and of the bodies of the functions that the sources of a job hold. -/
def Compiled.blocks (r : Compiled) : List (List Stmt) :=
  r.vertexProgram.statements r.vertex.var :: r.fragmentProgram.statements r.fragment.var ::
    (r.vertexProgram.functions ++ r.fragmentProgram.functions).map (·.statements)

theorem Compiled.forall_blocks_of {P : List Stmt → Prop} {A : Atom → Prop} (hnil : P [])
    (happend : ∀ {ss ts}, P ss → P ts → P (ss ++ ts)) (hassign : ∀ v a, A a → P [.assign v a])
    {folding : Bool}
    (hr : compiled vertex fragment folding nextId = r) (hvertex : P r.vertex.code.stmts ∧ A r.vertex.var)
    (hfragment : P r.fragment.code.stmts ∧ A r.fragment.var)
    (hvaryings : ∀ v ∈ r.session.fragment.varyings, P v.code ∧ A v.source)
    (hfunctions : ∀ p ∈ r.session.functions, P p.2.body ∧ A p.2.result) : ∀ block ∈ r.blocks, P block := by
  have hflatMap {vs : List VaryingDef} (h : ∀ v ∈ vs, P v.code ∧ A v.source) : P (vs.flatMap (·.statements)) := by
    induction vs with
    | nil => exact hnil
    | cons v vs ih =>
      obtain ⟨hv, hvs⟩ := forall_mem_cons.mp h
      exact happend (happend hv.1 (hassign _ _ hv.2)) (ih hvs)
  intro block hblock
  rcases mem_cons.mp hblock with rfl | hblock
  · exact happend hvertex.1 (happend (hassign _ _ hvertex.2) (hflatMap hvaryings))
  rcases mem_cons.mp hblock with rfl | hblock
  · exact happend hfragment.1 (happend (hassign _ _ hfragment.2) hnil)
  · obtain ⟨f, hf, rfl⟩ := mem_map.mp hblock
    obtain ⟨id, hf⟩ := compiled_has hr hf
    exact happend (hfunctions _ hf).1 (hassign _ _ (hfunctions _ hf).2)

theorem Compiled.forall_blocks {P : List Stmt → Prop} (hnil : P [])
    (happend : ∀ {ss ts}, P ss → P ts → P (ss ++ ts)) (hassign : ∀ v a, P [.assign v a]) {folding : Bool}
    (hr : compiled vertex fragment folding nextId = r) (hvertex : P r.vertex.code.stmts)
    (hfragment : P r.fragment.code.stmts) (hvaryings : ∀ v ∈ r.session.fragment.varyings, P v.code)
    (hfunctions : ∀ p ∈ r.session.functions, P p.2.body) : ∀ block ∈ r.blocks, P block := by
  have htrue {P : Prop} (h : P) : P ∧ True := ⟨h, trivial⟩
  exact forall_blocks_of (A := fun _ => True) hnil happend (fun v a _ => hassign v a) hr (htrue hvertex)
    (htrue hfragment) (fun v hv => htrue (hvaryings v hv)) fun p hp => htrue (hfunctions p hp)

variable {o : CompileOptions} (hG : G.Shared) (hv : vertex ∈ G.nodes) (hf : fragment ∈ G.nodes)
  (hr : compiled vertex fragment o.folding nextId = r) (herr : (compilePair vertex fragment o nextId).error? = none)
include hG hv hf hr herr

/-- What holds of the code of everything made holds of the blocks of a job without errors. -/
theorem compiled_blocks_of_made {P : List Stmt → Prop} (hnil : P [])
    (happend : ∀ {ss ts}, P ss → P ts → P (ss ++ ts)) (hassign : ∀ v a, P [.assign v a])
    (hmade : ∀ c n g, r.session.Made G r.trace c n g → P g.code.stmts) : ∀ block ∈ r.blocks, P block := by
  obtain ⟨hs, hgv, hgf⟩ := compiled_made hG hv hf hr herr
  refine Compiled.forall_blocks hnil happend hassign hr (hmade _ _ _ hgv) (hmade _ _ _ hgf) (fun w hw => ?_) fun p hp => ?_
  · obtain ⟨id, n, g, -, rfl, hg, -⟩ := hs.past.varyings w hw
    exact hmade _ n g hg
  · obtain ⟨name, body, gb, -, hfunction, c, -, hb⟩ := hs.past.functions p hp
    rw [hfunction]
    exact hmade c body gb hb

/-- In a job without errors every statement was given to a node, the assignments of results apart. -/
theorem compiled_explains :
    ∀ block ∈ r.blocks, ∀ st : Stmt, st.Inside block →
      (∃ v a, st = .assign v a) ∨ ∃ n ∈ G.nodes, r.session.Wrote st n := by
  refine compiled_blocks_of_made hG hv hf hr herr ?_ ?_ ?_ fun _ _ _ hg st hst => .inr (hg.explains st hst)
  · exact fun _ h => absurd h Stmt.not_inside_nil
  · exact fun hss hts st hst => (Stmt.inside_append.mp hst).elim (hss st) (hts st)
  · rintro v a st (hst | ⟨hst, -⟩)
    · exact .inl ⟨v, a, mem_singleton.mp hst⟩
    · cases mem_singleton.mp hst

end ShaderGraph
