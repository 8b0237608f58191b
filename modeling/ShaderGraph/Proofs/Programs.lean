import ShaderGraph.Graph.Job
import ShaderGraph.Proofs.Inheritance

/-!
# Programs of a pair of graphs

What the two stages of a pair are before they are written out, what their code reads, and which
functions they define.
-/

namespace ShaderGraph

open Eval List

variable {e : Expr} {ss : List Stmt} {f : Function} {gs : List Generated} {s : Session} {vertex fragment : Node}
  {nextId : NodeId}

/-! ## Sources -/

/-- What code reads: something that has a name, or the coordinates of the fragment. -/
inductive Source where
  | name (r : String)
  | coordinate
deriving DecidableEq

def Atom.sources (a : Atom) : List Source := a.names.map .name

def Expr.sources : Expr → List Source
  | .coordinate _ => [.coordinate]
  | e => e.names.map .name

def LoopBound.sources : LoopBound → List Source
  | .constant _ => []
  | .upTo a => a.sources

mutual

def Stmt.sources : Stmt → List Source
  | .decl _ _ e => e.sources
  | .breakIf a | .assign _ a => a.sources
  | .loop _ b body v a => b.sources ++ Stmt.allSources body ++ .name v :: a.sources
  | .verbatim _ => []

/-- What statements read, those in the bodies of loops included. -/
def Stmt.allSources : List Stmt → List Source
  | [] => []
  | st :: ss => st.sources ++ Stmt.allSources ss

end

def Function.sources (f : Function) : List Source := Stmt.allSources f.body ++ f.result.sources

theorem Atom.mem_sources {a : Atom} {m : Source} : m ∈ a.sources ↔ ∃ r, m = .name r ∧ a = .name r := by
  cases a <;> simp [Atom.sources, Atom.names]

theorem Expr.mem_sources {m : Source} (h : m ∈ e.sources) :
    (∃ r ∈ e.names, m = .name r) ∨ m = .coordinate ∧ ∃ q, e = .coordinate q := by
  cases e with
  | coordinate q => exact .inr ⟨mem_singleton.mp h, q, rfl⟩
  | _ =>
    obtain ⟨r, hr, rfl⟩ := mem_map.mp h
    exact .inl ⟨r, hr, rfl⟩

theorem Expr.name_mem_sources {r : String} : .name r ∈ e.sources ↔ r ∈ e.names := by
  cases e <;> simp [Expr.sources, Expr.names]

theorem Stmt.mem_allSources {m : Source} : m ∈ allSources ss ↔ ∃ st ∈ ss, m ∈ st.sources := by
  induction ss with
  | nil => simp [allSources]
  | cons st ss ih => simp [allSources, ih]

theorem Stmt.mem_allSources_append {ts : List Stmt} {m : Source} :
    m ∈ allSources (ss ++ ts) ↔ m ∈ allSources ss ∨ m ∈ allSources ts := by
  simp only [mem_allSources, mem_append, or_and_right, exists_or]

theorem Stmt.mem_allSources_flatMap {α : Type} {xs : List α} {f : α → List Stmt} {m : Source} :
    m ∈ allSources (xs.flatMap f) ↔ ∃ x ∈ xs, m ∈ allSources (f x) := by
  induction xs with
  | nil => simp [allSources]
  | cons x xs ih => simp [mem_allSources_append, ih]

/-! ## Functions -/

/-- A function, one that it calls, one that such a one calls, and so on. -/
inductive Function.Below (f : Function) : Function → Prop where
  | refl : Below f f
  | callee {h k : Function} (hk : h ∈ k.functions) (hf : Below f h) : Below f k

mutual

theorem Function.below_of_mem_flatten {fs : List Function} {f : Function} :
    ∀ {g : Function}, f ∈ Function.flatten fs g → f ∈ fs ∨ f.Below g
  | ⟨id, name, returns, params, body, result, uniforms, callees⟩, h => by
    unfold Function.flatten at h
    rcases mem_adjoin h with h | h
    · exact (Function.below_of_mem_flattenAll h).imp_right fun ⟨k, hk, hf⟩ => .callee hk hf
    · exact .inr (mem_singleton.mp h ▸ .refl)

theorem Function.below_of_mem_flattenAll {fs : List Function} {f : Function} :
    ∀ {gs : List Function}, f ∈ Function.flattenAll fs gs → f ∈ fs ∨ ∃ g ∈ gs, f.Below g
  | [], h => .inl h
  | g :: gs, h => by
    unfold Function.flattenAll at h
    rcases Function.below_of_mem_flattenAll h with h | ⟨k, hk, hf⟩
    · rcases Function.below_of_mem_flatten h with h | h
      · exact .inl h
      · exact .inr ⟨g, mem_cons_self, h⟩
    · exact .inr ⟨k, mem_cons_of_mem _ hk, hf⟩

end

/-! ## The function table -/

def Session.Has (s : Session) (f : Function) : Prop := ∃ id, (id, f) ∈ s.functions

/-- The functions that a result refers to are in the table. -/
structure Generated.InTable (s : Session) (g : Generated) : Prop where
  functions : ∀ f ∈ g.functions, s.Has f
  function : ∀ f, g.function = some f → s.Has f

/-- All functions that a session refers to are in its table. -/
structure Session.Tabled (s : Session) : Prop where
  memo : ∀ p ∈ s.memo, p.2.generated.InTable s
  callees : ∀ p ∈ s.functions, ∀ f ∈ p.2.functions, s.Has f
  varyings : ∀ v ∈ s.fragment.varyings, ∀ f ∈ v.functions, s.Has f

section
variable {s1 s' : Session} {c : Scope} {g : Generated}

theorem Session.Has.mono (h : s.Has f) (hg : s.Grows s') : s'.Has f := by
  obtain ⟨id, hf⟩ := h
  exact ⟨id, hg.functions.subset hf⟩

theorem Generated.InTable.mono (h : g.InTable s) (hg : s.Grows s') : g.InTable s' :=
  ⟨fun f hf => (h.functions f hf).mono hg, fun f hf => (h.function f hf).mono hg⟩

theorem Generated.Bare.inTable (h : g.Bare) (s : Session) : g.InTable s where
  functions f hf := by rw [h.functions] at hf; cases hf
  function f hf := by rw [h.function] at hf; cases hf

theorem inTable_gather {type : GlType} {own : List Stmt} {v : Atom} {deps : List Generated} {x : Extras}
    (hdeps : ∀ d ∈ deps, d.InTable s) (hx : ∀ f ∈ x.functions, s.Has f) :
    ((Generated.gather type own v deps).extend x).InTable s where
  functions f hf := by
    rcases mem_adjoin_foldl hf with ⟨d, hd, hf⟩ | hf
    · exact (hdeps d hd).functions f hf
    · exact hx f hf
  function f hf := by cases hf

theorem Session.Tabled.congr (h : s.Tabled) (hg : s.Grows s') (hm : s'.memo = s.memo)
    (hf : s'.functions = s.functions) (hv : s'.fragment.varyings = s.fragment.varyings) : s'.Tabled where
  memo p hp := (h.memo p (hm ▸ hp)).mono hg
  callees p hp f hf' := (h.callees p (hf ▸ hp) f hf').mono hg
  varyings v hv' f hf' := (h.varyings v (hv ▸ hv') f hf').mono hg

theorem Session.Tabled.has_of_below {k : Function} (h : s.Tabled) (hk : s.Has k) (hf : f.Below k) :
    s.Has f := by
  induction hf with
  | refl => exact hk
  | callee hmem _ ih =>
    obtain ⟨id, hk⟩ := hk
    exact ih (h.callees _ hk _ hmem)

def tabled : Judgement := fun _ _ s g s' _ => s.Tabled → g.InTable s' ∧ s'.Tabled

theorem inTable_functionResult (hf : s.Has f) : (Step.functionResult f).InTable s :=
  ⟨fun k hk => mem_singleton.mp hk ▸ hf, fun k hk => by cases hk; exact hf⟩

/-- The trait of referring to functions in the table. -/
def Trait.inTable : Trait where
  node _ := True
  result s g := g.InTable s
  function s f := ∀ k ∈ f.functions, s.Has k
  varying s v := ∀ k ∈ v.functions, s.Has k

theorem Trait.inTable_inherited : Trait.inTable.Inherited where
  child _ _ := trivial
  grows hg h := h.mono hg
  growsFunction hg h k hk := (h k hk).mono hg
  growsVarying hg h k hk := (h k hk).mono hg
  zero := (Generated.bare_float 0).inTable _
  immediate _ hi hr := (Node.step_bare hi hr).1.inTable _
  reference h := { h with }
  form _ hgs _ hfits := by
    refine inTable_gather (fun d hd => hgs d (hfits.deps.subset hd)) fun f hf => ?_
    obtain ⟨d, hd, hdf⟩ := hfits.functions f hf
    exact (hgs d hd).function f hdf
  broken hcond hvalue :=
    inTable_gather (x := {}) (forall_mem_cons.mpr ⟨hcond, forall_mem_singleton.mpr hvalue⟩) fun _ hf => (nomatch hf)
  initial _ _ := trivial
  loop hgi hgb hinit _ _ :=
    inTable_gather (forall_mem_cons.mpr ⟨hinit, forall_mem_singleton.mpr hgi⟩) hgb.functions
  accumulator _ := inTable_gather (fun _ hd => (nomatch hd)) fun _ hf => (nomatch hf)
  define _ hgb := hgb.functions
  function hf _ := inTable_functionResult ⟨_, hf⟩
  varying hg := hg.functions
  passed := (Generated.bare_resource _ ⟨_, .inr (.inr rfl)⟩).inTable _

theorem Session.tabled_iff : s.Tabled ↔ s.Carries .inTable :=
  ⟨fun h => ⟨h.memo, h.callees, h.varyings⟩, fun h => ⟨h.memo, h.functions, h.varyings⟩⟩

theorem tabled_everywhere : tabled.Everywhere :=
  Trait.inTable_inherited.everywhere.mono fun h hs =>
    (h trivial (Session.tabled_iff.mp hs)).imp_right Session.tabled_iff.mpr

end

/-! ## A pair -/

/-- What evaluating the graphs of a pair leaves: the result of each stage, the session and the
trace. -/
structure Compiled where
  vertex : Generated
  fragment : Generated
  session : Session
  trace : Trace

def compiled (vertex fragment : Node) (folding : Bool) (nextId : NodeId) : Compiled :=
  let s : Session := { nextId, folding }
  let r := (vertex.generate .vertexMain).run s
  let q := (fragment.generate .fragmentMain).run r.2
  { vertex := r.1
    fragment := q.1
    session := q.2
    trace := vertex.traceWithin vertex.id .vertexMain s ++
      fragment.traceWithin fragment.id .fragmentMain r.2 }

theorem compiled_eq {M : Judgement} (hM : M.Everywhere) (vertex fragment : Node) (folding : Bool)
    (nextId : NodeId) : ∃ gv gf s1 s2 tv tf,
      compiled vertex fragment folding nextId = ⟨gv, gf, s2, tv ++ tf⟩ ∧
      M vertex .vertexMain { nextId, folding } gv s1 tv ∧ M fragment .fragmentMain s1 gf s2 tf :=
  ⟨_, _, _, _, _, _, rfl, hM.eval vertex.id vertex _ _, hM.eval fragment.id fragment _ _⟩

namespace Compiled

def vertexProgram (r : Compiled) : StageProgram :=
  .ofResult .vertex r.session.vertex r.vertex r.session.fragment.varyings

def fragmentProgram (r : Compiled) : StageProgram :=
  .ofResult .fragment r.session.fragment r.fragment []

end Compiled

theorem Session.errors_of_error? {stage : Stage} (h : s.error? stage = none) :
    (s.registry stage).errors = [] := by
  unfold Session.error? at h
  split at h
  · assumption
  · cases h

theorem errors_compiled {o : CompileOptions} (h : (compilePair vertex fragment o nextId).error? = none)
    (stage : Stage) : ((compiled vertex fragment o.folding nextId).session.registry stage).errors = [] := by
  have hnone : ∀ stage, (compilePair vertex fragment o nextId).session.error? stage = none := by
    unfold Job.error? at h
    split at h
    · next hv hf => intro stage; cases stage <;> assumption
    all_goals cases h
  have herr := Session.errors_of_error? (hnone stage)
  cases stage with
  | vertex => exact (append_eq_nil_iff.mp herr).1
  | fragment => exact (append_eq_nil_iff.mp herr).1

theorem tabled_initial (nextId : NodeId) (folding : Bool) : Session.Tabled { nextId, folding } :=
  ⟨forall_mem_nil _, forall_mem_nil _, forall_mem_nil _⟩

theorem compiled_has {folding : Bool} {r : Compiled} (hr : compiled vertex fragment folding nextId = r)
    (hf : f ∈ r.vertexProgram.functions ++ r.fragmentProgram.functions) : r.session.Has f := by
  obtain ⟨gv, gf, s1, s2, tv, tf, hr', hvertex, hfragment⟩ :=
    compiled_eq (grows_everywhere.both tabled_everywhere) vertex fragment folding nextId
  obtain rfl := hr.symm.trans hr'
  obtain ⟨hgv, hs1⟩ := hvertex.2 (tabled_initial nextId folding)
  obtain ⟨hgf, hs2⟩ := hfragment.2 hs1
  have hall {fs : List Function} (hfs : ∀ k ∈ fs, s2.Has k) (hf : f ∈ Function.flattenAll [] fs) :
      s2.Has f := by
    rcases Function.below_of_mem_flattenAll hf with hf | ⟨k, hk, hb⟩
    · cases hf
    · exact hs2.has_of_below (hfs k hk) hb
  rcases mem_append.mp hf with hf | hf
  · refine hall (fun k hk => ?_) hf
    rcases mem_append.mp hk with hk | hk
    · exact (hgv.functions k hk).mono hfragment.1
    · obtain ⟨v, hv, hk⟩ := mem_flatMap.mp hk
      exact hs2.varyings v hv k hk
  · refine hall (fun k hk => ?_) hf
    rw [flatMap_nil, append_nil] at hk
    exact hgf.functions k hk

end ShaderGraph
