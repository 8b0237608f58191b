import ShaderGraph.Proofs.Provenance

/-!
# Names in nested blocks

A name is free in code if it is read where it is not declared before, in the same block or in one
around it. Loops evaluate their count, their body and their initial value in this order and in two
scopes, but place the initial value first and the body last and deeper; and scopes take over results
of other scopes. In a job of loops and plain nodes, without errors, this accounts for all that is free
in the main of the fragment stage, but for resources.
-/

namespace ShaderGraph

open Eval List

variable {v r : String} {vs : List String} {id : NodeId} {U : String → Prop} {deps gs : List Generated}
  {own ss ts : List Stmt} {s2 : Session}

/-! ## Free names -/

def LoopBound.names : LoopBound → List String
  | .constant _ => []
  | .upTo a => a.names

mutual

/-- The names that a statement reads and does not declare itself. -/
def Stmt.free : Stmt → List String
  | .decl _ _ e => e.names
  | .breakIf a | .assign _ a => a.names
  | .loop i b body v a =>
    b.names ++ (Stmt.allFree body ++ (v :: a.names).filter (· ∉ ShaderGraph.declares body)).filter (· ≠ i)
  | .verbatim _ => []

/-- The names that statements read without a declaration before. -/
def Stmt.allFree : List Stmt → List String
  | [] => []
  | st :: ss => st.free ++ (Stmt.allFree ss).filter (· ∉ st.declares)

end

section
variable {st : Stmt}

theorem mem_allFree_cons : r ∈ Stmt.allFree (st :: ss) ↔ r ∈ st.free ∨ r ∈ Stmt.allFree ss ∧ r ∉ st.declares := by
  simp [Stmt.allFree]

theorem mem_allFree_append :
    r ∈ Stmt.allFree (ss ++ ts) ↔ r ∈ Stmt.allFree ss ∨ r ∈ Stmt.allFree ts ∧ r ∉ declares ss := by
  induction ss with
  | nil => simp [Stmt.allFree, declares]
  | cons st ss ih =>
    rw [cons_append, mem_allFree_cons, mem_allFree_cons, ih, declares_cons, mem_append, not_or]
    tauto

theorem mem_free_loop {i : String} {b : LoopBound} {body : List Stmt} {a : Atom} :
    r ∈ (Stmt.loop i b body v a).free ↔
      r ∈ b.names ∨ (r ∈ Stmt.allFree body ∨ (r = v ∨ a = .name r) ∧ r ∉ declares body) ∧ r ≠ i := by
  simp [Stmt.free, Atom.mem_names, or_and_right, and_right_comm, and_assoc]

end

/-! ## Graphs of loops and plain nodes -/

/-- Neither a function or what belongs to one, nor a break, a running sum or a varying. -/
def Node.isLocal : Node → Bool
  | .breakIf .. | .accumulator .. | .defun .. | .call .. | .argument .. | .varying .. => false
  | _ => true

structure Graph.Local (G : Graph) : Prop where
  shared : G.Shared
  nodes : ∀ n ∈ G.nodes, n.isLocal

/-! ## What is misplaced -/

/-- What a scope counts as declared when it takes over a result. -/
def Generated.claimed (g : Generated) (c : Scope) : List (ScopeId × String) :=
  ((g.declared ++ [g.var.text]).filter (· ≠ "")).map (c.id, ·)

/-- How a variable is read without a declaration. -/
inductive Session.Misplaces (G : Graph) (s : Session) (t : Trace) (r : String) : Prop where
  /-- A result is taken over. Its code reads the variable without a declaration, or it lists the variable
  as declared and it is not; and the scope does not see it. -/
  | taken {c : Scope} {g : Generated} {before after : List (ScopeId × String)} (ht : .taken c g ∈ t)
      (hcode : ¬ g.isReference)
      (hr : r ∈ Stmt.allFree g.code.stmts ∨ r ∈ g.declared ∧ r ∉ declares g.code.stmts)
      (hs : s.emitted = after ++ (g.claimed c ++ before)) (hunseen : ∀ i ∈ c.visible, (i, r) ∉ before)
  /-- The initial value of a loop reads the variable, and the count, which is placed after it, declares
  it. -/
  | displaced {id : NodeId} {body count start : Node} {e : MemoEntry} {first second : List Stmt} {type : GlType}
      {v index : String} {x : Expr} {bound : LoopBound} {inner : List Stmt} {term : Atom}
      (hn : .sumLoop id body count start ∈ G.nodes) (he : (id, e) ∈ s.memo)
      (hcode : e.generated.code.stmts = first ++ second ++ [.decl type v x, .loop index bound inner v term])
      (hfirst : r ∈ Stmt.allFree first) (hsecond : r ∈ declares second)

section
variable {G : Graph} {s s1 s' : Session} {t t' : Trace} {c : Scope} {g : Generated}

/-- Resources are not declared in code, and what is misplaced is not declared before. -/
def Session.Exempts (G : Graph) (s : Session) (t : Trace) (r : String) : Prop := IsResource r ∨ s.Misplaces G t r

/-! ## What a scope is given -/

/-- A scope of the session, and those that it sees. -/
structure Scope.Sits (c : Scope) (s : Session) : Prop where
  mem : c.id ∈ c.visible
  lt : ∀ i ∈ c.visible, i < s.nextScope

theorem Scope.Sits.mono (h : c.Sits s) (hg : s.Grows s') : c.Sits s' :=
  { h with lt := fun i hi => (h.lt i hi).trans_le hg.nextScope }

/-- Between two sessions a scope is given statements: what is free in them is visible before, and what is
marked is declared by them, unless it is in `U`. Scopes that exist already are left alone. -/
structure Gives (U : String → Prop) (c : Scope) (s : Session) (ss : List Stmt) (s' : Session) : Prop where
  free : ∀ r ∈ Stmt.allFree ss, s.isEmitted c r ∨ U r
  marked : ∀ v, (c.id, v) ∈ s'.emitted → (c.id, v) ∈ s.emitted ∨ v ∈ declares ss ∨ U v
  others : ∀ p ∈ s'.emitted, p ∈ s.emitted ∨ p.1 = c.id ∨ s.nextScope ≤ p.1

namespace Gives

theorem nil (ha : s.Advance c vs s') (hvs : ∀ v ∈ vs, U v) : Gives U c s [] s' where
  free _ hr := absurd hr not_mem_nil
  marked v hv := (ha.of_mem_emitted hv).imp_right fun ⟨_, h⟩ => .inr (hvs v h)
  others _ hp := (ha.of_mem_emitted hp).imp_right fun ⟨h, _⟩ => .inl h

theorem visible (h : Gives U c s ss s') (hc : c.Sits s) (hr : s'.isEmitted c r) :
    s.isEmitted c r ∨ r ∈ declares ss ∨ U r := by
  obtain ⟨i, hi, hm⟩ := Session.isEmitted_iff.mp hr
  rcases h.others _ hm with hm | hid | hle
  · exact .inl (Session.isEmitted_iff.mpr ⟨i, hi, hm⟩)
  · obtain rfl : i = c.id := hid
    exact (h.marked r hm).imp_left fun hm => Session.isEmitted_iff.mpr ⟨_, hi, hm⟩
  · exact absurd (hc.lt i hi) (Nat.not_lt.mpr hle)

theorem free_append (h : Gives U c s ss s1) (hc : c.Sits s)
    (hts : ∀ r ∈ Stmt.allFree ts, s1.isEmitted c r ∨ U r) :
    ∀ r ∈ Stmt.allFree (ss ++ ts), s.isEmitted c r ∨ U r := by
  intro r hr
  rcases mem_allFree_append.mp hr with hr | ⟨hr, hd⟩
  · exact h.free r hr
  · rcases hts r hr with hr | hr
    · exact (h.visible hc hr).imp_right fun h => h.resolve_left hd
    · exact .inr hr

theorem trans (h : Gives U c s ss s1) (h' : Gives U c s1 ts s') (hc : c.Sits s) (hg : s.Grows s1) :
    Gives U c s (ss ++ ts) s' where
  free := h.free_append hc h'.free
  marked v hv := by
    rw [declares_append, mem_append]
    rcases h'.marked v hv with hv | hv | hv
    · exact (h.marked v hv).imp_right fun h => h.imp_left .inl
    · exact .inr (.inl (.inr hv))
    · exact .inr (.inr hv)
  others p hp := by
    rcases h'.others p hp with hp | hp | hp
    · exact h.others p hp
    · exact .inr (.inl hp)
    · exact .inr (.inr (hg.nextScope.trans hp))

end Gives

/-! ## Sessions and results -/

/-- Marks belong to scopes of the session. A remembered result declares its variable, which is marked in
the scope that it comes from. -/
structure Session.Anchored (s : Session) : Prop where
  scopes : ∀ p ∈ s.emitted, p.1 < s.nextScope
  memo : ∀ p ∈ s.memo, ∃ r, p.2.generated.var = .name r ∧ r ≠ "" ∧ r ∈ declares p.2.generated.code.stmts ∧
    (p.2.scope, r) ∈ s.emitted

namespace Session.Anchored

theorem advance (h : s.Anchored) (hc : c.Sits s) (ha : s.Advance c vs s') : s'.Anchored where
  scopes p hp := by
    rw [ha.nextScope]
    rcases ha.of_mem_emitted hp with hp | ⟨hp, -⟩
    · exact h.scopes p hp
    · exact hp ▸ hc.lt _ hc.mem
  memo p hp := by
    rw [ha.memo] at hp
    obtain ⟨r, hr, hne, hd, hm⟩ := h.memo p hp
    exact ⟨r, hr, hne, hd, ha.grows.emitted.subset hm⟩

theorem openScope (h : s.Anchored) : s.openScope.Anchored where
  scopes p hp := Nat.lt_succ_of_lt (h.scopes p hp)
  memo := h.memo

theorem remember (h : s.Anchored) (hr : g.var = .name r) (hne : r ≠ "") (hd : r ∈ declares g.code.stmts)
    (hm : (c.id, r) ∈ s.emitted) : (s.remember c id g).Anchored where
  scopes := h.scopes
  memo := forall_mem_cons.mpr ⟨⟨r, hr, hne, hd, hm⟩, h.memo⟩

end Session.Anchored

/-- The variable of a result is visible, and declared by the result unless it is a reference. -/
structure Generated.Seen (U : String → Prop) (g : Generated) (c : Scope) (s : Session) : Prop where
  var : ∀ r, g.var = .name r → s.isEmitted c r ∨ U r
  named : ¬ g.isReference → ∃ r, g.var = .name r ∧ (r ∈ declares g.code.stmts ∨ U r)

theorem Generated.Seen.mono (h : g.Seen U c s) (hg : s.Grows s') : g.Seen U c s' :=
  { h with var := fun r hr => (h.var r hr).imp_left (Session.isEmitted_mono hg.emitted.subset) }

structure Reveals (U : String → Prop) (c : Scope) (s : Session) (g : Generated) (s' : Session) : Prop where
  anchored : s'.Anchored
  seen : g.Seen U c s'
  gives : Gives U c s g.code.stmts s'

/-- What is exempt is so in the end, where the session is `S` and the trace `T`. -/
def reveals (G : Graph) (S : Session) (T : Trace) : Judgement := fun _ c s g s' t =>
  s'.Grows S → t ⊆ T → c.Sits s → s.Anchored → Reveals (S.Exempts G T) c s g s'

variable {S : Session} {T : Trace}

theorem reveals_takes (hS : s'.Grows S) (hT : .taken c g ∈ T) (hc : c.Sits s) (hs : s.Anchored)
    (ht : s.Takes c id g s') : Reveals (S.Exempts G T) c s g s' := by
  cases ht with
  | @reference e he hv =>
    obtain ⟨r, hr, -⟩ := hs.memo _ (mem_of_lookup he)
    rw [hr] at hv
    refine ⟨hs, ⟨fun q hq => .inl ?_, fun h => absurd rfl h⟩, .nil (.refl c s) fun _ h => absurd h not_mem_nil⟩
    cases hr.symm.trans hq
    exact hv
  | @again e he hv hscope =>
    obtain ⟨r, hr, -, -, hm⟩ := hs.memo _ (mem_of_lookup he)
    rw [hr] at hv
    exact absurd (Session.isEmitted_iff.mpr ⟨_, hc.mem, hscope ▸ hm⟩) hv
  | @whole e he hv hscope hd =>
    obtain ⟨r, hr, hne, hdecl, -⟩ := hs.memo _ (mem_of_lookup he)
    have ha := Session.Advance.take s c e.generated
    obtain ⟨after, hafter⟩ := hS.emitted
    have hcode : ¬ e.generated.isReference := by
      intro href
      cases hcode : e.generated.code with
      | reference =>
        rw [hcode] at hdecl
        exact absurd hdecl not_mem_nil
      | statements => simp [Generated.isReference, hcode, Code.isReference] at href
    have hmisplaces {q : String} (hq : ¬ s.isEmitted c q) (hread : q ∈ Stmt.allFree e.generated.code.stmts ∨
        q ∈ e.generated.declared ∧ q ∉ declares e.generated.code.stmts) : S.Exempts G T q :=
      .inr (.taken hT hcode hread (hafter.symm.trans (congrArg (after ++ ·) ha.emitted)) fun i hi hm =>
        hq (Session.isEmitted_iff.mpr ⟨i, hi, hm⟩))
    refine ⟨hs.advance hc ha, ⟨fun q hq => .inl ?_, fun _ => ⟨r, hr, .inl hdecl⟩⟩, fun q hq => ?_, fun v hv => ?_,
      fun p hp => (ha.of_mem_emitted hp).imp_right fun h => .inl h.1⟩
    · refine Session.isEmitted_iff.mpr ⟨_, hc.mem, ha.mem_emitted (mem_append_right _ ?_) ?_⟩
      · rw [hq]
        exact mem_cons_self
      · cases hr.symm.trans hq
        exact hne
    · exact or_iff_not_imp_left.mpr fun hseen => hmisplaces hseen (.inl hq)
    · rcases ha.of_mem_emitted hv with hv | ⟨-, hv⟩
      · exact .inl hv
      · by_cases hdv : v ∈ declares e.generated.code.stmts
        · exact .inr (.inl hdv)
        · rcases mem_append.mp hv with hv | hv
          · exact .inr (.inr (hmisplaces (hd v hv) (.inr ⟨hv, hdv⟩)))
          · have hv : v = e.generated.var.text := mem_singleton.mp hv
            rw [hv, hr] at hdv
            exact absurd hdecl hdv

theorem reveals_threads {ns : List Node} (h : Threads ((reveals G S T).properly G) c ns s gs s' t) (hS : s'.Grows S)
    (hT : t ⊆ T) (hc : c.Sits s) (hs : s.Anchored) :
    s'.Anchored ∧ (∀ g ∈ gs, g.Seen (S.Exempts G T) c s') ∧
      Gives (S.Exempts G T) c s (gs.flatMap (·.code.stmts)) s' := by
  induction h with
  | nil => exact ⟨hs, fun _ hg => absurd hg not_mem_nil, .nil (.refl c _) fun _ h => absurd h not_mem_nil⟩
  | cons hn hrest ih =>
    obtain ⟨hT1, hT2⟩ := append_subset.mp hT
    have h1 := hn.2 (hrest.grows.trans hS) hT1 hc hs
    obtain ⟨hs2, hgs, hgives⟩ := ih hS hT2 (hc.mono hn.1.grows) h1.anchored
    exact ⟨hs2, forall_mem_cons.mpr ⟨h1.seen.mono hrest.grows, hgs⟩, h1.gives.trans hgives hc hn.1.grows⟩

theorem Form.Fits.deps_eq {φ : Form} {n : Node} (h : φ.Fits n c gs) (hG : G.Local) (hgs : ∀ g ∈ gs, g.From G) :
    φ.deps = gs := by
  obtain ⟨rest, hrest⟩ := h.deps
  cases rest with
  | nil => rw [← hrest, append_nil]
  | cons d rest =>
    obtain ⟨f, -, hf⟩ := h.rest _ hrest.symm d mem_cons_self
    obtain ⟨⟨id, body, hn⟩, -⟩ := (hgs d (hrest ▸ mem_append_right _ mem_cons_self)).function f hf
    exact absurd (hG.nodes _ hn) Bool.false_ne_true

/-! ## Loops -/

theorem Scope.Sits.loopBody (h : c.Sits s) : (c.loopBody s.nextScope).Sits s.openScope where
  mem := mem_cons_self
  lt := forall_mem_cons.mpr ⟨Nat.lt_succ_self _, fun i hi => Nat.lt_succ_of_lt (h.lt i hi)⟩

theorem Session.Anchored.isEmitted_of_loopBody (h : s.Anchored)
    (hr : s.openScope.isEmitted (c.loopBody s.nextScope) r) : s.isEmitted c r := by
  obtain ⟨i, hi, hm⟩ := Session.isEmitted_iff.mp hr
  rcases mem_cons.mp hi with rfl | hi
  · exact absurd (h.scopes _ hm) (Nat.lt_irrefl _)
  · exact Session.isEmitted_iff.mpr ⟨i, hi, hm⟩

theorem Gives.of_loopBody (h : Gives U (c.loopBody s.nextScope) s.openScope ss s1) :
    ∀ p ∈ s1.emitted, p ∈ s.emitted ∨ s.nextScope ≤ p.1 := by
  intro p hp
  rcases h.others p hp with hp | hid | hle
  · exact .inl hp
  · exact .inr (Nat.le_of_eq hid.symm)
  · exact .inr (Nat.le_of_succ_le hle)

theorem Scope.Sits.isEmitted_of_new (hc : c.Sits s) (hnew : ∀ p ∈ s1.emitted, p ∈ s.emitted ∨ s.nextScope ≤ p.1)
    (hr : s1.isEmitted c r) : s.isEmitted c r := by
  obtain ⟨i, hi, hm⟩ := Session.isEmitted_iff.mp hr
  exact Session.isEmitted_iff.mpr ⟨i, hi, (hnew _ hm).resolve_right (Nat.not_le.mpr (hc.lt i hi))⟩

/-- What is given later is placed first. It may read what is declared after it. -/
theorem Gives.displace (h : Gives U c s ss s1) (h' : Gives U c s2 ts s')
    (hnew : ∀ p ∈ s2.emitted, p ∈ s1.emitted ∨ s1.nextScope ≤ p.1) (hc : c.Sits s) (hg : s.Grows s1)
    (hg' : s1.Grows s2) (hU : ∀ r ∈ Stmt.allFree ts, r ∈ declares ss → U r) : Gives U c s (ts ++ ss) s' where
  free r hr := by
    rcases mem_allFree_append.mp hr with hr | ⟨hr, -⟩
    · rcases h'.free r hr with hseen | hfault
      · exact (h.visible hc ((hc.mono hg).isEmitted_of_new hnew hseen)).imp_right fun h => h.elim (hU r hr) id
      · exact .inr hfault
    · exact h.free r hr
  marked v hv := by
    rw [declares_append, mem_append]
    rcases h'.marked v hv with hv | hv | hv
    · have hlt := (hc.lt _ hc.mem).trans_le hg.nextScope
      exact (h.marked v ((hnew _ hv).resolve_right (Nat.not_le.mpr hlt))).imp_right fun h => h.imp_left .inr
    · exact .inr (.inl (.inl hv))
    · exact .inr (.inr hv)
  others p hp := by
    rcases h'.others p hp with hp | hp | hp
    · exact (hnew p hp).elim (h.others p) fun hp => .inr (.inr (hg.nextScope.trans hp))
    · exact .inr (.inl hp)
    · exact .inr (.inr (Nat.le_trans (hg.trans hg').nextScope hp))

theorem free_loopStatements {gi gb gm : Generated} {b : Step.Binding} {k : Nat} {s3 : Session}
    (hinit : b.initial = gm) (hm : gm.Seen U c s') (hi : gi.Seen U c s')
    (hbody : Gives U (c.loopBody s2.nextScope) s2.openScope gb.code.stmts s3)
    (hb : gb.Seen U (c.loopBody s2.nextScope) s3) (hs2 : s2.Anchored) (hc : c.Sits s2)
    (hsub : s2.emitted ⊆ s'.emitted) :
    ∀ r ∈ Stmt.allFree (Step.loopStatements gi gb b k), s'.isEmitted c r ∨ U r := by
  subst hinit
  intro r hr
  have houter (h : s2.openScope.isEmitted (c.loopBody s2.nextScope) r) : s'.isEmitted c r :=
    Session.isEmitted_mono hsub (hs2.isEmitted_of_loopBody h)
  rcases mem_allFree_cons.mp hr with hr | ⟨hr, hv⟩
  · have hr : r ∈ b.initial.var.names := Step.names_castOf .. ▸ hr
    exact hm.var r (Atom.mem_names.mp hr)
  · rcases mem_allFree_cons.mp hr with hr | ⟨hr, -⟩
    · rcases mem_free_loop.mp hr with hr | ⟨hr | ⟨hr | hr, hd⟩, -⟩
      · have hr : gi.var = .name r := by
          cases hconst : gi.constant with
          | some x => simp [hconst, LoopBound.names] at hr
          | none => simpa [hconst, LoopBound.names, Atom.mem_names] using hr
        exact hi.var r hr
      · exact (hbody.free r hr).imp_left houter
      · exact absurd (mem_singleton.mpr hr) hv
      · rcases hb.var r hr with hr | hr
        · exact (hbody.visible hc.loopBody hr).imp houter fun h => h.resolve_left hd
        · exact .inr hr
    · exact absurd hr not_mem_nil

theorem Graph.Local.opens {body : Generated} {start m : Node} {bind : Generated → Step.Binding} (hG : G.Local)
    (hb : body.From G) (h : Opens body start s m s' bind) (gm : Generated) : Numbered s.counter (bind gm).var := by
  cases h with
  | @accumulated a rest h =>
    obtain ⟨id, name, k, hn, -⟩ := hb.accumulators a (h ▸ mem_cons_self)
    exact absurd (hG.nodes _ hn) Bool.false_ne_true
  | @parameter a _ ha =>
    exact absurd (hG.nodes _ (hb.arguments a (Step.mem_of_lowestArgument ha))) Bool.false_ne_true
  | own => exact ⟨"loopVal", isBase_val "loop", rfl⟩

section
variable (h : Gives U c s ss s1) (hc : c.Sits s) (ha : s1.Advance c (marks deps (.name v)) s')
  (hdeps : ∀ d ∈ deps, d.Seen U c s1 ∧ declares d.code.stmts ⊆ declares ss)
  (hfree : ∀ r ∈ Stmt.allFree own, s1.isEmitted c r ∨ U r) (hv : v ∈ declares own)
include h hc ha hdeps hfree hv

/-- A declaration after the code of its operands: it reads what is visible by then, and the variables of the
operands are marked with its own. -/
theorem Gives.declare : Gives U c s (ss ++ own) s' where
  free := h.free_append hc hfree
  marked w hw := by
    rw [declares_append, mem_append]
    rcases ha.of_mem_emitted hw with hw | ⟨-, hw⟩
    · exact (h.marked w hw).imp_right fun h => h.imp_left .inl
    · rcases mem_append.mp hw with hw | hw
      · obtain ⟨d, hd, rfl⟩ := mem_map.mp hw
        obtain ⟨hd, href⟩ := mem_filter.mp hd
        obtain ⟨r, hr, hdecl⟩ := (hdeps d hd).1.named (by simpa using href)
        rw [hr]
        exact .inr (hdecl.imp_left fun h => .inl ((hdeps d hd).2 h))
      · obtain rfl : w = v := mem_singleton.mp hw
        exact .inr (.inl (.inr hv))
  others p hp := by
    rcases ha.of_mem_emitted hp with hp | ⟨hp, -⟩
    · exact h.others p hp
    · exact .inr (.inl hp)

theorem reveals_remember (hg : s.Grows s1) (hs1 : s1.Anchored) (hne : v ≠ "") (hvar : g.var = .name v)
    (hcode : g.code.stmts = ss ++ own) : Reveals U c s g (s'.remember c id g) := by
  have hmark : (c.id, v) ∈ s'.emitted := ha.mem_emitted mem_concat_self hne
  have hdecl : v ∈ declares g.code.stmts := by
    rw [hcode, declares_append]
    exact mem_append_right _ hv
  have hgives := h.declare hc ha hdeps hfree hv
  rw [← hcode] at hgives
  refine ⟨(hs1.advance (hc.mono hg) ha).remember hvar hne hdecl hmark, ⟨fun r hr => ?_, fun _ => ⟨v, hvar, .inl hdecl⟩⟩,
    ⟨hgives.free, hgives.marked, hgives.others⟩⟩
  cases hvar.symm.trans hr
  exact .inl (Session.isEmitted_iff.mpr ⟨_, hc.mem, hmark⟩)

end

theorem reveals_rules (hG : G.Local) : ProperRules G (reveals G S T) where
  immediate _ _ hbare hvs ha _ _ _ hc hs := by
    refine ⟨hs.advance hc ha, ⟨fun r hr => .inr (.inl (hbare.var r hr)), fun href => ?_⟩,
      hbare.code ▸ .nil ha fun v hv => .inl (hvs v hv)⟩
    obtain ⟨r, hr⟩ := hbare.named href
    exact ⟨r, hr, .inr (.inl (hbare.var r hr))⟩
  reuse _ ht _ _ hS hT hc hs := reveals_takes hS (hT mem_cons_self) hc hs ht
  declared := by
    intro n c s gs s1 t φ _ ht _ hfits hp hS hT hc hs
    have ha := φ.advance c [] s1
    have hgrows := ha.grows.trans (.remember _ c n.id (φ.result s1.counter))
    obtain ⟨hs1, hseen, hgives⟩ := reveals_threads ht (hgrows.trans hS) hT hc hs
    rw [← hfits.deps_eq hG ht.origin] at hgives hseen
    refine reveals_remember hgives hc ha (fun d hd => ⟨hseen d hd, ?_⟩) (fun r hr => ?_)
      mem_cons_self ht.grows hs1 (Numbered.ne_empty ⟨φ.base, hfits.base, rfl⟩) rfl rfl
    · rw [declares_flatMap]
      exact fun v hv => mem_flatMap.mpr ⟨d, hd, hv⟩
    · have hr : r ∈ φ.value.names := by simpa [mem_allFree_cons, Stmt.free, Stmt.allFree] using hr
      rcases hfits.reads r hr with ⟨d, hd, hdr⟩ | ⟨a, ha, -⟩
      · exact (hseen d hd).var r hdr
      · have hn := hG.nodes n hp.mem
        rw [hfits.arguments a ha] at hn
        cases hn
  broken _ _ _ _ hp := absurd (hG.nodes _ hp.mem) Bool.false_ne_true
  loop := by
    intro id body count start c s gi s1 t1 s2 gb s3 t2 m s4 bind gm s5 t3 g s6
      _ hcount ha2 hbody hopens hinit hg ha6 hp hS hT hc hs
    obtain ⟨hT1, hT2, hT3⟩ : t1 ⊆ T ∧ t2 ⊆ T ∧ t3 ⊆ T := by rwa [append_subset, append_subset] at hT
    have hgrows14 : s1.Grows s4 := ((ha2.grows.trans (.openScope s2)).trans hbody.1.grows).trans
      hopens.grows
    have hS5 : s5.Grows S := (ha6.grows.trans (.remember ..)).trans hS
    have hS4 : s4.Grows S := hinit.1.grows.trans hS5
    have hi := hcount.2 (hgrows14.trans hS4) hT1 hc hs
    have hc1 := hc.mono hcount.1.grows
    have hs2 := hi.anchored.advance hc1 ha2
    have hc2 := hc1.mono (.advance ha2)
    have hb := hbody.2 (hopens.grows.trans hS4) hT2 hc2.loopBody hs2.openScope
    have ha4 := hopens.advance c
    have hs4 : s4.Anchored := hb.anchored.advance (hc2.mono ((Session.Grows.openScope s2).trans hbody.1.grows)) ha4
    have hm := hinit.2 hS5 hT3 (hc1.mono hgrows14) hs4
    have hnew : ∀ p ∈ s4.emitted, p ∈ s1.emitted ∨ s1.nextScope ≤ p.1 := by
      intro p hp
      have hp3 : p ∈ s3.emitted := (ha4.of_mem_emitted hp).resolve_right fun h => absurd h.2 not_mem_nil
      rcases hb.gives.of_loopBody p hp3 with hp | hp
      · exact .inl ((ha2.of_mem_emitted hp).resolve_right fun h => absurd h.2 not_mem_nil)
      · exact .inr (ha2.nextScope ▸ hp)
    have hcode : g.code.stmts = gm.code.stmts ++ gi.code.stmts ++ Step.loopStatements gi gb (bind gm) s5.counter := by
      rw [hg, Step.loopResult, hopens.initial]
      simp [Generated.extend, Generated.gather, Code.stmts]
    have hgives := hi.gives.displace hm.gives hnew hc hcount.1.grows hgrows14 fun r hfirst hsecond =>
      .inr (.displaced hp.mem (hS.memo.subset mem_cons_self) hcode hfirst hsecond)
    have hseen := hi.seen.mono (hgrows14.trans hinit.1.grows)
    have hnum := hG.opens hbody.1.result.origin hopens gm
    refine reveals_remember hgives hc ha6 ?_ ?_ mem_cons_self ((hcount.1.grows.trans hgrows14).trans hinit.1.grows)
      hm.anchored hnum.ne_empty (by rw [hg]; rfl) hcode
    · rw [declares_append]
      refine forall_mem_cons.mpr ⟨⟨hm.seen, subset_append_left ..⟩, forall_mem_singleton.mpr ?_⟩
      exact ⟨hseen, subset_append_right ..⟩
    · exact free_loopStatements hopens.initial hm.seen hseen hb.gives hb.seen hs2 hc2
        (((Session.Grows.openScope s2).trans hbody.1.grows).trans (hopens.grows.trans hinit.1.grows)).emitted.subset
  accumulator _ _ _ hp := absurd (hG.nodes _ hp.mem) Bool.false_ne_true
  knownFunction _ _ hp := absurd (hG.nodes _ hp.mem) Bool.false_ne_true
  newFunction _ _ _ hp := absurd (hG.nodes _ hp.mem) Bool.false_ne_true
  varying _ _ _ hp := absurd (hG.nodes _ hp.mem) Bool.false_ne_true

end

theorem Session.anchored_new (nextId : NodeId) (folding : Bool) : Session.Anchored { nextId, folding } where
  scopes _ h := absurd h not_mem_nil
  memo _ h := absurd h not_mem_nil

/-- In a job without errors, what a fragment stage of loops and plain nodes reads in its main is a resource or is
declared before, in the same block or in one around it, unless it is misplaced. The vertex stage may be a bare
attribute or any graph of the kind. -/
theorem loops_closed_but_for_misplaced {G : Graph} (hG : G.Local) {vertex fragment : Node} (hv : vertex ∈ G.nodes)
    (hf : fragment ∈ G.nodes) {o : CompileOptions} {nextId : NodeId} {r : Compiled}
    (hr : compiled vertex fragment o.folding nextId = r)
    (herr : (compilePair vertex fragment o nextId).error? = none) :
    (compilePair vertex fragment o nextId).fragmentSource = r.fragmentProgram.sections.assemble.1 ∧
    ∀ x ∈ Stmt.allFree (r.fragmentProgram.statements r.fragment.var),
      IsResource x ∨ r.session.Misplaces G r.trace x := by
  refine ⟨hr ▸ rfl, ?_⟩
  obtain ⟨gv, gf, s₁, s₂, tv, tf, rfl, hvertex, hfragment⟩ :=
    compiled_properly hG.shared
      ((reveals_rules (S := r.session) (T := r.trace) hG).everywhere hG.shared) hv hf hr herr
  have hgv := hvertex.2 hfragment.1.grows (List.subset_append_left ..)
    ⟨List.mem_cons_self, fun i hi => List.mem_singleton.mp hi ▸ Nat.zero_lt_two⟩
    (Session.anchored_new nextId o.folding)
  have hc₁ : Scope.fragmentMain.Sits s₁ :=
    ⟨List.mem_cons_self, fun i hi => List.mem_singleton.mp hi ▸ hvertex.1.grows.nextScope⟩
  have hgf := hfragment.2 (.refl _) (List.subset_append_right ..) hc₁ hgv.anchored
  -- the vertex stage leaves no marks in the main of the fragment stage
  have hnone (x : String) : ¬ s₁.isEmitted .fragmentMain x := by
    intro hx
    obtain ⟨i, hi, hm⟩ := Session.isEmitted_iff.mp hx
    obtain rfl : i = 1 := List.mem_singleton.mp hi
    rcases hgv.gives.others _ hm with hm | hm | hm
    · exact absurd hm List.not_mem_nil
    · exact absurd hm Nat.one_ne_zero
    · exact absurd hm (Nat.not_succ_le_self 1)
  intro x hx
  refine (hgf.gives.free_append hc₁ (fun y hy => ?_) x hx).resolve_left (hnone x)
  change y ∈ Stmt.allFree [.assign Stage.fragment.output gf.var] at hy
  have hy : y ∈ gf.var.names := by simpa [mem_allFree_cons, Stmt.free, Stmt.allFree] using hy
  exact hgf.seen.var y (Atom.mem_names.mp hy)

/-! ## Loops in loops -/

def reefCorner : Node := .attribute 1 { id := 1, type := .vec2, size := 2, instanced := false }

def reefLevel : Node := .uniform 2 { id := 2, type := .float }

def reefWave : Node := .builtin 3 .sin [reefLevel]

def reefSwell : Node := .operator 4 .mult [reefWave, reefLevel]

def reefInner : Node := .sumLoop 7 reefSwell (.float 5 4) (.float 6 0)

def reefTerm : Node := .operator 8 .add [reefWave, reefInner]

/-- The body, the count and the initial value share the wave. -/
def reefOuter : Node := .sumLoop 9 reefTerm reefWave reefWave

def reefShade : Node := .operator 10 .add [reefOuter, reefWave]

def reefAhead : Node := .operator 12 .add [reefWave, .float 11 1]

def reefDouble : Node := .operator 14 .mult [reefWave, .float 13 2]

/-- The count and the initial value share the wave, which the count declares. -/
def reefDisplaced : Node := .sumLoop 16 (.float 15 1) reefAhead reefDouble

def reefDeep : Node := .sumLoop 17 reefTerm (.float 13 2) (.float 6 0)

/-- The inner loop is used again, after the loop whose body declares the wave. -/
def reefTaken : Node := .operator 18 .add [reefDeep, reefInner]

def reefNodes : List Node :=
  [reefCorner, reefLevel, reefWave, reefSwell, .float 5 4, .float 6 0, reefInner, reefTerm, reefOuter, reefShade,
    .float 11 1, reefAhead, .float 13 2, reefDouble, .float 15 1, reefDisplaced, reefDeep, reefTaken]

def reefGraph : Graph := .ofList reefNodes <| by
  simp [reefNodes, reefCorner, reefLevel, reefWave, reefSwell, reefInner, reefTerm, reefOuter, reefShade, reefAhead,
    reefDouble, reefDisplaced, reefDeep, reefTaken, Node.children, Node.operands]

theorem reefGraph_local : reefGraph.Local where
  shared := Graph.shared_ofList (by decide)
  nodes := by
    show ∀ n ∈ reefNodes, n.isLocal
    decide

def reefJob : Compiled := compiled reefCorner reefShade true 19

theorem reefJob_ok : (compilePair reefCorner reefShade {} 19).error? = none := by decide +kernel

/-- What the loops share is declared before them. -/
theorem reefJob_closed : (∀ x ∈ Stmt.allFree (reefJob.fragmentProgram.statements reefJob.fragment.var),
      IsResource x ∨ reefJob.session.Misplaces reefGraph reefJob.trace x) ∧
    Stmt.allFree (reefJob.fragmentProgram.statements reefJob.fragment.var) = ["uniform2", "uniform2"] := by
  have hr : compiled reefCorner reefShade ({} : CompileOptions).folding 19 = reefJob := rfl
  have hv : reefCorner ∈ reefNodes := by simp [reefNodes]
  have hf : reefShade ∈ reefNodes := by simp [reefNodes]
  refine ⟨(loops_closed_but_for_misplaced reefGraph_local hv hf hr reefJob_ok).2, ?_⟩
  decide +kernel

/-! ## A wave that is declared too late, and one that is declared too deep -/

def reefLate : Compiled := compiled reefCorner reefDisplaced true 19

def reefSunk : Compiled := compiled reefCorner reefTaken true 19

/-- In two jobs without errors over a bare attribute the main of the fragment stage reads a variable that is not
declared before: one declares it after the initial value of a loop, the other in the body of a loop only. -/
theorem loops_not_closed :
    reefGraph.Local ∧ (∀ n ∈ [reefCorner, reefDisplaced, reefTaken], n ∈ reefGraph.nodes) ∧ ¬ IsResource "sinVal0" ∧
    ((compilePair reefCorner reefDisplaced {} 19).error? = none ∧
      "sinVal0" ∈ Stmt.allFree (reefLate.fragmentProgram.statements reefLate.fragment.var) ∧
      (reefLate.fragmentProgram.main.take 2).map Stmt.text =
        ["float multVal3 = sinVal0*2.0;", "float sinVal0 = sin(uniform2);"]) ∧
    (compilePair reefCorner reefTaken {} 19).error? = none ∧
      "sinVal0" ∈ Stmt.allFree (reefSunk.fragmentProgram.statements reefSunk.fragment.var) ∧
      "sinVal0" ∉ declares reefSunk.fragmentProgram.main := by
  refine ⟨reefGraph_local, ?_, fun h => ?_, ⟨?_, ?_, ?_⟩, ?_, ?_, ?_⟩
  · show ∀ n ∈ _, n ∈ reefNodes
    simp [reefNodes]
  · exact h.not_numbered 0 ⟨"sinVal", isBase_val "sin", by decide⟩
  · decide +kernel
  · decide +kernel
  · decide +kernel
  · decide +kernel
  · decide +kernel
  · decide +kernel

end ShaderGraph
