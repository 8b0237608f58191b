import ShaderGraph.Proofs.Owners

/-!
# Variables with one owner

Every scope is given the code of results, and knows which variables it was given. In a job without errors
a variable with one owner is declared at most once in a block: no other node declares it, and its owner
does not find its result unusable where the variable is declared.
-/

namespace ShaderGraph

open Eval List

variable {vs : List String} {gs : List Generated} {t : Trace} {a : Atom} {body start vertex fragment : Node}
  {gb gm : Generated} {bind : Generated → Step.Binding} {type : GlType} {id nextId : NodeId} {s2 s3 : Session}
  {name v w : String} {r : Compiled} {ss : List Stmt} {G : Graph} {o : CompileOptions}

def Session.Owned (G : Graph) (s : Session) (v : String) : Prop := ∃ n, s.Owns G n v

/-- The variable has at most one owner. -/
def Session.Sole (G : Graph) (s : Session) (v : String) : Prop := ∀ m n, s.Owns G m v → s.Owns G n v → m = n

/-- All remembered results have variables with a name. -/
def Session.Named (s : Session) : Prop := ∀ p ∈ s.memo, p.2.generated.var.text ≠ ""

structure Session.Tidy (G : Graph) (v : String) (s : Session) : Prop where
  sole : s.Sole G v
  named : s.Named

/-- The variable is declared at most once in the code, and in the body of each loop. -/
inductive DeclaresOnce (v : String) : List Stmt → Prop where
  | intro {ss : List Stmt} (count : (declares ss).count v ≤ 1)
      (loops : ∀ i b body w a, Stmt.loop i b body w a ∈ ss → DeclaresOnce v body) : DeclaresOnce v ss

abbrev LoopsOnce (v : String) : List Stmt → Prop := InLoops (DeclaresOnce v)

section
variable {s s1 s' : Session} {c : Scope} {n m : Node} {g : Generated} {ts : List Stmt} {i : ScopeId}
  {e : MemoEntry}

theorem Session.Owned.mono (h : s.Owned G v) (hg : s.Grows s') : s'.Owned G v := by
  obtain ⟨n, hn⟩ := h
  exact ⟨n, hn.mono hg⟩

theorem Session.Tidy.of_grows (h : s'.Tidy G v) (hg : s.Grows s') : s.Tidy G v where
  sole m n hm hn := h.sole m n (hm.mono hg) (hn.mono hg)
  named p hp := h.named p (hg.memo.subset hp)

theorem Session.Named.ne_empty (h : s.Named) (ho : s.Owned G v) : v ≠ "" := by
  obtain ⟨n, -, -, e, he, hv⟩ := ho
  have := h _ he
  rwa [hv] at this

theorem DeclaresOnce.count (h : DeclaresOnce v ss) : (declares ss).count v ≤ 1 := by
  obtain ⟨hcount, -⟩ := h
  exact hcount

/-! ## What a scope is supplied with -/

/-- Between two sessions the scope of an id is given statements that declare the variable at most once, and
not if it is marked there already and owned; if they do, it is so afterwards. -/
structure Supplies (G : Graph) (v : String) (i : ScopeId) (s : Session) (ss : List Stmt) (s' : Session) : Prop where
  grows : s.Grows s'
  once : (declares ss).count v ≤ 1
  new : v ∈ declares ss → (i, v) ∈ s.emitted → ¬ s.Owned G v
  marked : v ∈ declares ss → (i, v) ∈ s'.emitted ∧ s'.Owned G v

namespace Supplies

theorem of_not_mem (hg : s.Grows s') (h : v ∉ declares ss) : Supplies G v i s ss s' where
  grows := hg
  once := by rw [count_eq_zero_of_not_mem h]; exact Nat.zero_le _
  new hv := absurd hv h
  marked hv := absurd hv h

theorem nil (hg : s.Grows s') : Supplies G v i s [] s' := of_not_mem hg not_mem_nil

theorem after (h : Supplies G v i s ss s1) (hg : s1.Grows s') : Supplies G v i s ss s' :=
  { h with
    grows := h.grows.trans hg
    marked := fun hv => ⟨hg.emitted.subset (h.marked hv).1, (h.marked hv).2.mono hg⟩ }

theorem before (h : Supplies G v i s1 ss s') (hg : s.Grows s1) : Supplies G v i s ss s' :=
  { h with
    grows := hg.trans h.grows
    new := fun hv hm ho => h.new hv (hg.emitted.subset hm) (ho.mono hg) }

theorem sublist (h : Supplies G v i s ss s') (hsub : (declares ts).Sublist (declares ss)) :
    Supplies G v i s ts s' where
  grows := h.grows
  once := (hsub.count_le v).trans h.once
  new hv := h.new (hsub.subset hv)
  marked hv := h.marked (hsub.subset hv)

theorem trans (h : Supplies G v i s ss s1) (h' : Supplies G v i s1 ts s') : Supplies G v i s (ss ++ ts) s' := by
  have hg := h.grows.trans h'.grows
  by_cases hv : v ∈ declares ss
  · -- what is declared first is marked, and not declared again
    obtain ⟨hm, ho⟩ := h.marked hv
    have hts : v ∉ declares ts := fun hts => h'.new hts hm ho
    refine ⟨hg, ?_, fun _ => h.new hv, fun _ => (h.after h'.grows).marked hv⟩
    rw [declares_append, count_append, count_eq_zero_of_not_mem hts]
    exact h.once
  · have hmem : v ∈ declares (ss ++ ts) → v ∈ declares ts := fun h => by
      rw [declares_append, mem_append] at h
      exact h.resolve_left hv
    refine ⟨hg, ?_, fun hv => (h'.before h.grows).new (hmem hv), fun h => h'.marked (hmem h)⟩
    rw [declares_append, count_append, count_eq_zero_of_not_mem hv, Nat.zero_add]
    exact h'.once

theorem comm (h : Supplies G v i s (ss ++ ts) s') : Supplies G v i s (ts ++ ss) s' := by
  have hperm : (declares (ts ++ ss)).Perm (declares (ss ++ ts)) := by
    rw [declares_append, declares_append]
    exact perm_append_comm
  exact ⟨h.grows, hperm.count_eq v ▸ h.once, fun hv => h.new (hperm.subset hv), fun hv => h.marked (hperm.subset hv)⟩

end Supplies

/-! ## Sessions -/

/-- A result declares the variable only if an owner is inside its node, and lists it then. -/
structure Generated.Credits (G : Graph) (v : String) (s : Session) (n : Node) (g : Generated) : Prop where
  listed : v ∈ declares g.code.stmts → v ∈ g.declared
  owner : v ∈ declares g.code.stmts → ∃ m, s.Owns G m v ∧ m.Within n
  loops : LoopsOnce v g.code.stmts

structure Session.Audited (G : Graph) (v : String) (s : Session) : Prop where
  memo : ∀ n ∈ G.nodes, ∀ e, (n.id, e) ∈ s.memo → e.generated.Credits G v s n ∧
    (declares e.generated.code.stmts).count v ≤ 1 ∧
    (e.generated.var.text ≠ "" → (e.scope, e.generated.var.text) ∈ s.emitted)
  functions : ∀ p ∈ s.functions, DeclaresOnce v p.2.body
  varyings : ∀ w ∈ s.fragment.varyings, LoopsOnce v w.code

theorem Generated.Credits.mono (h : g.Credits G v s n) (hg : s.Grows s') : g.Credits G v s' n :=
  { h with owner := fun hv =>
      have ⟨m, hm, hw⟩ := h.owner hv
      ⟨m, hm.mono hg, hw⟩ }

theorem Generated.Credits.nil (h : g.code.stmts = []) : g.Credits G v s n where
  listed hv := by rw [h] at hv; exact absurd hv not_mem_nil
  owner hv := by rw [h] at hv; exact absurd hv not_mem_nil
  loops := h ▸ inLoops_nil

namespace Session.Audited

theorem initial (G : Graph) (v : String) (nextId : NodeId) (folding : Bool) :
    Session.Audited G v { nextId, folding } where
  memo _ _ _ h := absurd h not_mem_nil
  functions _ h := absurd h not_mem_nil
  varyings _ h := absurd h not_mem_nil

variable (h : s.Audited G v)
include h

theorem congr (hg : s.Grows s') (hm : s'.memo = s.memo) (hf : ∀ p ∈ s'.functions, DeclaresOnce v p.2.body)
    (hv : ∀ w ∈ s'.fragment.varyings, LoopsOnce v w.code) : s'.Audited G v where
  memo n hn e he := by
    obtain ⟨hc, hcount, hmark⟩ := h.memo n hn e (hm ▸ he)
    exact ⟨hc.mono hg, hcount, fun hne => hg.emitted.subset (hmark hne)⟩
  functions := hf
  varyings := hv

theorem advance (ha : s.Advance c vs s') : s'.Audited G v :=
  h.congr (.advance ha) ha.memo (fun p hp => h.functions p (ha.functions ▸ hp))
    fun w hw => h.varyings w (ha.varyings .fragment ▸ hw)

theorem openScope : s.openScope.Audited G v :=
  h.congr (.openScope s) rfl h.functions h.varyings

theorem remember (hG : G.Shared) (hn : n ∈ G.nodes) (hg : g.Credits G v (s.remember c n.id g) n)
    (hcount : (declares g.code.stmts).count v ≤ 1) (hmark : g.var.text ≠ "" → (c.id, g.var.text) ∈ s.emitted) :
    (s.remember c n.id g).Audited G v where
  memo m hm e he := by
    rcases mem_cons.mp he with heq | he
    · obtain ⟨hid, rfl⟩ := Prod.mk.inj heq
      obtain rfl := hG m hm n hn hid
      exact ⟨hg, hcount, hmark⟩
    · obtain ⟨hc, hcount, hmark⟩ := h.memo m hm e he
      exact ⟨hc.mono (.remember ..), hcount, hmark⟩
  functions := h.functions
  varyings := h.varyings

end Session.Audited

/-! ## Every evaluation -/

/-- A fragment stage beside a vertex stage gives the code of new varyings to the latter. -/
def Forwards (G : Graph) (v : String) (c : Scope) (s s' : Session) : Prop :=
  ∃ new, s'.fragment.varyings = s.fragment.varyings ++ new ∧ (¬ c.Paired → new = []) ∧
    Supplies G v Scope.vertexMain.id s (new.flatMap (·.code)) s'

namespace Forwards

theorem none (hg : s.Grows s') (h : s'.fragment.varyings = s.fragment.varyings) : Forwards G v c s s' :=
  ⟨[], by rw [h, append_nil], fun _ => rfl, .nil hg⟩

theorem trans (h : Forwards G v c s s1) (h' : Forwards G v c s1 s') : Forwards G v c s s' := by
  obtain ⟨new, hv, hc, hnew⟩ := h
  obtain ⟨new', hv', hc', hnew'⟩ := h'
  refine ⟨new ++ new', by rw [hv', hv, append_assoc], fun hp => ?_, ?_⟩
  · rw [hc hp, hc' hp, append_nil]
  · rw [flatMap_append]
    exact hnew.trans hnew'

end Forwards

structure Audits (G : Graph) (v : String) (n : Node) (c : Scope) (s : Session) (g : Generated) (s' : Session) :
    Prop where
  audited : s'.Audited G v
  credits : g.Credits G v s' n
  supplies : Supplies G v c.id s g.code.stmts s'
  forwards : Forwards G v c s s'

def audits (G : Graph) (v : String) : Judgement := fun n c s g s' _ =>
  s'.Tidy G v → c.id ∈ c.visible → s.Counted G → s.Audited G v → Audits G v n c s g s'

/-- An audit needs to know how variables are numbered. -/
abbrev follows (G : Graph) (v : String) : Judgement := (counts G).both (audits G v)

theorem audits_nothing (hs : s.Audited G v) (ha : s.Advance c vs s') (hcode : g.code.stmts = []) :
    Audits G v n c s g s' :=
  ⟨hs.advance ha, .nil hcode, hcode ▸ .nil ha.grows, .none ha.grows (ha.varyings .fragment)⟩

theorem audits_takes (hn : n ∈ G.nodes) (hnamed : s'.Named) (hc : c.id ∈ c.visible) (hs : s.Audited G v)
    (ht : s.Takes c n.id g s') : Audits G v n c s g s' := by
  cases ht with
  | reference => exact audits_nothing hs (.refl c s) rfl
  | @again e he hv hscope =>
    have hmem := mem_of_lookup he
    obtain ⟨-, -, hmark⟩ := hs.memo n hn e hmem
    have hm := hmark (hnamed _ hmem)
    exact absurd (Session.isEmitted_iff.mpr ⟨_, hc, hscope ▸ hm⟩) hv
  | @whole e he hv hscope hd =>
    have hmem := mem_of_lookup he
    have ha := Session.Advance.take s c e.generated
    obtain ⟨hcredits, hcount, -⟩ := hs.memo n hn e hmem
    refine ⟨hs.advance ha, hcredits.mono ha.grows, ⟨ha.grows, hcount, fun hv hm => ?_, fun hv => ?_⟩,
      .none ha.grows (ha.varyings .fragment)⟩
    · exact absurd (Session.isEmitted_iff.mpr ⟨_, hc, hm⟩) (hd v (hcredits.listed hv))
    · obtain ⟨m, hm, -⟩ := hcredits.owner hv
      have ho : Session.Owned G _ v := ⟨m, hm.mono (.advance ha)⟩
      exact ⟨ha.mem_emitted (mem_append_left _ (hcredits.listed hv)) (hnamed.ne_empty ho), ho⟩

theorem audits_threads {ns : List Node} (h : Threads ((follows G v).properly G) c ns s gs s' t)
    (htidy : s'.Tidy G v) (hc : c.id ∈ c.visible) (hcounted : s.Counted G) (hs : s.Audited G v) :
    s'.Audited G v ∧ (∀ g ∈ gs, ∃ n ∈ ns, g.Credits G v s' n) ∧
      Supplies G v c.id s (gs.flatMap (·.code.stmts)) s' ∧ Forwards G v c s s' := by
  induction h with
  | nil => exact ⟨hs, forall_mem_nil _, .nil (.refl _), .none (.refl _) rfl⟩
  | cons hn hrest ih =>
    have hg := hrest.grows
    have h1 := hn.2.2 (htidy.of_grows hg) hc hcounted hs
    obtain ⟨hs', hcredits, hsupplies, hforwards⟩ := ih htidy (hn.2.1 hcounted).1 h1.audited
    refine ⟨hs', forall_mem_cons.mpr ⟨⟨_, mem_cons_self, h1.credits.mono hg⟩, fun d hd => ?_⟩,
      h1.supplies.trans hsupplies, h1.forwards.trans hforwards⟩
    obtain ⟨m, hm, hd⟩ := hcredits d hd
    exact ⟨m, mem_cons_of_mem _ hm, hd⟩

/-- A result that declares a variable of its own after the code of its operands, and is remembered. No owner
of the variable is inside an operand, since the node is not. -/
theorem audits_own (w : String) (ss own : List Stmt) (hG : G.Shared) (hn : n ∈ G.nodes)
    (hb : ∀ id a b, n ≠ .breakIf id a b) (htidy : (s'.remember c n.id g).Tidy G v)
    (ha : s1.Advance c vs s') (hs1 : s1.Audited G v) (hss : Supplies G v c.id s ss s1) (hforwards : Forwards G v c s s1)
    (hinside : v ∈ declares ss → v ∈ g.declared ∧ ∃ m, s1.Owns G m v ∧ ∃ k ∈ n.children, m.Within k)
    (hloops : LoopsOnce v g.code.stmts) (hcode : g.code.stmts = ss ++ own) (hown : declares own = [w])
    (hvar : g.var = .name w) (hlisted : w ∈ g.declared) (hw : w ∈ vs)
    (hnew : w = v → (c.id, v) ∈ s.emitted → ¬ s.Owns G n v) : Audits G v n c s g (s'.remember c n.id g) := by
  have hgrows : s1.Grows (s'.remember c n.id g) := ha.grows.trans (.remember ..)
  have hself : (s'.remember c n.id g).Owns G n w := ⟨hn, hb, _, mem_cons_self, hvar⟩
  have hne : w ≠ "" := htidy.named.ne_empty ⟨n, hself⟩
  have hdecl : declares g.code.stmts = declares ss ++ [w] := by rw [hcode, declares_append, hown]
  have hsupplies : Supplies G v c.id s g.code.stmts (s'.remember c n.id g) := by
    rw [hcode]
    by_cases hwv : w = v
    · subst hwv
      have hnot : w ∉ declares ss := by
        intro hw
        obtain ⟨-, m, hm, k, hk, hmk⟩ := hinside hw
        rw [htidy.sole m n (hm.mono hgrows) hself] at hmk
        exact absurd (Node.sizeOf_child_lt hk) (Nat.not_lt.mpr hmk.sizeOf_le)
      have hgrows0 := hss.grows.trans hgrows
      refine ⟨hgrows0, ?_, fun _ hm ho => ?_, fun _ => ⟨ha.mem_emitted hw hne, n, hself⟩⟩
      · rw [declares_append, hown, count_append, count_eq_zero_of_not_mem hnot, Nat.zero_add]
        exact count_le_length
      · obtain ⟨m, hm'⟩ := ho
        rw [htidy.sole m n (hm'.mono hgrows0) hself] at hm'
        exact hnew rfl hm hm'
    · refine (hss.after hgrows).trans (.of_not_mem (.refl _) ?_)
      rw [hown]
      exact fun h => hwv (mem_singleton.mp h).symm
  have hcredits : g.Credits G v (s'.remember c n.id g) n := by
    refine ⟨fun hv => ?_, fun hv => ?_, hloops⟩
    · rw [hdecl, mem_append] at hv
      rcases hv with hv | hv
      · exact (hinside hv).1
      · exact mem_singleton.mp hv ▸ hlisted
    · rw [hdecl, mem_append] at hv
      rcases hv with hv | hv
      · obtain ⟨-, m, hm, k, hk, hmk⟩ := hinside hv
        exact ⟨m, hm.mono hgrows, .child hk hmk⟩
      · exact ⟨n, mem_singleton.mp hv ▸ hself, .refl⟩
  refine ⟨(hs1.advance ha).remember hG hn hcredits hsupplies.once fun _ => ?_, hcredits, hsupplies,
    hforwards.trans (.none hgrows (ha.varyings .fragment))⟩
  rw [hvar]
  exact ha.mem_emitted hw hne

/-! ## The owner of a variable -/

theorem Session.Once.within_of_knows (h : s.Once G) (hn : n ∈ G.nodes) (hk : s.Knows n g) {a : AccumulatorDef}
    (ha : a ∈ g.accumulators) : a.initial.Within n := by
  cases hk with
  | leaf _ hbare =>
    rw [hbare.accumulators] at ha
    cases ha
  | remembered _ he halike => exact h.memo _ he n hn rfl a (halike.accumulators ▸ ha)
  | function | varying => cases ha

theorem Opens.within {count : Node} (h : Opens gb start s m s' bind)
    (hsums : ∀ a ∈ gb.accumulators, a.initial.Within body) :
    ∃ k ∈ (Node.sumLoop id body count start).children, m.Within k := by
  cases h with
  | accumulated ha => exact ⟨body, by simp [Node.children], hsums _ (ha ▸ mem_cons_self)⟩
  | parameter | own => exact ⟨_, by simp [Node.children], .refl⟩

theorem Session.not_isEmitted_of_lookup (hl : s.lookup? c id = none) (he : s.memo.lookup id = some e) :
    ¬ s.isEmitted c e.generated.var.text := by
  intro hv
  simp [lookup?, he, hv] at hl

theorem Session.Counted.loop_not_owns {count : Node} (hs : s.Counted G) (hG : G.Shared)
    (hn : .sumLoop id body count start ∈ G.nodes) (hc : c.id ∈ c.visible) (hl : s.lookup? c id = none)
    (hg : s.Grows s1) (hcoherent : s1.Coherent G) (honce : s1.Once G) (hbody : s1.Knows body gb)
    (hopens : Opens gb start s1 m s' bind) (hv : (bind gm).var = v) (hm : (c.id, v) ∈ s.emitted) :
    ¬ s.Owns G (.sumLoop id body count start) v := by
  subst hv
  intro ho
  rcases hopens.var gm with hborrowed | ⟨hnone, hk, -⟩
  · -- all results of the loop have this variable, the last one too
    obtain ⟨-, -, e, he, -⟩ := ho
    have hsome : (s.memo.lookup id).isSome := by
      rw [lookup_isSome_iff]
      exact ⟨_, he, by simp [Node.id]⟩
    obtain ⟨e', he'⟩ := Option.isSome_iff_exists.mp hsome
    have hvar := hcoherent.var_of_borrows honce hG hn (hg.memo.subset (mem_of_lookup he')) hbody hborrowed
    refine Session.not_isEmitted_of_lookup hl he' (Session.isEmitted_iff.mpr ⟨_, hc, ?_⟩)
    rwa [hvar]
  · obtain ⟨_, _, _, _, gb', hloop, hk', hborrowed⟩ := hs.borrows_of_owns hk hg.counter ho
    cases hloop
    rw [(hcoherent.unique honce (hk'.mono hg) hbody).sumVariable, hnone] at hborrowed
    cases hborrowed

/-! ## Every evaluation, by cases -/

theorem Forwards.of_paired {d : Scope} (h : Forwards G v d s s') (hd : d.Paired → c.Paired) : Forwards G v c s s' := by
  obtain ⟨new, hv, hnew, hsupplies⟩ := h
  exact ⟨new, hv, fun hc => hnew fun hp => hc (hd hp), hsupplies⟩

theorem credits_gather {own : List Stmt} {x : Extras}
    (hgs : ∀ d ∈ gs, ∃ k, d.Credits G v s k ∧ ∃ j ∈ n.children, k.Within j)
    (hv : v ∈ declares (gs.flatMap (·.code.stmts))) :
    v ∈ ((Generated.gather type own a gs).extend x).declared ∧ ∃ m, s.Owns G m v ∧ ∃ j ∈ n.children, m.Within j := by
  rw [declares_flatMap] at hv
  obtain ⟨d, hd, hv⟩ := mem_flatMap.mp hv
  obtain ⟨k, hk, j, hj, hkj⟩ := hgs d hd
  obtain ⟨m, hm, hmk⟩ := hk.owner hv
  exact ⟨mem_declared_gather.mpr (.inl ⟨d, hd, hk.listed hv⟩), m, hm, j, hj, hmk.trans hkj⟩

theorem audits_function {f : Function}
    (hb : (follows G v).properly G body (c.functionBody s.nextScope) s.openScope gb s1 t)
    (hf : f = Step.functionOf id name gb) (ha : (s1.define id f).Advance c [] s3) :
    audits G v (.defun id name body) c s (Step.functionResult f) s3 t := by
  intro htidy hc hcounted hs
  have hgrows := (Session.Grows.define s1 id f).trans ha.grows
  have h := hb.2.2 (htidy.of_grows hgrows) mem_cons_self
    (hcounted.congr (.openScope s) rfl) hs.openScope
  have hbody : DeclaresOnce v f.body := hf ▸ ⟨h.supplies.once, h.credits.loops⟩
  have hdefined : (s1.define id f).Audited G v :=
    h.audited.congr (.define s1 id f) rfl (forall_mem_cons.mpr ⟨hbody, h.audited.functions⟩) h.audited.varyings
  have hopen : Forwards G v c s s.openScope := .none (.openScope s) rfl
  exact ⟨hdefined.advance ha, .nil rfl, .nil (((Session.Grows.openScope s).trans hb.1.grows).trans hgrows),
    (hopen.trans (h.forwards.of_paired fun hp => hp)).trans (.none hgrows (ha.varyings .fragment))⟩

theorem audits_varying {r : Generated} {t' : Trace} (hc : c.Paired)
    (hop : (follows G v).properly G n .vertexMain s g s1 t) (hr : (Step.readVarying c id g).run s1 = (r, s2)) :
    audits G v (.varying id n) c s r s2 t' := by
  intro htidy _ hcounted hs
  have hgrows := Step.readVarying_grows hr
  have hall := hop.1.grows.trans hgrows
  have h := hop.2.2 (htidy.of_grows hgrows) (by decide) hcounted hs
  have hvaryings := Step.readVarying_varyings hc.1 hr
  have hsame : s1.fragment.varyings = s.fragment.varyings := by
    obtain ⟨new, hv, hnew, -⟩ := h.forwards
    rw [hv, hnew (fun hp => by cases hp.1), append_nil]
  obtain ⟨hmemo, hfunctions, hcode⟩ := Step.readVarying_same hr
  refine ⟨h.audited.congr hgrows hmemo (fun p hp => ?_) fun w hw => ?_, .nil hcode, hcode ▸ .nil hall, ?_⟩
  · exact h.audited.functions p (hfunctions ▸ hp)
  · rcases Step.mem_varyings_of_readVarying hc.1 hr hw with hw | rfl
    · exact h.audited.varyings w hw
    · exact h.credits.loops
  · split at hvaryings
    · exact .none hall (hvaryings.trans hsame)
    · refine ⟨[Step.varyingDef id g], by rw [hvaryings, hsame], fun hp => absurd hc hp, ?_⟩
      rw [flatMap_singleton]
      exact h.supplies.after hgrows

variable (hG : G.Shared)
include hG

theorem audits_declared {φ : Form} (hplain : n.isPlain)
    (ht : Threads ((follows G v).properly G) c n.operands s gs s1 t) (hφ : n.form? s1.folding gs = some φ)
    (hfits : φ.Fits n c gs) (hn : n ∈ G.nodes) :
    audits G v n c s (φ.result s1.counter) ((φ.session c [] s1).remember c n.id (φ.result s1.counter)) t := by
  intro htidy hc hcounted hs
  have ha := φ.advance c [] s1
  have hgrows := ha.grows.trans (.remember _ c n.id (φ.result s1.counter))
  obtain ⟨hs1, hcredits, hsupplies, hforwards⟩ :=
    audits_threads ht (htidy.of_grows hgrows) hc hcounted hs
  have hk : Numbered s1.counter (φ.name s1.counter) := ⟨φ.base, hfits.base, rfl⟩
  have hdeps : ∀ d ∈ φ.deps, ∃ k, d.Credits G v s1 k ∧ ∃ j ∈ n.children, k.Within j := by
    intro d hd
    obtain ⟨k, hk, hd⟩ := hcredits d (hfits.deps.subset hd)
    exact ⟨k, hd, k, Node.children_of_isPlain hplain ▸ hk, .refl⟩
  refine audits_own (φ.name s1.counter) (φ.deps.flatMap (·.code.stmts))
    [.decl φ.type (φ.name s1.counter) φ.value] hG hn ?_ htidy ha hs1 ?_ hforwards
    (credits_gather hdeps) ?_ rfl rfl rfl (mem_declared_gather.mpr (.inr ⟨cons_ne_nil _ _, rfl⟩))
    mem_concat_self ?_
  · rintro id a b rfl
    cases hφ
  · refine hsupplies.sublist ?_
    obtain ⟨rest, hrest⟩ := hfits.deps
    rw [← hrest, flatMap_append, declares_append]
    exact sublist_append_left ..
  · refine InLoops.append (inLoops_flatMap fun d hd => ?_) fun i b body w a h => ?_
    · obtain ⟨k, hk, -⟩ := hdeps d hd
      exact hk.loops
    · cases mem_singleton.mp h
  · rintro rfl - ho
    obtain ⟨_, _, _, _, _, rfl, -⟩ := hcounted.borrows_of_owns hk ht.grows.counter ho
    cases hφ

theorem audits_broken {a b : Node} {cond value : Generated}
    (ht : Threads ((follows G v).properly G) c [a, b] s [cond, value] s1 t)
    (hg : g = .gather value.type [.breakIf cond.var] value.var [cond, value])
    (ha : s1.Advance c (marks [cond, value] value.var) s') (hn : .breakIf id a b ∈ G.nodes) :
    audits G v (.breakIf id a b) c s g (s'.remember c id g) t := by
  intro htidy hc hcounted hs
  have hgrows := ha.grows.trans (.remember s' c id g)
  obtain ⟨hs1, hcredits, hsupplies, hforwards⟩ :=
    audits_threads ht (htidy.of_grows hgrows) hc hcounted hs
  have hcode : g.code.stmts = [cond, value].flatMap (·.code.stmts) ++ [.breakIf cond.var] := by rw [hg]; rfl
  have hdecl : declares g.code.stmts = declares ([cond, value].flatMap (·.code.stmts)) := by
    rw [hcode, declares_append]
    exact append_nil _
  have hinside (hv : v ∈ declares g.code.stmts) : v ∈ g.declared ∧ ∃ m, s1.Owns G m v ∧
      ∃ j ∈ (Node.breakIf id a b).children, m.Within j := by
    rw [hg]
    refine credits_gather (x := {}) (fun d hd => ?_) (hdecl ▸ hv)
    obtain ⟨k, hk, hd⟩ := hcredits d hd
    exact ⟨k, hd, k, hk, .refl⟩
  have hg' : g.Credits G v (s'.remember c id g) (.breakIf id a b) := by
    refine ⟨fun hv => (hinside hv).1, fun hv => ?_, ?_⟩
    · obtain ⟨-, m, hm, j, hj, hmj⟩ := hinside hv
      exact ⟨m, hm.mono hgrows, .child hj hmj⟩
    · rw [hcode]
      refine InLoops.append (inLoops_flatMap fun d hd => ?_) fun i b body w a h => ?_
      · obtain ⟨k, -, hd⟩ := hcredits d hd
        exact hd.loops
      · cases mem_singleton.mp h
  have hsupplies : Supplies G v c.id s g.code.stmts (s'.remember c id g) :=
    (hsupplies.sublist (hdecl ▸ Sublist.refl _)).after hgrows
  refine ⟨(hs1.advance ha).remember hG hn hg' hsupplies.once fun hne => ?_, hg', hsupplies,
    hforwards.trans (.none hgrows (ha.varyings .fragment))⟩
  rw [hg] at hne ⊢
  exact ha.mem_emitted mem_concat_self hne

theorem audits_loop {count : Node} {gi : Generated} {s4 s5 s6 : Session} {t1 t2 t3 : Trace}
    (hl : s.lookup? c id = none) (hcount : (follows G v).properly G count c s gi s1 t1)
    (ha2 : s1.Advance c [] s2)
    (hbody : (follows G v).properly G body (c.loopBody s2.nextScope) s2.openScope gb s3 t2)
    (hopens : Opens gb start s3 m s4 bind) (hinit : (follows G v).properly G m c s4 gm s5 t3)
    (hg : g = Step.loopResult gi gb (bind gm) s5.counter)
    (ha6 : s5.Advance c (marks [gm, gi] (.name (bind gm).var)) s6)
    (hn : .sumLoop id body count start ∈ G.nodes) :
    audits G v (.sumLoop id body count start) c s g (s6.remember c id g) (t1 ++ (t2 ++ t3)) := by
  intro htidy hc hcounted hs
  have hgrows6 : s5.Grows (s6.remember c id g) := ha6.grows.trans (.remember ..)
  have hgrows2 : s1.Grows s2.openScope := ha2.grows.trans (.openScope s2)
  have hgrows3 : s3.Grows s5 := hopens.grows.trans hinit.1.grows
  have hgrows1 : s1.Grows s3 := hgrows2.trans hbody.1.grows
  have htidy5 := htidy.of_grows hgrows6
  have htidy3 := htidy5.of_grows hgrows3
  have hcounted2 := (hcount.2.1 hcounted).1.congr hgrows2 ha2.memo
  have hcounted4 := (hbody.2.1 hcounted2).1.congr hopens.grows hopens.memo
  have hi := hcount.2.2 (htidy3.of_grows hgrows1) hc hcounted hs
  have hb := hbody.2.2 htidy3 mem_cons_self hcounted2 (hi.audited.advance ha2).openScope
  have hm := hinit.2.2 htidy5 hc hcounted4 (hb.audited.advance (hopens.advance c))
  have hsums (a : AccumulatorDef) (ha : a ∈ gb.accumulators) : a.initial.Within body :=
    hbody.1.sound'.once.within_of_knows hbody.1.mem hbody.1.operand.known ha
  have hcode : g.code.stmts = [gm, gi].flatMap (·.code.stmts) ++ Step.loopStatements gi gb (bind gm) s5.counter := by
    rw [hg, Step.loopResult, hopens.initial]
    rfl
  have hvar : g.var = .name (bind gm).var := by rw [hg]; rfl
  have hdeps : ∀ d ∈ [gm, gi], ∃ k, d.Credits G v s5 k ∧
      ∃ j ∈ (Node.sumLoop id body count start).children, k.Within j := by
    refine forall_mem_cons.mpr ⟨⟨m, hm.credits, hopens.within hsums⟩, forall_mem_singleton.mpr ?_⟩
    exact ⟨count, hi.credits.mono (hgrows1.trans hgrows3), count, by simp [Node.children], .refl⟩
  refine audits_own (bind gm).var ([gm, gi].flatMap (·.code.stmts))
    (Step.loopStatements gi gb (bind gm) s5.counter) hG hn (fun _ _ _ h => by cases h) htidy
    ha6 hm.audited ?_ ?_ ?_ ?_ hcode rfl hvar ?_ mem_concat_self ?_
  · -- the count is evaluated first and stands last
    have h := (hi.supplies.trans (hm.supplies.before (hgrows1.trans hopens.grows))).comm
    rwa [show gm.code.stmts ++ gi.code.stmts = [gm, gi].flatMap (·.code.stmts) by simp] at h
  · have hopen : Forwards G v c s1 s2.openScope := .none hgrows2 (ha2.varyings .fragment)
    have hforwards := (hi.forwards.trans hopen).trans (hb.forwards.of_paired fun hp => hp)
    exact (hforwards.trans (.none hopens.grows hopens.varyings)).trans hm.forwards
  · intro hv
    rw [hg, Step.loopResult, hopens.initial]
    exact credits_gather hdeps hv
  · rw [hcode]
    refine InLoops.append (inLoops_flatMap fun d hd => ?_) fun i b inner w a h => ?_
    · obtain ⟨k, hk, -⟩ := hdeps d hd
      exact hk.loops
    · rcases mem_pair.mp h with h | h
      · cases h
      · cases h
        exact ⟨hb.supplies.once, hb.credits.loops⟩
  · rw [hg]
    exact mem_declared_gather.mpr (.inr ⟨cons_ne_nil _ _, rfl⟩)
  · intro hv hmark
    exact hcounted.loop_not_owns hG hn hc hl (hcount.1.grows.trans hgrows1) hbody.1.coherent' hbody.1.sound'.once
      hbody.1.operand.known hopens hv hmark

theorem audits_accumulator (ha : s.Advance c [] s1)
    (hg : g = (Step.accumulatorForm name start type s1.counter).result s1.bump.counter)
    (hs2 : s2 = (Step.accumulatorForm name start type s1.counter).session c [] s1.bump)
    (hn : .accumulator id name start ∈ G.nodes) :
    audits G v (.accumulator id name start) c s g (s2.remember c id g) [] := by
  intro htidy hc hcounted hs
  subst hg hs2
  have ha' := ha.trans (.bump c s1)
  have hk : Numbered s1.bump.counter ("accum" ++ toString s1.bump.counter) := ⟨"accum", .inl (by decide), rfl⟩
  refine audits_own ("accum" ++ toString s1.bump.counter) [] _ hG hn (fun _ _ _ h => by cases h)
    htidy (Form.advance ..) (hs.advance ha') (.nil ha'.grows) (.none ha'.grows (ha'.varyings .fragment))
    (fun h => absurd h not_mem_nil) ?_ rfl rfl rfl (mem_declared_gather.mpr (.inr ⟨cons_ne_nil _ _, rfl⟩))
    mem_concat_self ?_
  · intro i b body w a h
    cases mem_singleton.mp h
  · rintro rfl - ho
    obtain ⟨_, _, _, _, _, hloop, -⟩ := hcounted.borrows_of_owns hk (Nat.le_succ_of_le ha.counter) ho
    cases hloop

theorem follows_rules (v : String) : ProperRules G (follows G v) where
  immediate hi hr hbare hvs ha hp :=
    ⟨(counts_rules hG).immediate hi hr hbare hvs ha hp, fun _ _ _ hs => audits_nothing hs ha hbare.code⟩
  reuse hm ht ha hp := ⟨(counts_rules hG).reuse hm ht ha hp, fun htidy hc _ hs => audits_takes hp.mem htidy.named hc hs ht⟩
  declared hplain ht hφ hfits hp :=
    ⟨(counts_rules hG).declared hplain (ht.imp fun h => ⟨h.1, h.2.1⟩) hφ hfits hp,
      audits_declared hG hplain ht hφ hfits hp.mem⟩
  broken hc ht hg ha hp :=
    ⟨(counts_rules hG).broken hc (ht.imp fun h => ⟨h.1, h.2.1⟩) hg ha hp, audits_broken hG ht hg ha hp.mem⟩
  loop hl hcount ha2 hbody hopens hinit hg ha6 hp :=
    ⟨(counts_rules hG).loop hl ⟨hcount.1, hcount.2.1⟩ ha2 ⟨hbody.1, hbody.2.1⟩ hopens ⟨hinit.1, hinit.2.1⟩ hg ha6 hp,
      audits_loop hG hl hcount ha2 hbody hopens hinit hg ha6 hp.mem⟩
  accumulator ha hg hs2 hp :=
    ⟨(counts_rules hG).accumulator ha hg hs2 hp, audits_accumulator hG ha hg hs2 hp.mem⟩
  knownFunction hf ha hp :=
    ⟨(counts_rules hG).knownFunction hf ha hp, fun _ _ _ hs => audits_nothing hs ha rfl⟩
  newFunction hb hf ha hp := ⟨(counts_rules hG).newFunction ⟨hb.1, hb.2.1⟩ hf ha hp, audits_function hb hf ha⟩
  varying hc hop hr hp :=
    ⟨(counts_rules hG).varying hc ⟨hop.1, hop.2.1⟩ hr hp, audits_varying hc hop hr⟩

end

/-! ## The blocks of a job -/

theorem loopsOnce_assign : LoopsOnce v [.assign w a] := by
  intro i b body w a h
  cases mem_singleton.mp h

theorem DeclaresOnce.assign (h : DeclaresOnce v ss) : DeclaresOnce v (ss ++ [.assign w a]) := by
  obtain ⟨hcount, hloops⟩ := h
  refine ⟨?_, InLoops.append hloops loopsOnce_assign⟩
  rw [declares_append]
  exact (append_nil _).symm ▸ hcount

theorem declaresOnce_varyings {vs : List VaryingDef} (h : (declares (ss ++ vs.flatMap (·.code))).count v ≤ 1)
    (hss : LoopsOnce v ss) (hvs : ∀ d ∈ vs, LoopsOnce v d.code) :
    DeclaresOnce v (ss ++ ([.assign w a] ++ vs.flatMap (·.statements))) := by
  have hvaryings : declares (vs.flatMap (·.statements)) = declares (vs.flatMap (·.code)) := by
    rw [declares_flatMap, declares_flatMap]
    refine flatMap_congr fun d _ => ?_
    rw [VaryingDef.statements, declares_append]
    exact append_nil _
  refine ⟨?_, hss.append (loopsOnce_assign.append (inLoops_flatMap fun d hd => (hvs d hd).append loopsOnce_assign))⟩
  rw [declares_append, declares_append, hvaryings]
  rwa [declares_append] at h

/-- In a job without errors a variable with one owner is declared at most once in a block, and in the body of
each loop. -/
theorem compiled_declaresOnce (hG : G.Shared) (hv : vertex ∈ G.nodes) (hf : fragment ∈ G.nodes)
    (hr : compiled vertex fragment o.folding nextId = r)
    (herr : (compilePair vertex fragment o nextId).error? = none) (hsole : r.session.Sole G v)
    (hnamed : r.session.Named) : ∀ block ∈ r.blocks, DeclaresOnce v block := by
  have hhas {f : Function} := compiled_has (f := f) hr
  obtain ⟨gv, gf, s1, s2, tv, tf, rfl, hvertex, hfragment⟩ :=
    compiled_properly hG ((follows_rules hG v).everywhere hG) hv hf hr herr
  have htidy : s2.Tidy G v := ⟨hsole, hnamed⟩
  have hgrows := hfragment.1.grows
  have hcounted := Session.Counted.initial G nextId o.folding
  have h1 := hvertex.2.2 (htidy.of_grows hgrows) (by decide) hcounted
    (.initial G v nextId o.folding)
  have h2 := hfragment.2.2 htidy (by decide) (hvertex.2.1 hcounted).1 h1.audited
  intro block hblock
  rcases mem_cons.mp hblock with rfl | hblock
  · -- the main of the vertex stage computes the varyings of the fragment stage too
    obtain ⟨new, hnew, hnone, -⟩ := h1.forwards
    obtain ⟨new', hnew', -, hsupplies⟩ := h2.forwards
    have hvaryings : s2.fragment.varyings = new' := by
      rw [hnew', hnew, hnone fun hp => by cases hp.1]
      rfl
    rw [← hvaryings] at hsupplies
    have hall := h1.supplies.trans hsupplies
    exact declaresOnce_varyings hall.once h1.credits.loops h2.audited.varyings
  rcases mem_cons.mp hblock with rfl | hblock
  · exact DeclaresOnce.assign ⟨h2.supplies.once, h2.credits.loops⟩
  · obtain ⟨f, hf, rfl⟩ := mem_map.mp hblock
    obtain ⟨id, hf⟩ := hhas hf
    exact (h2.audited.functions _ hf).assign

end ShaderGraph
