import ShaderGraph.Proofs.Sharing

/-!
# Declarations and marks

What keeps scopes from declaring a variable twice. `Ledger` says what a session knows of the
names that are marked as declared and of the results that it remembers; `Handed` says what an
evaluation keeps of it, and that the variables its code declares are new to the scope and marked
from then on. A loop takes the number of its variable before it evaluates its initial value, so
all of this is relative to a set of numbers that may be used.
-/

namespace ShaderGraph

open Eval List

variable {id : NodeId} {name v : String} {body m start : Node} {K' : Nat → Prop} {k : Nat} {c : Scope}
  {s s' s2 s3 s1 : Session} {vs : List String} {g gb : Generated} {f : Function} {ns : List Node}
  {gs deps : List Generated} {type : GlType} {own : List Stmt} {x : Extras}

/-! ## Declarations of code -/

/-- The variable that a statement declares at its own level. -/
def Stmt.declares : Stmt → List String
  | .decl _ v _ => [v]
  | .breakIf _ | .loop .. | .assign .. | .verbatim _ => []

/-- The variables that statements declare at their own level. -/
def declares (ss : List Stmt) : List String := ss.flatMap Stmt.declares

theorem declares_append (ss ts : List Stmt) : declares (ss ++ ts) = declares ss ++ declares ts :=
  flatMap_append

theorem declares_flatMap {α : Type} (xs : List α) (f : α → List Stmt) :
    declares (xs.flatMap f) = xs.flatMap fun x => declares (f x) :=
  flatMap_assoc

/-- No variable is declared twice at one level, nor in the body of a loop. -/
inductive Tidy : List Stmt → Prop where
  | intro {ss : List Stmt} (nodup : (declares ss).Nodup)
      (loops : ∀ i b body v a, Stmt.loop i b body v a ∈ ss → Tidy body) : Tidy ss

/-- The bodies of all loops have a property. -/
def InLoops (P : List Stmt → Prop) (ss : List Stmt) : Prop := ∀ i b body v a, Stmt.loop i b body v a ∈ ss → P body

abbrev LoopsTidy : List Stmt → Prop := InLoops Tidy

section
variable {P : List Stmt → Prop}

theorem inLoops_nil : InLoops P [] := fun _ _ _ _ _ h => by cases h

theorem InLoops.append {ss ts : List Stmt} (hs : InLoops P ss) (ht : InLoops P ts) : InLoops P (ss ++ ts) :=
  fun i b body v a h => (mem_append.mp h).elim (hs i b body v a) (ht i b body v a)

theorem inLoops_flatMap {α : Type} {xs : List α} {f : α → List Stmt} (h : ∀ x ∈ xs, InLoops P (f x)) :
    InLoops P (xs.flatMap f) := by
  intro i b body v a hm
  obtain ⟨x, hx, hm⟩ := mem_flatMap.mp hm
  exact h x hx i b body v a hm

end

/-! ## Names in use -/

/-- A name with a number below `bound` that may be used, a name without a number, or the name of a
function. -/
def Known (G : Graph) (K : Nat → Prop) (bound : Nat) (v : String) : Prop :=
  ∀ k, Numbered k v → k < bound ∧ K k ∨ G.IsFunction v

/-- Mentions a parameter or a running sum that is not bound by a function below the node. -/
inductive Node.Open : Node → Prop where
  | accumulator (id : NodeId) (name : String) (start : Node) : Open (.accumulator id name start)
  | argument (id : NodeId) (name : String) (index : Int) (type : GlType) :
      Open (.argument id name index type)
  | child {n m : Node} (hm : m ∈ n.children) (hn : ∀ id name body, n ≠ .defun id name body)
      (h : Open m) : Open n

theorem Node.not_open_defun : ¬ (Node.defun id name body).Open := fun h => by
  cases h with
  | child _ hn => exact hn _ _ _ rfl

theorem Node.open_iff {n : Node} (ha : ∀ id name start, n ≠ .accumulator id name start)
    (hp : ∀ id name index type, n ≠ .argument id name index type)
    (hd : ∀ id name body, n ≠ .defun id name body) : n.Open ↔ ∃ m ∈ n.children, m.Open := by
  refine ⟨fun h => ?_, fun ⟨m, hm, h⟩ => .child hm hd h⟩
  cases h with
  | accumulator => exact absurd rfl (ha _ _ _)
  | argument => exact absurd rfl (hp _ _ _ _)
  | child hm _ h => exact ⟨_, hm, h⟩

section
variable {G : Graph} {K : Nat → Prop}

theorem Known.mono {m n : Nat} (h : Known G K m v) (hmn : m ≤ n) (hK : ∀ k, k < m → K k → K' k) :
    Known G K' n v :=
  fun k hk => (h k hk).imp_left fun ⟨hlt, hk⟩ => ⟨Nat.lt_of_lt_of_le hlt hmn, hK k hlt hk⟩

theorem known_of_numbered {n : Nat} (hv : Numbered k v) (hk : k < n) (hK : K k) : Known G K n v := by
  intro j hj
  cases hj.unique hv
  exact .inl ⟨hk, hK⟩

theorem known_of_isResource (h : IsResource v) (n : Nat) : Known G K n v :=
  fun k hk => absurd hk (h.not_numbered k)

/-! ## Placing declarations in a scope -/

/-- A name with a number below `bound` that may be used. -/
def Named (K : Nat → Prop) (bound : Nat) (v : String) : Prop := ∃ k, Numbered k v ∧ k < bound ∧ K k

theorem Named.mono {m n : Nat} (h : Named K m v) (hmn : m ≤ n) (hK : ∀ k, k < m → K k → K' k) : Named K' n v := by
  obtain ⟨k, hk, hlt, h⟩ := h
  exact ⟨k, hk, Nat.lt_of_lt_of_le hlt hmn, hK k hlt h⟩

/-- Between two sessions a scope is given a name: it is new to the scope or has a new number, and is
marked afterwards. -/
structure Newly (K : Nat → Prop) (c : Scope) (s : Session) (v : String) (s' : Session) : Prop where
  named : Named K s'.counter v
  new : ¬ s.isEmitted c v ∨ ∃ k, Numbered k v ∧ s.counter ≤ k
  marked : (c.id, v) ∈ s'.emitted

namespace Newly

theorem after (h : Newly K c s v s1) (hg : s1.Grows s2) : Newly K c s v s2 :=
  ⟨h.named.mono hg.counter fun _ _ => id, h.new, hg.emitted.subset h.marked⟩

theorem before (h : Newly K c s1 v s2) (hg : s.Grows s1) : Newly K c s v s2 :=
  { h with
    new := h.new.imp (fun hn he => hn (Session.isEmitted_mono hg.emitted.subset he))
      fun ⟨k, hk, hle⟩ => ⟨k, hk, Nat.le_trans hg.counter hle⟩ }

/-- What is given later is another name. -/
theorem ne (hc : c.id ∈ c.visible) {w : String} (h : Newly K c s v s1) (h' : Newly K c s1 w s2) : v ≠ w := by
  rintro rfl
  obtain ⟨k, hk, hlt, -⟩ := h.named
  rcases h'.new with hn | ⟨j, hj, hle⟩
  · exact hn (Session.isEmitted_iff.mpr ⟨c.id, hc, h.marked⟩)
  · cases hk.unique hj
    omega

end Newly

/-- Between two sessions a scope is given declarations of `vs`. -/
structure Placed (K : Nat → Prop) (c : Scope) (s : Session) (vs : List String) (s' : Session) :
    Prop where
  grows : s.Grows s'
  nodup : vs.Nodup
  newly : ∀ v ∈ vs, Newly K c s v s'

namespace Placed

variable {ws : List String}

theorem nil (hg : s.Grows s') : Placed K c s [] s' := ⟨hg, nodup_nil, forall_mem_nil _⟩

theorem before (h : Placed K c s1 vs s2) (hg : s.Grows s1) : Placed K c s vs s2 :=
  ⟨hg.trans h.grows, h.nodup, fun v hv => (h.newly v hv).before hg⟩

section
variable (h : Placed K c s vs s1)
include h

theorem after (hg : s1.Grows s2) : Placed K c s vs s2 :=
  ⟨h.grows.trans hg, h.nodup, fun v hv => (h.newly v hv).after hg⟩

theorem sublist (hw : ws.Sublist vs) : Placed K c s ws s1 :=
  ⟨h.grows, h.nodup.sublist hw, fun v hv => h.newly v (hw.subset hv)⟩

theorem perm (hw : vs.Perm ws) : Placed K c s ws s1 :=
  ⟨h.grows, hw.nodup h.nodup, fun v hv => h.newly v (hw.mem_iff.mpr hv)⟩

theorem concat (hg : s1.Grows s2) (hv : Numbered k v) (hfresh : v ∉ vs) (hle : s.counter ≤ k)
    (hlt : k < s2.counter) (hK : K k) (hm : (c.id, v) ∈ s2.emitted) : Placed K c s (vs ++ [v]) s2 where
  grows := h.grows.trans hg
  nodup := by
    refine nodup_append.mpr ⟨h.nodup, nodup_singleton v, ?_⟩
    rintro w hw x hx rfl
    exact hfresh (mem_singleton.mp hx ▸ hw)
  newly := forall_mem_append.mpr ⟨(h.after hg).newly,
    forall_mem_singleton.mpr ⟨⟨k, hv, hlt, hK⟩, .inr ⟨k, hv, hle⟩, hm⟩⟩

theorem not_mem (hv : Numbered k v) (hk : s1.counter ≤ k ∨ ¬ K k) : v ∉ vs := by
  intro hmem
  obtain ⟨j, hj, hlt, hK⟩ := (h.newly v hmem).named
  cases hv.unique hj
  rcases hk with hk | hk
  · omega
  · exact hk hK

theorem imp (hK : ∀ k, K k → K' k) : Placed K' c s vs s1 :=
  { h with
    newly := fun v hv => { h.newly v hv with
      named := (h.newly v hv).named.mono (Nat.le_refl _) fun k _ => hK k } }

end

theorem append (hc : c.id ∈ c.visible) (h : Placed K c s vs s1) (h' : Placed K c s1 ws s2) :
    Placed K c s (vs ++ ws) s2 where
  grows := h.grows.trans h'.grows
  nodup := nodup_append.mpr ⟨h.nodup, h'.nodup, fun v hv w hw => (h.newly v hv).ne hc (h'.newly w hw)⟩
  newly := forall_mem_append.mpr ⟨(h.after h'.grows).newly, (h'.before h.grows).newly⟩

end Placed

/-- A scope that sees itself only. -/
def Scope.only (id : ScopeId) : Scope := { id, stage := .vertex, visible := [id] }

theorem Placed.only (hc : c.id ∈ c.visible) (h : Placed K c s vs s') : Placed K (.only c.id) s vs s' where
  grows := h.grows
  nodup := h.nodup
  newly v hv := { h.newly v hv with
    new := by
      refine (h.newly v hv).new.imp_left fun hn he => hn ?_
      obtain ⟨id, hid, hm⟩ := Session.isEmitted_iff.mp he
      exact Session.isEmitted_iff.mpr ⟨id, mem_singleton.mp hid ▸ hc, hm⟩ }

/-! ## The ledger -/

/-- A result whose code declares numbered variables, each once and all of them listed. -/
structure Tame (G : Graph) (K : Nat → Prop) (bound : Nat) (g : Generated) : Prop where
  nodup : (declares g.code.stmts).Nodup
  named : ∀ v ∈ declares g.code.stmts, Named K bound v
  subset : declares g.code.stmts ⊆ g.declared
  loops : LoopsTidy g.code.stmts
  declared : ∀ v ∈ g.declared, Known G K bound v
  var : Known G K bound g.var.text
  empty : g.var.text = "" → G.IsFunction ""

/-- A result captures what its surroundings bind. -/
def Generated.Captures (g : Generated) : Prop := g.arguments ≠ [] ∨ g.accumulators ≠ []

/-- What is known of a remembered result: unless its code declares nothing, its variable is marked
in the scope that it comes from. -/
structure Entry (G : Graph) (K : Nat → Prop) (s : Session) (id : NodeId) (e : MemoEntry) : Prop where
  tame : Tame G K s.counter e.generated
  marked : (e.scope, e.generated.var.text) ∈ s.emitted ∨ declares e.generated.code.stmts = []
  captures : e.generated.Captures → ∃ n ∈ G.nodes, n.id = id ∧ n.Open

structure Ledger (G : Graph) (K : Nat → Prop) (s : Session) : Prop where
  nonempty : ∀ p ∈ s.emitted, p.2 ≠ ""
  emitted : ∀ p ∈ s.emitted, Known G K s.counter p.2
  memo : ∀ p ∈ s.memo, Entry G K s p.1 p.2
  functions : ∀ p ∈ s.functions, G.IsFunction p.2.name ∧ Tidy p.2.body

theorem Tame.mono {m n : Nat} (h : Tame G K m g) (hmn : m ≤ n) (hK : ∀ k, k < m → K k → K' k) : Tame G K' n g :=
  { h with
    named := fun v hv => (h.named v hv).mono hmn hK
    declared := fun v hv => (h.declared v hv).mono hmn hK
    var := h.var.mono hmn hK }

theorem Tame.reference {n : Nat} (h : Tame G K n g) : Tame G K n g.reference :=
  { h with
    nodup := nodup_nil
    named := forall_mem_nil _
    subset := nil_subset _
    loops := inLoops_nil }

theorem tame_of_stmts_eq_nil {n : Nat} (hcode : g.code.stmts = []) (hdecl : g.declared = [])
    (hvar : Known G K n g.var.text) (hempty : g.var.text = "" → G.IsFunction "") : Tame G K n g where
  nodup := by simp [hcode, declares]
  named := by simp [hcode, declares]
  subset := by simp [hcode, declares]
  loops := by rw [hcode]; exact inLoops_nil
  declared := by simp [hdecl]
  var := hvar
  empty := hempty

theorem tame_of_bare (h : g.Bare) (n : Nat) : Tame G K n g := by
  by_cases hname : ∃ r, g.var = .name r
  · obtain ⟨r, hr⟩ := hname
    have hres := h.var r hr
    refine tame_of_stmts_eq_nil h.code h.declared ?_ ?_
    · rw [hr]
      exact known_of_isResource hres n
    · rw [hr]
      exact fun he => absurd he hres.ne_empty
  · have hforeign := Atom.text_endsForeign fun r hr => hname ⟨r, hr⟩
    exact tame_of_stmts_eq_nil h.code h.declared (fun k hk => absurd hk (hforeign.not_numbered k))
      fun he => absurd he hforeign.ne_empty

namespace Ledger
variable (h : Ledger G K s)
include h

theorem advance (ha : s.Advance c vs s') (hvs : ∀ v ∈ vs, Known G K s'.counter v) : Ledger G K s' where
  nonempty := by
    rw [ha.emitted]
    intro p hp
    rcases mem_append.mp hp with hp | hp
    · obtain ⟨v, hv, rfl⟩ := mem_map.mp hp
      simpa using (mem_filter.mp hv).2
    · exact h.nonempty p hp
  emitted p hp := (ha.of_mem_emitted hp).elim (fun hp => (h.emitted p hp).mono ha.counter fun _ _ => id)
    fun hp => hvs _ hp.2
  memo := by
    rw [ha.memo]
    intro p hp
    have he := h.memo p hp
    refine ⟨he.tame.mono ha.counter fun _ _ => id, he.marked.imp_left fun hm => ?_, he.captures⟩
    rw [ha.emitted]
    exact mem_append_right _ hm
  functions := by
    rw [ha.functions]
    exact h.functions

theorem quiet (ha : s.Advance c [] s') : Ledger G K s' :=
  h.advance ha fun _ hv => (nomatch hv)

theorem openScope : Ledger G K s.openScope :=
  ⟨h.nonempty, h.emitted, fun p hp => { h.memo p hp with }, h.functions⟩

theorem define (id : NodeId) (hf : G.IsFunction f.name) (hb : Tidy f.body) :
    Ledger G K { s with functions := (id, f) :: s.functions } where
  nonempty := h.nonempty
  emitted := h.emitted
  memo p hp := { h.memo p hp with }
  functions p hp := by
    rcases mem_cons.mp hp with rfl | hp
    · exact ⟨hf, hb⟩
    · exact h.functions p hp

theorem remember {n : Node} (hn : n ∈ G.nodes) (htame : Tame G K s.counter g)
    (hmark : (c.id, g.var.text) ∈ s.emitted ∨ declares g.code.stmts = []) (hcap : g.Captures → n.Open) :
    Ledger G K (s.remember c n.id g) where
  nonempty := h.nonempty
  emitted := h.emitted
  memo p hp := by
    rcases mem_cons.mp hp with rfl | hp
    · exact ⟨htame, hmark, fun hc => ⟨n, hn, rfl, hcap hc⟩⟩
    · exact { h.memo p hp with }
  functions := h.functions

theorem imp (hK : ∀ k, k < s.counter → K k → K' k) : Ledger G K' s where
  nonempty := h.nonempty
  emitted p hp := (h.emitted p hp).mono (Nat.le_refl _) hK
  memo p hp := { h.memo p hp with tame := (h.memo p hp).tame.mono (Nat.le_refl _) hK }
  functions := h.functions

theorem addVarying (stage : Stage) (v : VaryingDef) : Ledger G K (s.updateRegistry stage (·.addVarying v)) := by
  cases stage <;> exact ⟨h.nonempty, h.emitted, fun p hp => { h.memo p hp with }, h.functions⟩

end Ledger

theorem Placed.not_isEmitted (h : Placed K c s vs s') (hl : Ledger G K s) (hv : v ∈ vs)
    (hname : ¬ G.IsFunction v) : ¬ s.isEmitted c v := by
  rcases (h.newly v hv).new with hn | ⟨k, hk, hle⟩
  · exact hn
  · intro he
    obtain ⟨id, -, hm⟩ := Session.isEmitted_iff.mp he
    rcases hl.emitted _ hm k hk with ⟨hlt, -⟩ | hf
    · exact absurd hlt (Nat.not_lt.mpr hle)
    · exact hname hf

/-! ## Varyings -/

/-- The variables that the code of varyings declares. -/
def passedDeclares (vs : List VaryingDef) : List String := vs.flatMap fun v => declares v.code

/-- The varyings that are registered between two sessions place declarations in the vertex stage.
Only a fragment stage beside it registers any. -/
def Passed (K : Nat → Prop) (c : Scope) (s s' : Session) : Prop :=
  ∃ new, s'.fragment.varyings = s.fragment.varyings ++ new ∧ (¬ c.Paired → new = []) ∧
    Placed K .vertexMain s (passedDeclares new) s' ∧ ∀ v ∈ new, LoopsTidy v.code

namespace Passed

theorem same (hg : s.Grows s1) (h : s1.fragment.varyings = s.fragment.varyings) : Passed K c s s1 :=
  ⟨[], by simpa using h, fun _ => rfl, .nil hg, forall_mem_nil _⟩

theorem ofAdvance {c' : Scope} (h : s.Advance c' vs s1) : Passed K c s s1 :=
  same h.grows (h.varyings .fragment)

theorem trans (h : Passed K c s s1) (h' : Passed K c s1 s2) : Passed K c s s2 := by
  obtain ⟨new, hv, hc, hp, hl⟩ := h
  obtain ⟨new', hv', hc', hp', hl'⟩ := h'
  refine ⟨new ++ new', ?_, ?_, ?_, ?_⟩
  · rw [hv', hv, append_assoc]
  · intro hn
    rw [hc hn, hc' hn]
    rfl
  · rw [passedDeclares, flatMap_append]
    exact hp.append (by decide) hp'
  · intro v hv
    exact (mem_append.mp hv).elim (hl v) (hl' v)

theorem imp (h : Passed K c s s1) (hK : ∀ k, K k → K' k) : Passed K' c s s1 := by
  obtain ⟨new, hv, hc, hp, hl⟩ := h
  exact ⟨new, hv, hc, hp.imp hK, hl⟩

end Passed

/-! ## What evaluation keeps -/

/-- What an evaluation keeps of the ledger, and what it hands to its scope. -/
structure Handed (G : Graph) (K : Nat → Prop) (n : Node) (c : Scope) (s : Session) (g : Generated)
    (s' : Session) : Prop where
  ledger : Ledger G K s'
  tame : Tame G K s'.counter g
  placed : Placed K c s (declares g.code.stmts) s'
  marked : (c.id, g.var.text) ∈ s'.emitted ∨ declares g.code.stmts = []
  captures : g.Captures → n.Open
  passed : Passed K c s s'

def handed (G : Graph) : Judgement := fun n c s g s' _ =>
  n ∈ G.nodes → c.id ∈ c.visible → ∀ K : Nat → Prop, (∀ k, s.counter ≤ k → K k) → Ledger G K s →
    Handed G K n c s g s'

/-- The same for operands that are evaluated one after another. -/
structure HandedAll (G : Graph) (K : Nat → Prop) (ns : List Node) (c : Scope) (s : Session)
    (gs : List Generated) (s' : Session) : Prop where
  ledger : Ledger G K s'
  placed : Placed K c s (gs.flatMap fun g => declares g.code.stmts) s'
  passed : Passed K c s s'
  tame : ∀ g ∈ gs, Tame G K s'.counter g
  marked : ∀ g ∈ gs, (c.id, g.var.text) ∈ s'.emitted ∨ declares g.code.stmts = []
  captures : ∀ g ∈ gs, g.Captures → ∃ n ∈ ns, n.Open

theorem handed_threads {t : Trace} (h : Threads (grows.both (handed G)) c ns s gs s' t)
    (hns : ∀ n ∈ ns, n ∈ G.nodes) (hc : c.id ∈ c.visible) (hK : ∀ k, s.counter ≤ k → K k) (hl : Ledger G K s) :
    HandedAll G K ns c s gs s' := by
  induction h with
  | nil =>
    exact ⟨hl, .nil (.refl _), .same (.refl _) rfl, forall_mem_nil _, forall_mem_nil _,
      forall_mem_nil _⟩
  | @cons n ns s s1 s2 g gs t ts hn hrest ih =>
    obtain ⟨hmem, hns⟩ := forall_mem_cons.mp hns
    have h1 := hn.2 hmem hc K hK hl
    have h2 := ih hns (fun k hk => hK k (Nat.le_trans hn.1.counter hk)) h1.ledger
    have hg := h2.placed.grows
    refine ⟨h2.ledger, h1.placed.append hc h2.placed, h1.passed.trans h2.passed,
      forall_mem_cons.mpr ⟨h1.tame.mono hg.counter fun _ _ => id, h2.tame⟩,
      forall_mem_cons.mpr ⟨h1.marked.imp_left (hg.emitted.subset ·), h2.marked⟩, ?_⟩
    · intro d hd hcap
      rcases mem_cons.mp hd with rfl | hd
      · exact ⟨n, mem_cons_self, h1.captures hcap⟩
      · obtain ⟨m, hm, ho⟩ := h2.captures d hd hcap
        exact ⟨m, mem_cons_of_mem _ hm, ho⟩

theorem handedAll_nil (ha : s.Advance c [] s') (hl : Ledger G K s) : HandedAll G K [] c s [] s' :=
  ⟨hl.quiet ha, .nil ha.grows, .ofAdvance ha, forall_mem_nil _, forall_mem_nil _,
    forall_mem_nil _⟩

theorem Handed.remember {n : Node} (hn : n ∈ G.nodes) (h : Handed G K n c s g s') :
    Handed G K n c s g (s'.remember c n.id g) where
  ledger := h.ledger.remember hn h.tame h.marked h.captures
  tame := h.tame
  placed := h.placed.after (.remember ..)
  marked := h.marked
  captures := h.captures
  passed :=
    have ⟨new, hv, hc, hp, hl⟩ := h.passed
    ⟨new, hv, hc, hp.after (.remember ..), hl⟩

theorem captures_extend_gather {v : Atom} (h : ((Generated.gather type own v deps).extend x).Captures) :
    (∃ d ∈ deps, d.Captures) ∨ x.arguments ≠ [] ∨ x.accumulators ≠ [] := by
  rcases h with h | h
  · obtain ⟨a, ha⟩ := exists_mem_of_ne_nil _ h
    rcases mem_adjoin_foldl ha with ⟨d, hd, ha⟩ | ha
    · exact .inl ⟨d, hd, .inl (ne_nil_of_mem ha)⟩
    · exact .inr (.inl (ne_nil_of_mem ha))
  · obtain ⟨a, ha⟩ := exists_mem_of_ne_nil _ h
    rcases mem_adjoin_foldl ha with ⟨d, hd, ha⟩ | ha
    · exact .inl ⟨d, hd, .inr (ne_nil_of_mem ha)⟩
    · exact .inr (.inr (ne_nil_of_mem ha))

theorem mem_declared_gather {v : Atom} {w : String} :
    w ∈ ((Generated.gather type own v deps).extend x).declared ↔
      (∃ d ∈ deps, w ∈ d.declared) ∨ own ≠ [] ∧ w = v.text := by
  have hfold : w ∈ deps.foldl (fun acc d => adjoin acc d.declared) [] ↔ ∃ d ∈ deps, w ∈ d.declared := by
    rw [mem_foldl_adjoin_iff]
    simp
  cases own with
  | nil => simpa [Generated.gather, Generated.extend] using hfold
  | cons st own => simp [Generated.gather, Generated.extend, mem_adjoin_iff, hfold]

theorem tame_gather {v : Atom} {n : Nat} (hdeps : ∀ d ∈ deps, Tame G K n d)
    (hown : ∀ w ∈ declares own, w = v.text) (hnodup : (declares (deps.flatMap (·.code.stmts) ++ own)).Nodup)
    (hnamed : ∀ w ∈ declares own, Named K n w) (hloops : LoopsTidy own)
    (hvar : Known G K n v.text) (hempty : v.text = "" → G.IsFunction "") :
    Tame G K n ((Generated.gather type own v deps).extend x) := by
  have hmem {w : String} (hw : w ∈ declares (deps.flatMap (·.code.stmts) ++ own)) :
      (∃ d ∈ deps, w ∈ declares d.code.stmts) ∨ w ∈ declares own := by
    rw [declares_append, declares_flatMap] at hw
    simpa using hw
  exact
    { nodup := hnodup
      named := fun w hw => (hmem hw).elim (fun ⟨d, hd, hw⟩ => (hdeps d hd).named w hw) (hnamed w)
      subset := fun w hw => mem_declared_gather.mpr <| (hmem hw).imp
        (fun ⟨d, hd, hw⟩ => ⟨d, hd, (hdeps d hd).subset hw⟩)
        fun hw => ⟨ne_nil_of_mem (mem_flatMap.mp hw).choose_spec.1, hown w hw⟩
      loops := .append (inLoops_flatMap fun d hd => (hdeps d hd).loops) hloops
      declared := fun w hw => (mem_declared_gather.mp hw).elim
        (fun ⟨d, hd, hw⟩ => (hdeps d hd).declared w hw) fun ⟨_, hw⟩ => hw ▸ hvar
      var := hvar
      empty := hempty }

/-! ## One lemma for each way an evaluation can go -/

section
variable {n : Node}

theorem handed_of_bare (hl : Ledger G K s) (hg : g.Bare) (hvs : ∀ v ∈ vs, IsResource v) (ha : s.Advance c vs s') :
    Handed G K n c s g s' where
  ledger := hl.advance ha fun v hv => known_of_isResource (hvs v hv) _
  tame := tame_of_bare hg _
  placed := by rw [hg.code]; exact .nil ha.grows
  marked := .inr (by rw [hg.code]; rfl)
  captures h := by simp [Generated.Captures, hg.arguments, hg.accumulators] at h
  passed := .ofAdvance ha

theorem handed_of_takes (hshared : G.Shared) (hn : n ∈ G.nodes) (hc : c.id ∈ c.visible)
    (hl : Ledger G K s) (ht : s.Takes c n.id g s') : Handed G K n c s g s' := by
  have hentry {e : MemoEntry} (he : s.memo.lookup n.id = some e) : Entry G K s n.id e :=
    hl.memo _ (mem_of_lookup he)
  have hopen {e : MemoEntry} (he : s.memo.lookup n.id = some e) : e.generated.Captures → n.Open := by
    intro h
    obtain ⟨m, hm, hid, ho⟩ := (hentry he).captures h
    exact hshared m hm n hn hid ▸ ho
  cases ht with
  | @reference e he hv =>
    exact ⟨hl, (hentry he).tame.reference, .nil (.refl s), .inr rfl, hopen he, .same (.refl s) rfl⟩
  | @again e he hv hscope =>
    have hnone : declares e.generated.code.stmts = [] := by
      refine (hentry he).marked.resolve_left fun hm => hv ?_
      exact Session.isEmitted_iff.mpr ⟨c.id, hc, hscope ▸ hm⟩
    exact ⟨hl, (hentry he).tame, by rw [hnone]; exact .nil (.refl s), .inr hnone, hopen he, .same (.refl s) rfl⟩
  | @whole e he hv hscope hd =>
    have ha := Session.Advance.take s c e.generated
    have htame := (hentry he).tame.mono ha.counter fun _ _ => id
    refine ⟨hl.advance ha ?_, htame, ⟨ha.grows, htame.nodup, fun v hv => ?_⟩, ?_, hopen he, .ofAdvance ha⟩
    · exact forall_mem_append.mpr ⟨htame.declared, forall_mem_singleton.mpr htame.var⟩
    · have hlisted := htame.subset hv
      obtain ⟨k, hk, -, -⟩ := htame.named v hv
      exact ⟨htame.named v hv, .inl (hd v hlisted), ha.mem_emitted (mem_append_left _ hlisted) hk.ne_empty⟩
    · rcases (hentry he).marked with hm | hm
      · exact .inl (ha.mem_emitted mem_concat_self
          (hl.nonempty _ hm))
      · exact .inr hm

theorem known_marks {v : Atom} {bound : Nat} (hdeps : ∀ d ∈ deps, Known G K bound d.var.text)
    (hv : Known G K bound v.text) : ∀ w ∈ marks deps v, Known G K bound w := by
  intro w hw
  rcases mem_append.mp hw with hw | hw
  · obtain ⟨d, hd, rfl⟩ := mem_map.mp hw
    exact hdeps d (mem_filter.mp hd).1
  · exact mem_singleton.mp hw ▸ hv

theorem handed_form {φ : Form} (es : List GraphError) (h : HandedAll G K ns c s gs s1) (hdeps : φ.deps <+: gs)
    (hbase : IsBase φ.base) (hK : K s1.counter) (hns : ∀ m ∈ ns, m.Open → n.Open)
    (hx : φ.extras.arguments ≠ [] ∨ φ.extras.accumulators ≠ [] → n.Open) :
    Handed G K n c s (φ.result s1.counter) (φ.session c es s1) := by
  have ha := φ.advance c es s1
  have hlt : s1.counter < (φ.session c es s1).counter := by
    have := φ.session_counter c es s1
    omega
  have hnum : Numbered s1.counter (φ.name s1.counter) := ⟨φ.base, hbase, rfl⟩
  have hknown : Known G K (φ.session c es s1).counter (φ.name s1.counter) :=
    known_of_numbered hnum hlt hK
  have htame : ∀ d ∈ φ.deps, Tame G K (φ.session c es s1).counter d := fun d hd =>
    (h.tame d (hdeps.subset hd)).mono ha.counter fun _ _ => id
  have hmark : (c.id, φ.name s1.counter) ∈ (φ.session c es s1).emitted :=
    ha.mem_emitted mem_concat_self hnum.ne_empty
  have hplaced : Placed K c s (declares (φ.result s1.counter).code.stmts) (φ.session c es s1) := by
    have hsub : (φ.deps.flatMap fun g => declares g.code.stmts).Sublist
        (gs.flatMap fun g => declares g.code.stmts) := by
      obtain ⟨rest, rfl⟩ := hdeps
      rw [flatMap_append]
      exact sublist_append_left ..
    change Placed K c s (declares (φ.deps.flatMap (·.code.stmts) ++
      [.decl φ.type (φ.name s1.counter) φ.value])) _
    rw [declares_append, declares_flatMap]
    have hdeps := h.placed.sublist hsub
    exact hdeps.concat ha.grows hnum (hdeps.not_mem hnum (.inl (Nat.le_refl _))) hdeps.grows.counter hlt hK hmark
  refine ⟨h.ledger.advance ha ?_, ?_, hplaced, .inl hmark, ?_, ?_⟩
  · exact known_marks (fun d hd => (htame d hd).var) hknown
  · exact tame_gather htame (fun w hw => mem_singleton.mp hw) hplaced.nodup
      (fun w hw => ⟨_, mem_singleton.mp hw ▸ hnum, hlt, hK⟩)
      (fun _ _ _ _ _ hm => by cases mem_singleton.mp hm) hknown
      fun he => absurd he hnum.ne_empty
  · intro hcap
    rcases captures_extend_gather hcap with ⟨d, hd, hcap⟩ | hcap
    · obtain ⟨m, hm, ho⟩ := h.captures d (hdeps.subset hd) hcap
      exact hns m hm ho
    · exact hx hcap
  · exact h.passed.trans (.ofAdvance ha)

theorem handed_break {cond value : Generated} (es : List GraphError) (h : HandedAll G K ns c s [cond, value] s1)
    (hempty : ¬ G.IsFunction "") (hns : ∀ m ∈ ns, m.Open → n.Open) :
    Handed G K n c s (.gather value.type [.breakIf cond.var] value.var [cond, value])
      ((s1.report c es).mark c (marks [cond, value] value.var)) := by
  have ha := Session.Advance.thenMark (.report c s1 es) (marks [cond, value] value.var)
  have htame : ∀ d ∈ [cond, value], Tame G K
      ((s1.report c es).mark c (marks [cond, value] value.var)).counter d := fun d hd =>
    (h.tame d hd).mono ha.counter fun _ _ => id
  have hvalue := htame value (by simp)
  have hcode : declares ([cond, value].flatMap (·.code.stmts) ++ [.breakIf cond.var]) =
      [cond, value].flatMap fun g => declares g.code.stmts := by
    rw [declares_append, declares_flatMap]
    exact append_nil _
  refine ⟨h.ledger.advance ha (known_marks (fun d hd => (htame d hd).var) hvalue.var), ?_, ?_, ?_, ?_,
    h.passed.trans (.ofAdvance ha)⟩
  · refine tame_gather (x := {}) htame (fun w hw => by cases hw) ?_ (fun w hw => by cases hw)
      (fun _ _ _ _ _ hm => by cases mem_singleton.mp hm) hvalue.var hvalue.empty
    rw [hcode]
    exact h.placed.nodup
  · change Placed K c s (declares ([cond, value].flatMap (·.code.stmts) ++ [.breakIf cond.var])) _
    rw [hcode]
    exact h.placed.after ha.grows
  · exact .inl (ha.mem_emitted mem_concat_self
      fun he => hempty (hvalue.empty he))
  · intro hcap
    rcases captures_extend_gather (x := {}) hcap with ⟨d, hd, hcap⟩ | hcap
    · obtain ⟨m, hm, ho⟩ := h.captures d hd hcap
      exact hns m hm ho
    · simp at hcap

theorem handed_failed (h : HandedAll G K ns c s gs s1) (hg : g ∈ gs ∨ g = .float 0) (ha : s1.Advance c [] s')
    (hns : ∀ m ∈ ns, m.Open → n.Open) : Handed G K n c s g s' := by
  have hledger := h.ledger.quiet ha
  have hpassed := h.passed.trans (.ofAdvance ha)
  rcases hg with hg | rfl
  · refine ⟨hledger, (h.tame g hg).mono ha.counter fun _ _ => id, ?_, ?_, ?_, hpassed⟩
    · have hsub : (declares g.code.stmts).Sublist (gs.flatMap fun g => declares g.code.stmts) :=
        sublist_flatten_of_mem (mem_map_of_mem hg)
      exact (h.placed.sublist hsub).after ha.grows
    · exact (h.marked g hg).imp_left fun hm => ha.grows.emitted.subset hm
    · intro hcap
      obtain ⟨m, hm, ho⟩ := h.captures g hg hcap
      exact hns m hm ho
  · exact ⟨hledger, tame_of_bare (Generated.bare_float 0) _, .nil (h.placed.grows.trans ha.grows), .inr rfl,
      fun hcap => by simp [Generated.Captures, Generated.float] at hcap, hpassed⟩

theorem Node.open_of_operand (hp : n.isPlain) (hm : m ∈ n.operands) (ho : m.Open) : n.Open := by
  refine .child (Node.children_of_isPlain hp ▸ hm) ?_ ho
  rintro id name body rfl
  cases hp

theorem handed_outcome (hp : n.isPlain) (hn : n ∈ G.nodes)
    (hempty : ∀ id a b, Node.breakIf id a b ∈ G.nodes → ¬ G.IsFunction "")
    (h : HandedAll G K n.operands c s gs s1) (hlen : gs.length = n.operands.length) (hK : K s1.counter)
    (ho : Outcome n c gs s1 g s') : Handed G K n c s g s' := by
  have hns : ∀ m ∈ n.operands, m.Open → n.Open := fun m hm => Node.open_of_operand hp hm
  cases ho with
  | declared φ hφ hg hs =>
    subst hg hs
    have hfits := Node.form_fits c hlen hφ
    refine handed_form _ h hfits.deps hfits.base hK hns ?_
    rintro (hx | hx)
    · obtain ⟨a, ha⟩ := exists_mem_of_ne_nil _ hx
      exact hfits.arguments a ha ▸ .argument ..
    · exact absurd hfits.accumulators hx
  | @broken id a b cond value es hbreak hgs hg hs =>
    subst hgs hg hs
    exact handed_break es h (hempty id a b (hbreak ▸ hn)) hns
  | failed _ hg hs => exact handed_failed h hg hs.toAdvance hns

theorem Opens.own_of_not_captures {body : Generated} {bind : Generated → Step.Binding}
    (h : Opens body start s m s' bind) (hb : ¬ body.Captures) :
    m = start ∧ s' = s.bump ∧ bind = fun g => ⟨"loopVal" ++ toString s.counter, g, [], []⟩ := by
  cases h with
  | accumulated h => exact absurd (.inr (by simp [h])) hb
  | parameter h ha =>
    refine absurd (.inl ?_) hb
    intro hnil
    rw [hnil] at ha
    cases ha
  | own => exact ⟨rfl, rfl, rfl⟩

/-- A loop: its count, its body in a scope of its own, and its initial value, which is evaluated
after the loop has taken a number. -/
theorem handed_loop {count : Node} {gi gm : Generated} {s5 s6 : Session} (hc : c.id ∈ c.visible)
    (hK : ∀ k, s.counter ≤ k → K k) (h1 : Handed G K count c s gi s1) (h2 : s1.Advance c [] s2)
    (h3 : Handed G K body (c.loopBody s2.nextScope) s2.openScope gb s3)
    (h5 : Handed G (fun k => K k ∧ k ≠ s3.counter) start c s3.bump gm s5)
    (ha : s5.Advance c (marks [gm, gi] (.name ("loopVal" ++ toString s3.counter))) s6) :
    Handed G K (.sumLoop id body count start) c s
      (Step.loopResult gi gb ⟨"loopVal" ++ toString s3.counter, gm, [], []⟩ s5.counter) s6 := by
  set v := "loopVal" ++ toString s3.counter
  have hnum : Numbered s3.counter v := ⟨"loopVal", isBase_val "loop", rfl⟩
  have hweak : ∀ k, (K k ∧ k ≠ s3.counter) → K k := fun k hk => hk.1
  have hg13 : s1.Grows s3 := (h2.grows.trans (.openScope s2)).trans h3.placed.grows
  have hbump : s1.Grows s3.bump := hg13.trans (.advance (.bump c s3))
  have hlt : s3.counter < s6.counter := Nat.lt_of_lt_of_le h5.placed.grows.counter ha.counter
  have hle : s.counter ≤ s3.counter := Nat.le_trans h1.placed.grows.counter hg13.counter
  have hK3 := hK _ hle
  have hmark : (c.id, v) ∈ s6.emitted :=
    ha.mem_emitted mem_concat_self hnum.ne_empty
  have hknown : Known G K s6.counter v := known_of_numbered hnum hlt hK3
  have htame : ∀ d ∈ [gm, gi], Tame G K s6.counter d := by
    intro d hd
    rcases mem_pair.mp hd with rfl | rfl
    · exact h5.tame.mono ha.counter fun k _ => hweak k
    · exact h1.tame.mono (Nat.le_trans hg13.counter (Nat.le_of_lt hlt)) fun _ _ h => h
  have hplaced : Placed K c s (declares ([gm, gi].flatMap (·.code.stmts) ++
      Step.loopStatements gi gb ⟨v, gm, [], []⟩ s5.counter)) s6 := by
    have hfresh : v ∉ declares gi.code.stmts ++ declares gm.code.stmts := by
      rw [mem_append, not_or]
      exact ⟨h1.placed.not_mem hnum (.inl hg13.counter),
        h5.placed.not_mem hnum (.inr fun hk => hk.2 rfl)⟩
    have hdeps := (h1.placed.after hbump).append hc (h5.placed.imp hweak)
    have hall := hdeps.concat ha.grows hnum hfresh hle hlt hK3 hmark
    rw [declares_append, declares_flatMap]
    refine hall.perm (Perm.append_right _ ?_)
    simpa using perm_append_comm
  refine ⟨(h5.ledger.imp fun k _ => hweak k).advance ha ?_, ?_, hplaced, .inl hmark, ?_, ?_⟩
  · exact known_marks (fun d hd => (htame d hd).var) hknown
  · refine tame_gather htame (fun w hw => mem_singleton.mp hw) hplaced.nodup
      (fun w hw => ⟨_, mem_singleton.mp hw ▸ hnum, hlt, hK3⟩) ?_ hknown
      fun he => absurd he hnum.ne_empty
    intro i b inner w a hm
    rcases mem_pair.mp hm with hm | hm
    · cases hm
    · cases hm
      exact .intro h3.tame.nodup h3.tame.loops
  · intro hcap
    have hchild {m : Node} (hm : m ∈ [count, body, start]) (ho : m.Open) :
        (Node.sumLoop id body count start).Open := .child hm (fun _ _ _ h => by cases h) ho
    rcases captures_extend_gather hcap with ⟨d, hd, hd'⟩ | hx
    · rcases mem_pair.mp hd with rfl | rfl
      · exact hchild (by simp) (h5.captures hd')
      · exact hchild (by simp) (h1.captures hd')
    · simp [Step.loopExtras] at hx
  · have hp2 : Passed K c s s2.openScope :=
      h1.passed.trans (.same (h2.grows.trans (.openScope s2)) (h2.varyings .fragment))
    have hp3 : Passed K c s s3.bump := (hp2.trans h3.passed).trans (.ofAdvance (.bump c s3))
    exact (hp3.trans (h5.passed.imp hweak)).trans (.ofAdvance ha)

theorem handed_known (hl : Ledger G K s) (hf : G.IsFunction f.name) (ha : s.Advance c [] s') :
    Handed G K n c s (Step.functionResult f) s' where
  ledger := hl.quiet ha
  tame := tame_of_stmts_eq_nil rfl rfl (fun _ _ => .inr hf) fun he => he ▸ hf
  placed := .nil ha.grows
  marked := .inr rfl
  captures h := by simp [Generated.Captures, Step.functionResult] at h
  passed := .ofAdvance ha

theorem handed_new (hn : Node.defun id name body ∈ G.nodes)
    (h1 : Handed G K body (c.functionBody s.nextScope) s.openScope gb s1)
    (ha : (s1.define id (Step.functionOf id name gb)).Advance c [] s3) :
    Handed G K (.defun id name body) c s (Step.functionResult (Step.functionOf id name gb)) s3 := by
  have hname : G.IsFunction (Step.functionOf id name gb).name := ⟨id, body, hn⟩
  have hledger := h1.ledger.define id hname (.intro h1.tame.nodup h1.tame.loops)
  have h := handed_known hledger hname ha (n := .defun id name body)
  have hp0 : Passed K c s s.openScope := .same (.openScope s) rfl
  have hp2 : Passed K c s1 (s1.define id (Step.functionOf id name gb)) := .same (.define ..) rfl
  have hg : s.Grows s1 := (Session.Grows.openScope s).trans h1.placed.grows
  exact
    { h with
      placed := .nil (hg.trans (.trans (.define ..) ha.grows))
      passed := ((hp0.trans h1.passed).trans hp2).trans h.passed }

/-- A varying: what its operand declares in the vertex stage is placed there, unless a varying of
that name is registered. -/
theorem handed_varying {r : Generated} (hc : c.Paired) (h1 : Handed G K m .vertexMain s g s1)
    (hr : (Step.readVarying c id g).run s1 = (r, s2)) : Handed G K (.varying id m) c s r s2 := by
  have hplaced := h1.placed.after (Step.readVarying_grows hr)
  have hvaryings := Step.readVarying_varyings hc.1 hr
  obtain ⟨s3, ha, rfl, rfl⟩ := Step.readVarying_eq hr
  have hres : IsResource (Step.varyingName id) := ⟨id, .inr (.inr rfl)⟩
  have h := handed_of_bare (n := .varying id m) h1.ledger (Generated.bare_resource g.type hres)
    (by simpa using hres) ha
  have hsame : s1.fragment.varyings = s.fragment.varyings := by
    obtain ⟨new, hv, hnone, -, -⟩ := h1.passed
    rw [hnone (fun h => by cases h.1), append_nil] at hv
    exact hv
  rw [hsame] at hvaryings
  refine ⟨h.ledger.addVarying c.stage _, tame_of_bare (Generated.bare_resource g.type hres) _, .nil hplaced.grows,
    .inr rfl, fun hcap => h.captures hcap, ?_⟩
  by_cases hhas : s1.hasVarying c.stage (Step.varyingName id)
  · rw [if_pos hhas] at hvaryings
    exact .same hplaced.grows hvaryings
  · rw [if_neg hhas] at hvaryings
    refine ⟨[Step.varyingDef id g], hvaryings, fun hn => absurd hc hn, ?_, ?_⟩
    · simpa [passedDeclares, Step.varyingDef] using hplaced
    · simpa [Step.varyingDef] using h1.tame.loops

theorem handed_stray (h : Handed G K m c s1 g s') (ha : s.Advance c [] s1) :
    Handed G K (.varying id m) c s g s' where
  ledger := h.ledger
  tame := h.tame
  placed := h.placed.before ha.grows
  marked := h.marked
  captures hcap := .child (mem_singleton_self m) (fun _ _ _ h => by cases h) (h.captures hcap)
  passed := (Passed.ofAdvance ha).trans h.passed

end

/-! ## Every evaluation -/

/-- What a graph must be like for scopes to keep track of their declarations: ids stand for one
node, the bodies of loops mention no parameter or running sum from outside, and where there are
breaks, functions have names. -/
structure Graph.Regular (G : Graph) : Prop where
  shared : G.Shared
  loops : ∀ id body count start, Node.sumLoop id body count start ∈ G.nodes → ¬ body.Open
  breaks : ∀ id a b, Node.breakIf id a b ∈ G.nodes → ¬ G.IsFunction ""

theorem handed_rules (hG : G.Regular) : Rules grows (handed G) where
  immediate _ _ hbare hvs ha _ _ _ _ _ hl := handed_of_bare hl hbare hvs ha
  reuse _ _ ht _ _ hn hc _ _ hl := handed_of_takes hG.shared hn hc hl ht
  compute hp _ ht _ ho _ := by
    intro hn hc K hK hl
    have h := handed_threads ht (fun m hm => G.operand_mem hp hn hm) hc hK hl
    exact (handed_outcome hp hn hG.breaks h ht.length (hK _ h.placed.grows.counter) ho).remember hn
  loop := by
    rintro id body count start c s gi s1 t1 s2 gb s3 t2 m s4 bind gm s5 t3 g s6
      _ hcount _ h2 hbody hopens hinit _ rfl ha _ hn hc K hK hl
    obtain ⟨hcount_mem, hbody_mem, hstart⟩ := G.loop_mem hn
    have h1 := hcount.2 hcount_mem hc K hK hl
    have hK2 : ∀ k, s2.openScope.counter ≤ k → K k := fun k hk =>
      hK k (Nat.le_trans hcount.1.counter (Nat.le_trans h2.counter hk))
    have h3 := hbody.2 hbody_mem mem_cons_self K hK2 (h1.ledger.quiet h2).openScope
    obtain ⟨rfl, rfl, rfl⟩ := hopens.own_of_not_captures fun hb =>
      hG.loops _ _ _ _ hn (h3.captures hb)
    -- the initial value is evaluated as if the number of the loop's variable did not exist
    have hK4 : ∀ k, s3.bump.counter ≤ k → K k ∧ k ≠ s3.counter := fun k hk =>
      ⟨hK2 k (Nat.le_trans hbody.1.counter (Nat.le_of_succ_le hk)), Nat.ne_of_gt hk⟩
    have hl3 : Ledger G (fun k => K k ∧ k ≠ s3.counter) s3 :=
      h3.ledger.imp fun k hlt hk => ⟨hk, Nat.ne_of_lt hlt⟩
    have h5 := hinit.2 hstart hc _ hK4 (hl3.quiet (.bump c s3))
    exact (handed_loop hc hK h1 h2 h3 h5 ha).remember hn
  accumulator := by
    rintro id name start c s s1 g0 s0 t0 g s2 s3 _ _ _ _ ha rfl rfl _ hn hc K hK hl
    have h := handedAll_nil (ha.trans (.bump c s3)) hl
    have hbase : IsBase "accum" := .inl (by decide)
    exact (handed_form [] h (prefix_refl _) hbase (hK _ h.placed.grows.counter)
      (fun m hm => by cases hm) fun _ => .accumulator id name start).remember hn
  knownFunction hf _ hg ha _ _ _ _ _ hl := hg ▸ handed_known hl (hl.functions _ (mem_of_lookup hf)).1 ha
  newFunction _ hb _ _ hf hg ha _ hn _ K hK hl := by
    subst hf hg
    have h1 := hb.2 (G.only_mem hn rfl) mem_cons_self K hK hl.openScope
    exact handed_new hn h1 ha
  varying hp hm hr _ := by
    intro hn hc K hK hl
    have h1 := hm.2 (G.only_mem hn rfl) (by decide) K hK hl
    exact handed_varying hp h1 hr
  strayVarying := by
    intro id m c s g s1 t _ hm _ hn hc K hK hl
    have ha := Session.Advance.report c s [.varyingStage (Step.varyingName id)]
    have h1 := hm.2 (G.only_mem hn rfl) hc K
      (fun k hk => hK k (Nat.le_trans ha.counter hk)) (hl.quiet ha)
    exact handed_stray h1 ha
  exhausted hr _ := by
    intro hn hc K hK hl
    cases hr
    exact handed_of_bare hl (Generated.bare_float 0) (fun v hv => by cases hv) (.report _ _ _)

theorem handed_of_generate (hG : G.Regular) {n : Node} (hr : (n.generate c).run s = (g, s')) (hn : n ∈ G.nodes)
    (hc : c.id ∈ c.visible) (hl : Ledger G (fun _ => True) s) : Handed G (fun _ => True) n c s g s' := by
  have h := ((handed_rules hG).everywhere grows_everywhere).eval n.id n c s hn hc _ (fun _ _ => trivial) hl
  change Handed G _ n c s ((n.generate c).run s).1 ((n.generate c).run s).2 at h
  rwa [hr] at h

end

end ShaderGraph
