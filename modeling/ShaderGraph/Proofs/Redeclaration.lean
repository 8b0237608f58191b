import ShaderGraph.Proofs.Ledger

/-!
# No redeclaration

A session is used by evaluating nodes in its scopes, in any order, and by opening scopes for the
bodies of functions and loops. Over every such use, the code handed to one scope declares no
variable twice, and a call declares no variable that the scope knew before.
-/

namespace ShaderGraph

open Eval List

/-! ## Use of a session -/

/-- A session in use: the scopes that are open, and what was handed to them, oldest first. -/
structure Usage where
  session : Session
  scopes : List Scope
  log : List (Scope × Generated)

namespace Usage

/-- A new session, with both stages or with one. -/
inductive Initial : Usage → Prop where
  | pair (nextId : NodeId) (folding : Bool) :
      Initial ⟨{ nextId, folding }, [.vertexMain, .fragmentMain], []⟩
  | lone (stage : Stage) (nextId : NodeId) (folding : Bool) :
      Initial ⟨{ nextId, folding }, [.lone stage], []⟩

def enter (u : Usage) (d : Scope) : Usage :=
  { u with session := u.session.openScope, scopes := d :: u.scopes }

def call (u : Usage) (c : Scope) (n : Node) : Usage :=
  let r := (n.generate c).run u.session
  { u with session := r.2, log := u.log ++ [(c, r.1)] }

/-- What can be done next, with the nodes of a graph. -/
inductive Step (G : Graph) (u : Usage) : Usage → Prop where
  | functionBody {c : Scope} (hc : c ∈ u.scopes) :
      Step G u (u.enter (c.functionBody u.session.nextScope))
  | loopBody {c : Scope} (hc : c ∈ u.scopes) :
      Step G u (u.enter (c.loopBody u.session.nextScope))
  | call {c : Scope} {n : Node} (hc : c ∈ u.scopes) (hn : n ∈ G.nodes) : Step G u (u.call c n)

/-- Reached from a new session. -/
def Reachable (u : Usage) (G : Graph) : Prop :=
  ∃ u0, Initial u0 ∧ Relation.ReflTransGen (Step G) u0 u

theorem Reachable.step {G : Graph} {u u' : Usage} (h : u.Reachable G) (hs : Step G u u') :
    u'.Reachable G := by
  obtain ⟨u0, hinit, hsteps⟩ := h
  exact ⟨u0, hinit, hsteps.tail hs⟩

/-- The code handed to the scope of an id: the results of the calls there, and for the vertex
stage the code of the varyings. -/
def handed (u : Usage) (id : ScopeId) : List Stmt :=
  (u.log.filter (·.1.id = id)).flatMap (·.2.code.stmts) ++
    if id = Scope.vertexMain.id then u.session.fragment.varyings.flatMap (·.code) else []

end Usage

/-! ## What a use keeps -/

/-- The invariant of using a session that was new as `s0`. -/
structure Usage.Sound (G : Graph) (s0 : Session) (u : Usage) : Prop where
  grows : s0.Grows u.session
  ledger : Ledger G (fun _ => True) u.session
  visible : ∀ c ∈ u.scopes, c.id ∈ c.visible
  /-- The vertex stage is no fragment stage. -/
  apart : ∀ c ∈ u.scopes, c.Paired → c.id ≠ Scope.vertexMain.id
  nextScope : Scope.vertexMain.id < u.session.nextScope
  placed : ∀ id, Placed (fun _ => True) (.only id) s0 (declares (u.handed id)) u.session
  logged : ∀ p ∈ u.log, LoopsTidy p.2.code.stmts
  passed : ∀ v ∈ u.session.fragment.varyings, LoopsTidy v.code

namespace Usage

variable {G : Graph} {s0 : Session} {u u' : Usage}

theorem sound_initial (h : Initial u) : u.Sound G u.session := by
  have hsound (nextId : NodeId) (folding : Bool) {scopes : List Scope} (hv : ∀ c ∈ scopes, c.id ∈ c.visible)
      (ha : ∀ c ∈ scopes, c.Paired → c.id ≠ Scope.vertexMain.id) :
      Sound G { nextId, folding } ⟨{ nextId, folding }, scopes, []⟩ := by
    refine ⟨.refl _, ⟨forall_mem_nil _, forall_mem_nil _, forall_mem_nil _, forall_mem_nil _⟩, hv, ha,
      Nat.two_pos, fun id => ?_, forall_mem_nil _, forall_mem_nil _⟩
    simpa [handed, declares] using .nil (.refl _)
  cases h with
  | pair nextId folding =>
    refine hsound _ _ (fun c hc => ?_) fun c hc hp => ?_
    · rcases mem_pair.mp hc with rfl | rfl <;> decide
    · rcases mem_pair.mp hc with rfl | rfl
      · cases hp.1
      · decide
  | lone stage nextId folding =>
    refine hsound _ _ (forall_mem_singleton.mpr mem_cons_self) fun c hc hp => ?_
    rw [mem_singleton.mp hc] at hp
    cases hp.2

theorem Sound.enter (h : u.Sound G s0) {d : Scope} (hd : d.id ∈ d.visible)
    (hid : d.id = u.session.nextScope) : (u.enter d).Sound G s0 where
  grows := h.grows.trans (.openScope _)
  ledger := h.ledger.openScope
  visible := forall_mem_cons.mpr ⟨hd, h.visible⟩
  apart := forall_mem_cons.mpr ⟨fun _ => hid ▸ h.nextScope.ne', h.apart⟩
  nextScope := Nat.lt_succ_of_lt h.nextScope
  placed id := (h.placed id).after (.openScope _)
  logged := h.logged
  passed := h.passed

theorem declares_handed_call {c : Scope} {n : Node} {new : List VaryingDef}
    (hv : (u.call c n).session.fragment.varyings = u.session.fragment.varyings ++ new) (id : ScopeId) :
    (declares ((u.call c n).handed id)).Perm (declares (u.handed id) ++
      ((if c.id = id then declares ((n.generate c).run u.session).1.code.stmts else []) ++
        if id = Scope.vertexMain.id then passedDeclares new else [])) := by
  have hlog : (u.call c n).log.filter (·.1.id = id) = u.log.filter (·.1.id = id) ++
      if c.id = id then [(c, ((n.generate c).run u.session).1)] else [] := by
    rw [call, filter_append]
    by_cases h : c.id = id <;> simp [h]
  have hresult : declares ((if c.id = id then [(c, ((n.generate c).run u.session).1)] else []).flatMap
      (·.2.code.stmts)) =
      if c.id = id then declares ((n.generate c).run u.session).1.code.stmts else [] := by
    by_cases h : c.id = id <;> simp [h, declares]
  have hpassed : (if id = Scope.vertexMain.id then
        (u.call c n).session.fragment.varyings.flatMap (·.code) else []) =
      (if id = Scope.vertexMain.id then u.session.fragment.varyings.flatMap (·.code) else []) ++
        if id = Scope.vertexMain.id then new.flatMap (·.code) else [] := by
    by_cases h : id = Scope.vertexMain.id <;> simp [h, hv]
  have hnew : declares (if id = Scope.vertexMain.id then new.flatMap (·.code) else []) =
      if id = Scope.vertexMain.id then passedDeclares new else [] := by
    by_cases h : id = Scope.vertexMain.id
    · rw [if_pos h, if_pos h, declares_flatMap, passedDeclares]
    · rw [if_neg h, if_neg h, declares, flatMap_nil]
  simp only [handed, hlog, hpassed, flatMap_append, declares_append, hresult, hnew,
    append_assoc]
  exact .append_left _ (perm_append_comm_assoc ..)

theorem Sound.call (hG : G.Regular) (h : u.Sound G s0) {c : Scope} {n : Node} (hc : c ∈ u.scopes)
    (hn : n ∈ G.nodes) : (u.call c n).Sound G s0 := by
  have hgrows : u.session.Grows (u.call c n).session := grows_of_generate rfl
  have hh : Handed G (fun _ => True) n c u.session ((n.generate c).run u.session).1
      (u.call c n).session := handed_of_generate hG rfl hn (h.visible c hc) h.ledger
  obtain ⟨new, hv, hunpaired, hnew, hloops⟩ := hh.passed
  refine ⟨h.grows.trans hgrows, hh.ledger, h.visible, h.apart,
    h.nextScope.trans_le hgrows.nextScope, fun id => ?_, ?_, ?_⟩
  · refine Placed.perm ?_ (declares_handed_call hv id).symm
    refine (h.placed id).append mem_cons_self ?_
    by_cases hid : c.id = id
    · -- a call in the vertex stage registers no varyings
      have hnone : (if id = Scope.vertexMain.id then passedDeclares new else []) = [] := by
        by_cases hvert : id = Scope.vertexMain.id
        · rw [hunpaired fun hp => h.apart c hc hp (hid.trans hvert)]
          exact ite_self _
        · exact if_neg hvert
      rw [hnone, if_pos hid, append_nil, ← hid]
      exact hh.placed.only (h.visible c hc)
    · rw [if_neg hid, nil_append]
      by_cases hvert : id = Scope.vertexMain.id
      · rw [if_pos hvert, hvert]
        exact hnew.only (by decide)
      · rw [if_neg hvert]
        exact .nil hgrows
  · intro p hp
    rcases mem_append.mp hp with hp | hp
    · exact h.logged p hp
    · rw [mem_singleton.mp hp]
      exact hh.tame.loops
  · intro v hmem
    rw [hv] at hmem
    exact (mem_append.mp hmem).elim (h.passed v) (hloops v)

theorem Sound.step (hG : G.Regular) (h : u.Sound G s0) (hs : Step G u u') : u'.Sound G s0 := by
  cases hs with
  | functionBody hc => exact h.enter mem_cons_self rfl
  | loopBody hc => exact h.enter mem_cons_self rfl
  | call hc hn => exact h.call hG hc hn

/-- What holds of every use of a session. -/
theorem Reachable.sound (hG : G.Regular) (h : u.Reachable G) : ∃ s0, u.Sound G s0 := by
  obtain ⟨u0, hinit, hsteps⟩ := h
  refine ⟨u0.session, ?_⟩
  induction hsteps with
  | refl => exact sound_initial hinit
  | tail _ hs ih => exact ih.step hG hs

/-- The code handed to a scope. -/
theorem Sound.tidy (h : u.Sound G s0) (id : ScopeId) : Tidy (u.handed id) := by
  refine .intro (h.placed id).nodup (InLoops.append (inLoops_flatMap fun p hp => ?_) ?_)
  · exact h.logged p (mem_filter.mp hp).1
  · split
    · exact inLoops_flatMap h.passed
    · exact inLoops_nil

end Usage

/-- However a session is used, over a graph whose loop bodies mention no parameter or running sum
from outside and whose functions have names that no generated variable can have: the code that a
scope is handed over the whole use declares no variable twice, and neither do loops and functions.
A call declares no variable that its scope knew before, nor do the varyings that it registers
declare one that the vertex stage knew. -/
theorem Usage.Reachable.never_redeclares {G : Graph} (hshared : G.Shared)
    (hloops : ∀ id body count start, Node.sumLoop id body count start ∈ G.nodes → ¬ body.Open)
    (hnames : ∀ id name body, Node.defun id name body ∈ G.nodes →
      name ≠ "" ∧ ∀ k, ¬ Numbered k name)
    {u : Usage} (hu : u.Reachable G) :
    (∀ id, Tidy (u.handed id)) ∧ (∀ p ∈ u.session.functions, Tidy p.2.body) ∧
      ∀ c ∈ u.scopes, ∀ n ∈ G.nodes, ∀ g s, (n.generate c).run u.session = (g, s) →
        (∀ v ∈ declares g.code.stmts, ¬ u.session.isEmitted c v) ∧
        ∀ d ∈ s.fragment.varyings, d ∉ u.session.fragment.varyings →
          ∀ v ∈ declares d.code, ¬ u.session.isEmitted .vertexMain v := by
  have hG : G.Regular := ⟨hshared, hloops, fun _ _ _ _ ⟨id, body, hf⟩ => (hnames id "" body hf).1 rfl⟩
  obtain ⟨s₀, hsound⟩ := hu.sound hG
  refine ⟨hsound.tidy, fun p hp => (hsound.ledger.functions p hp).2, ?_⟩
  intro c hc n hn g s hr
  have hh := handed_of_generate hG hr hn (hsound.visible c hc) hsound.ledger
  have hfree {d : Scope} {vs : List String} (hp : Placed (fun _ => True) d u.session vs s) :
      ∀ v ∈ vs, ¬ u.session.isEmitted d v := by
    intro v hv
    obtain ⟨k, hk, -, -⟩ := (hp.newly v hv).named
    exact hp.not_isEmitted hsound.ledger hv fun ⟨id, body, hf⟩ => (hnames id v body hf).2 k hk
  refine ⟨hfree hh.placed, ?_⟩
  intro d hd hnot v hv
  obtain ⟨new, hvaryings, -, hnew, -⟩ := hh.passed
  rw [hvaryings] at hd
  have hd := (List.mem_append.mp hd).resolve_left hnot
  exact hfree hnew v (List.mem_flatMap.mpr ⟨d, hd, hv⟩)

def waveTime : Node := .operator 3 .add [.uniform 1 { id := 1, type := .float }, .float 2 1]

def waveFunction : Node := .defun 6 "wave" (.builtin 5 .sin [.argument 4 "x" 0 .float])

def waveCall : Node := .call 7 waveFunction [waveTime]

/-- A sum of four waves on top of the time. -/
def waveSum : Node := .sumLoop 9 waveCall (.float 8 4) waveTime

def waveNodes : List Node :=
  [.uniform 1 { id := 1, type := .float }, .float 2 1, waveTime, .argument 4 "x" 0 .float,
    .builtin 5 .sin [.argument 4 "x" 0 .float], waveFunction, waveCall, .float 8 4, waveSum,
    .varying 10 waveTime]

def waveGraph : Graph := .ofList waveNodes <| by
  simp [waveNodes, waveTime, waveFunction, waveCall, waveSum, Node.children, Node.operands]

/-- The sum in the fragment stage, the time passed on to it from the vertex stage, and the call in a
loop of the vertex stage. -/
def waveUsage : Usage :=
  let u0 : Usage := ⟨{ nextId := 11, folding := true }, [.vertexMain, .fragmentMain], []⟩
  let u1 := (u0.call .fragmentMain waveSum).call .fragmentMain (.varying 10 waveTime)
  (u1.enter (Scope.vertexMain.loopBody u1.session.nextScope)).call
    (Scope.vertexMain.loopBody u1.session.nextScope) waveCall

theorem waveUsage_reachable : waveUsage.Reachable waveGraph := by
  have hnodes {n : Node} (h : n ∈ waveNodes) : n ∈ waveGraph.nodes := h
  have h0 : Usage.Reachable ⟨{ nextId := 11, folding := true }, [.vertexMain, .fragmentMain], []⟩
      waveGraph := ⟨_, .pair 11 true, .refl⟩
  have h1 := h0.step (.call (c := .fragmentMain) (by decide) (hnodes (n := waveSum) (by simp [waveNodes])))
  have h2 := h1.step (.call (c := .fragmentMain) (by decide) (hnodes (n := .varying 10 waveTime)
    (by simp [waveNodes])))
  have h3 := h2.step (.loopBody (c := .vertexMain) (by decide))
  exact h3.step (.call mem_cons_self (hnodes (n := waveCall) (by simp [waveNodes])))

theorem waveCall_not_open : ¬ waveCall.Open := by
  simp [waveCall, waveFunction, waveTime, Node.open_iff, Node.not_open_defun, Node.children, Node.operands]

/-- The wave function's body and the time that the vertex stage computes are declared once. -/
theorem waveUsage_never_redeclares :
    (∀ id, Tidy (waveUsage.handed id)) ∧ (∀ p ∈ waveUsage.session.functions, Tidy p.2.body) ∧
      ∀ c ∈ waveUsage.scopes, ∀ n ∈ waveGraph.nodes, ∀ g s,
        (n.generate c).run waveUsage.session = (g, s) →
        (∀ v ∈ declares g.code.stmts, ¬ waveUsage.session.isEmitted c v) ∧
        ∀ d ∈ s.fragment.varyings, d ∉ waveUsage.session.fragment.varyings →
          ∀ v ∈ declares d.code, ¬ waveUsage.session.isEmitted .vertexMain v := by
  have hshared : waveGraph.Shared := Graph.shared_ofList (by decide)
  have hloops : ∀ id body count start, Node.sumLoop id body count start ∈ waveNodes → ¬ body.Open := by
    intro id body count start h
    have hbody : body = waveCall := by
      simp [waveNodes, waveTime, waveFunction, waveSum, waveCall] at h
      simp [h, waveCall, waveFunction, waveTime]
    exact hbody ▸ waveCall_not_open
  have hnames : ∀ id name body, Node.defun id name body ∈ waveNodes →
      name ≠ "" ∧ ∀ k, ¬ Numbered k name := by
    intro id name body h
    have hname : name = "wave" := by
      simp only [waveNodes, waveTime, waveFunction, waveCall, waveSum, List.mem_cons, List.not_mem_nil,
        Node.defun.injEq, reduceCtorEq, or_false, false_or] at h
      exact h.2.1
    have hends : EndsForeign "wave" :=
      ⟨"wave".toList, [], 'e', by simp, by simp, by decide, by decide, .inl rfl⟩
    rw [hname]
    exact ⟨by decide, hends.not_numbered⟩
  exact Usage.Reachable.never_redeclares hshared hloops hnames waveUsage_reachable

/-- A break whose value is a function without a name. -/
def namelessBreak : Node :=
  .breakIf 5 (.operator 3 .lt [.uniform 1 { id := 1, type := .float }, .float 2 1])
    (.defun 4 "" (.float 6 2))

def namelessGraph : Graph := .ofList
  [.uniform 1 { id := 1, type := .float }, .float 2 1,
    .operator 3 .lt [.uniform 1 { id := 1, type := .float }, .float 2 1], .float 6 2,
    .defun 4 "" (.float 6 2), namelessBreak] <| by
  simp [namelessBreak, Node.children, Node.operands]

/-- A choice between two functions, one of them named as a variable is. -/
def misnamedChoice : Node :=
  .switch 9 (.operator 3 .lt [.uniform 1 { id := 1, type := .float }, .float 2 1])
    (.defun 5 "addVal2" (.float 4 2)) (.defun 7 "f" (.float 6 3))

def misnamedSum : Node := .operator 10 .add [.uniform 1 { id := 1, type := .float }, .float 2 1]

def misnamedGraph : Graph := .ofList
  [.uniform 1 { id := 1, type := .float }, .float 2 1,
    .operator 3 .lt [.uniform 1 { id := 1, type := .float }, .float 2 1], .float 4 2, .float 6 3,
    .defun 5 "addVal2" (.float 4 2), .defun 7 "f" (.float 6 3), misnamedChoice, misnamedSum] <| by
  simp [misnamedChoice, misnamedSum, Node.children, Node.operands]

/-- Without the condition on names, and without loops, a scope is handed a declaration twice, and a
call declares a variable that its scope knew. -/
theorem redeclares_by_function_names :
    (namelessGraph.Shared ∧ (∀ id body count start, .sumLoop id body count start ∉ namelessGraph.nodes) ∧
      ∃ u : Usage, u.Reachable namelessGraph ∧ ¬ Tidy (u.handed Scope.fragmentMain.id)) ∧
    misnamedGraph.Shared ∧ (∀ id body count start, .sumLoop id body count start ∉ misnamedGraph.nodes) ∧
      ∃ u : Usage, u.Reachable misnamedGraph ∧ ∃ c ∈ u.scopes, ∃ n ∈ misnamedGraph.nodes,
        ∃ v ∈ declares ((n.generate c).run u.session).1.code.stmts, u.session.isEmitted c v := by
  have h₀ (G : Graph) : Usage.Reachable
      ⟨{ nextId := 11, folding := true }, [.vertexMain, .fragmentMain], []⟩ G := ⟨_, .pair 11 true, .refl⟩
  refine ⟨⟨Graph.shared_ofList (by decide), ?_, ?_⟩, Graph.shared_ofList (by decide), ?_, ?_⟩
  · simp [namelessGraph, Graph.ofList, namelessBreak]
  · have hn : namelessBreak ∈ namelessGraph.nodes := by simp [namelessGraph, Graph.ofList]
    have h₁ := (h₀ namelessGraph).step (.call (c := .fragmentMain) (by decide) hn)
    refine ⟨_, h₁.step (.call (c := .fragmentMain) (by decide) hn), ?_⟩
    rintro ⟨hnodup, -⟩
    exact absurd hnodup (by decide +kernel)
  · simp [misnamedGraph, Graph.ofList, misnamedChoice, misnamedSum]
  · have hchoice : misnamedChoice ∈ misnamedGraph.nodes := by simp [misnamedGraph, Graph.ofList]
    have hsum : misnamedSum ∈ misnamedGraph.nodes := by simp [misnamedGraph, Graph.ofList]
    exact ⟨_, (h₀ misnamedGraph).step (.call (c := .fragmentMain) (by decide) hchoice), .fragmentMain,
      by decide, misnamedSum, hsum, "addVal2", by decide +kernel, by decide +kernel⟩

end ShaderGraph
