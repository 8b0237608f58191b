import ShaderGraph.Graph.Eval

/-!
# Runs of evaluation

`Node.eval` runs in a state monad and recurses over nodes; here it is taken apart, one equation for each kind
of node. `Node.trace` lists what an evaluation reuses: results taken from the memo or from the function table,
and results that are thrown away because their varying is registered.
-/

namespace ShaderGraph

open Eval List

variable {n start body : Node} {id : NodeId} {name : String} {initial : Node → Scope → Eval Generated}

/-! ## Runs -/

namespace Eval

theorem run_bind {α β : Type} (x : Eval α) (f : α → Eval β) (s : Session) :
    (x >>= f).run s = (f (x.run s).1).run (x.run s).2 := rfl

theorem run_pure {α : Type} (a : α) (s : Session) : (pure a : Eval α).run s = (a, s) := rfl

theorem run_get (s : Session) : (get : Eval Session).run s = (s, s) := rfl

theorem run_ite {α : Type} (p : Prop) [Decidable p] (x y : Eval α) (s : Session) :
    (if p then x else y).run s = if p then x.run s else y.run s := by
  split <;> rfl

theorem run_memoized (c : Scope) (id : NodeId) (e : Eval Generated) (s : Session) :
    (memoized c id e).run s = match s.lookup? c id with
      | some r => r
      | none => ((e.run s).1, (e.run s).2.remember c id (e.run s).1) := by
  unfold memoized
  rw [run_bind, run_get]
  cases s.lookup? c id <;> rfl

end Eval

theorem evalWithin_eq_eval (depth : Nat) : ∃ i, Node.evalWithin depth = fun n c => n.eval i c := by
  cases depth with
  | zero | succ => exact ⟨_, rfl⟩

/-! ## Kinds of nodes -/

namespace Node

/-- Evaluated anew every time, without operands. -/
def isImmediate : Node → Bool
  | absent | float .. | bool .. | uniform .. | .attribute .. => true
  | _ => false

/-- Evaluated to a step on the results of operands in the same scope, and remembered. -/
def isPlain : Node → Bool
  | coordinate .. | resolution .. | operator .. | builtin .. | construct .. | constant ..
  | swizzle .. | switch .. | breakIf .. | call .. | argument .. => true
  | _ => false

/-- Whether the result is remembered. -/
def isMemoized : Node → Bool
  | sumLoop .. | accumulator .. => true
  | n => n.isPlain

/-- The operands of a plain node in the order of evaluation. -/
def operands : Node → List Node
  | operator _ _ args | builtin _ _ args | construct _ _ args => args
  | swizzle _ n _ => [n]
  | switch _ cond yes no => [cond, yes, no]
  | breakIf _ cond value => [cond, value]
  | call _ fn args => args ++ [fn]
  | _ => []

/-- The step that an immediate or plain node takes on the results of its operands. -/
def step : Node → Scope → List Generated → Eval Generated
  | absent, c, _ => Step.absentOperand c
  | float _ v, _, _ => pure (.float v)
  | bool _ b, _, _ => pure (.bool b)
  | uniform _ u, c, _ => Step.readUniform c u
  | .attribute _ a, c, _ => Step.readAttribute c a
  | coordinate _ k, c, _ => Step.readCoordinate c k
  | resolution _, c, _ => Step.readResolution c
  | operator _ op _, c, gs => Step.operate c op gs
  | builtin _ f _, c, gs => Step.applyBuiltin c f gs
  | construct _ k _, c, gs => Step.construct c k gs
  | constant _ k, c, _ => Step.declareConstant c k
  | swizzle _ _ fields, c, [g] => Step.swizzle c fields g
  | switch .., c, [gc, ga, gb] => Step.select c gc ga gb
  | breakIf .., c, [gc, gv] => Step.breakIf c gc gv
  | call .., c, gs =>
    match gs.getLast? with
    | some gf => Step.call c gf gs.dropLast
    | none => Step.zero
  | argument id name index type, c, _ => Step.readArgument c ⟨id, name, index, type⟩
  | _, _, _ => Step.zero

end Node

/-! ## Traces -/

/-- What an evaluation reuses instead of evaluating it. -/
inductive Reuse where
  /-- A result that a scope takes from the memo or from the function table. -/
  | taken (c : Scope) (g : Generated)
  /-- A result of the vertex stage whose code is dropped, since its varying is registered, and what
  its evaluation reused. -/
  | discarded (g : Generated) (t : List Reuse)

abbrev Trace := List Reuse

def Session.traceMemo (s : Session) (c : Scope) (id : NodeId) (evaluation : Trace) : Trace :=
  match s.lookup? c id with
  | some (g, _) => [.taken c g]
  | none => evaluation

/-- Whether a varying of that name is registered for a stage. -/
def Session.hasVarying (s : Session) (stage : Stage) (name : String) : Bool :=
  (s.registry stage).varyings.any (·.name == name)

def Session.openScope (s : Session) : Session := { s with nextScope := s.nextScope + 1 }

def Session.bump (s : Session) : Session := { s with counter := s.counter + 1 }

def Session.report (s : Session) (c : Scope) (es : List GraphError) : Session :=
  s.updateRegistry c.stage (·.addErrors es)

mutual

/-- What evaluating a node reuses, with `past` for the initial values of accumulators. The probe of
an accumulator's type leaves nothing behind, so what it reuses is not listed. -/
def Node.trace (initial : Node → Scope → Eval Generated) (past : Node → Scope → Session → Trace) :
    Node → Scope → Session → Trace
  | .absent, _, _ | .float .., _, _ | .bool .., _, _ | .uniform .., _, _ | .attribute .., _, _ => []
  | .coordinate id _, c, s | .resolution id, c, s | .constant id _, c, s
  | .argument id _ _ _, c, s | .accumulator id _ _, c, s => s.traceMemo c id []
  | .operator id _ args, c, s | .builtin id _ args, c, s | .construct id _ args, c, s =>
    s.traceMemo c id (Node.traceAll initial past args c s)
  | .swizzle id n _, c, s => s.traceMemo c id (n.trace initial past c s)
  | .switch id cond yes no, c, s => s.traceMemo c id <|
    let s1 := ((cond.eval initial c).run s).2
    let s2 := ((yes.eval initial c).run s1).2
    cond.trace initial past c s ++ (yes.trace initial past c s1 ++ no.trace initial past c s2)
  | .sumLoop id body count start, c, s => s.traceMemo c id <|
    let (gi, s1) := (count.eval initial c).run s
    let s2 := ((Step.checkCount c gi).run s1).2
    let inner := c.loopBody s2.nextScope
    let (gb, s3) := (body.eval initial inner).run s2.openScope
    let opening := match gb.accumulators, Step.lowestArgument? gb.arguments with
      | a :: _, _ => past a.initial c s3
      | [], some _ => start.trace initial past c s3
      | [], none => start.trace initial past c s3.bump
    count.trace initial past c s ++ (body.trace initial past inner s2.openScope ++ opening)
  | .breakIf id cond value, c, s => s.traceMemo c id <|
    let s1 := ((cond.eval initial c).run s).2
    cond.trace initial past c s ++ value.trace initial past c s1
  | .defun id _ body, c, s =>
    match s.functions.lookup id with
    | some f => [.taken c ((Step.readFunction c f).run s).1]
    | none => body.trace initial past (c.functionBody s.nextScope) s.openScope
  | .call id fn args, c, s => s.traceMemo c id <|
    let s1 := ((Node.evalAll initial args c).run s).2
    Node.traceAll initial past args c s ++ fn.trace initial past c s1
  | .varying id n, c, s =>
    if c.stage = .fragment ∧ c.paired then
      let (g, s1) := (n.eval initial .vertexMain).run s
      let t := n.trace initial past .vertexMain s
      if s1.hasVarying c.stage (Step.varyingName id) then [.discarded g t] else t
    else n.trace initial past c (s.report c [.varyingStage (Step.varyingName id)])

def Node.traceAll (initial : Node → Scope → Eval Generated)
    (past : Node → Scope → Session → Trace) : List Node → Scope → Session → Trace
  | [], _, _ => []
  | n :: ns, c, s =>
    n.trace initial past c s ++ Node.traceAll initial past ns c ((n.eval initial c).run s).2

end

def Node.traceWithin : Nat → Node → Scope → Session → Trace
  | 0, n, c, s => n.trace (fun _ c => Step.absentOperand c) (fun _ _ _ => []) c s
  | depth + 1, n, c, s => n.trace (Node.evalWithin depth) (traceWithin depth) c s

theorem Eval.run_newScope (s : Session) : newScope.run s = (s.nextScope, s.openScope) := rfl

/-! ## Evaluation of plain nodes -/

section
variable {past : Node → Scope → Session → Trace}

theorem evalAll_concat (ns : List Node) (n : Node) (c : Scope) (s : Session) :
    (Node.evalAll initial (ns ++ [n]) c).run s =
      let r := (Node.evalAll initial ns c).run s
      let q := (n.eval initial c).run r.2
      (r.1 ++ [q.1], q.2) := by
  induction ns generalizing s with
  | nil => rfl
  | cons m ns ih =>
    simp only [cons_append, Node.evalAll, run_bind, run_pure]
    rw [ih]

theorem traceAll_concat (ns : List Node) (n : Node) (c : Scope) (s : Session) :
    Node.traceAll initial past (ns ++ [n]) c s =
      Node.traceAll initial past ns c s ++
        n.trace initial past c ((Node.evalAll initial ns c).run s).2 := by
  induction ns generalizing s with
  | nil => simp only [nil_append, Node.traceAll, append_nil, Node.evalAll, run_pure]
  | cons m ns ih =>
    simp only [cons_append, Node.traceAll, Node.evalAll, run_bind, run_pure]
    rw [ih, append_assoc]

theorem isMemoized_of_isPlain (h : n.isPlain) : n.isMemoized := by
  cases n with
  | sumLoop | accumulator => cases h
  | _ => exact h

theorem eval_plain (h : n.isPlain) (c : Scope) (s : Session) :
    (n.eval initial c).run s = match s.lookup? c n.id with
      | some r => r
      | none =>
        let r := (Node.evalAll initial n.operands c).run s
        let q := (n.step c r.1).run r.2
        (q.1, q.2.remember c n.id q.1) := by
  cases n with
  | call id fn args =>
    simp only [Node.eval, Node.operands, Node.step, Node.id, run_memoized, run_bind, evalAll_concat,
      getLast?_append, getLast?_singleton, Option.some_or, dropLast_concat]
  | coordinate | resolution | operator | builtin | construct | constant | swizzle | switch
  | breakIf | argument => simp only [Node.eval, run_memoized]; rfl
  | _ => cases h

theorem trace_plain (h : n.isPlain) (c : Scope) (s : Session) :
    n.trace initial past c s = s.traceMemo c n.id (Node.traceAll initial past n.operands c s) := by
  cases n with
  | call id fn args => simp only [Node.trace, Node.operands, Node.id, traceAll_concat]
  | coordinate | resolution | operator | builtin | construct | constant | swizzle | switch
  | breakIf | argument =>
    simp only [Node.trace, Node.traceAll, Node.operands, Node.id, append_nil]
  | _ => cases h

theorem eval_immediate (h : n.isImmediate) (c : Scope) : n.eval initial c = n.step c [] := by
  cases n with
  | absent | float | bool | uniform | «attribute» => rfl
  | _ => cases h

theorem trace_immediate (h : n.isImmediate) (c : Scope) (s : Session) : n.trace initial past c s = [] := by
  cases n with
  | absent | float | bool | uniform | «attribute» => rfl
  | _ => cases h

/-- The binding that a loop starts its sum with, given the result of its body. -/
def openSum (initial : Node → Scope → Eval Generated) (body : Generated) (start : Node) (c : Scope)
    (s : Session) : Step.Binding × Session :=
  match body.accumulators, Step.lowestArgument? body.arguments with
  | a :: rest, _ =>
    let r := (initial a.initial c).run s
    (⟨a.storage, r.1, body.arguments, rest⟩, r.2)
  | [], some a =>
    let r := (start.eval initial c).run s
    (⟨a.name, r.1, body.arguments.filter (·.name ≠ a.name), []⟩, r.2)
  | [], none =>
    let r := (start.eval initial c).run s.bump
    (⟨"loopVal" ++ toString s.counter, r.1, [], []⟩, r.2)

def traceOpening (initial : Node → Scope → Eval Generated) (past : Node → Scope → Session → Trace)
    (body : Generated) (start : Node) (c : Scope) (s : Session) : Trace :=
  match body.accumulators, Step.lowestArgument? body.arguments with
  | a :: _, _ => past a.initial c s
  | [], some _ => start.trace initial past c s
  | [], none => start.trace initial past c s.bump

theorem eval_sumLoop (id : NodeId) (body count start : Node) (c : Scope) (s : Session) :
    ((Node.sumLoop id body count start).eval initial c).run s = match s.lookup? c id with
      | some r => r
      | none =>
        let r := (count.eval initial c).run s
        let s2 := ((Step.checkCount c r.1).run r.2).2
        let b := (body.eval initial (c.loopBody s2.nextScope)).run s2.openScope
        let o := openSum initial b.1 start c b.2
        let q := (Step.sumLoop c r.1 b.1 o.1).run o.2
        (q.1, q.2.remember c id q.1) := by
  simp only [Node.eval, run_memoized, run_bind, run_newScope, openSum]
  cases s.lookup? c id with
  | some r => rfl
  | none =>
    dsimp only
    generalize ((Step.checkCount c ((count.eval initial c).run s).1).run
      ((count.eval initial c).run s).2).2 = s2
    generalize (body.eval initial (c.loopBody s2.nextScope)).run s2.openScope = b
    cases b.1.accumulators with
    | cons a rest => rfl
    | nil =>
      cases Step.lowestArgument? b.1.arguments with
      | some a => rfl
      | none => rfl

theorem trace_sumLoop (id : NodeId) (body count start : Node) (c : Scope) (s : Session) :
    (Node.sumLoop id body count start).trace initial past c s = s.traceMemo c id
      (let r := (count.eval initial c).run s
       let s2 := ((Step.checkCount c r.1).run r.2).2
       let b := (body.eval initial (c.loopBody s2.nextScope)).run s2.openScope
       count.trace initial past c s ++
        (body.trace initial past (c.loopBody s2.nextScope) s2.openScope ++
          traceOpening initial past b.1 start c b.2)) := by
  simp only [Node.trace]
  rfl

theorem sizeOf_operand_lt {m : Node} (h : m ∈ n.operands) : sizeOf m < sizeOf n := by
  cases n with
  | operator id op args | builtin id f args | construct id k args =>
    have h : m ∈ args := h
    have := sizeOf_lt_of_mem h
    simp only [Node.operator.sizeOf_spec, Node.builtin.sizeOf_spec, Node.construct.sizeOf_spec]
    omega
  | call id fn args =>
    simp only [Node.call.sizeOf_spec]
    rcases mem_append.mp h with h | h
    · have := sizeOf_lt_of_mem h
      omega
    · rw [mem_singleton.mp h]
      omega
  | swizzle id n fields =>
    simp only [Node.operands, mem_singleton] at h
    simp only [h, Node.swizzle.sizeOf_spec]
    omega
  | switch id cond yes no =>
    simp only [Node.operands, mem_cons, not_mem_nil, or_false] at h
    simp only [Node.switch.sizeOf_spec]
    obtain rfl | rfl | rfl := h <;> omega
  | breakIf id cond value =>
    simp only [Node.operands, mem_cons, not_mem_nil, or_false] at h
    simp only [Node.breakIf.sizeOf_spec]
    obtain rfl | rfl := h <;> omega
  | _ => simp [Node.operands] at h

end

end ShaderGraph
