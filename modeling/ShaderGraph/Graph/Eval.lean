import ShaderGraph.Graph.Session
import ShaderGraph.Text.LowerCase

/-!
# Evaluation of nodes

`Node.generate` evaluates a node in a scope. Each kind of node evaluates its operands and then
takes a step that is a function of their results: these steps come first. The evaluation is by
recursion on the node, except that a loop evaluates the initial value of the accumulator it
binds, which it finds through the results of its body; `Node.eval` takes the evaluation of such
values as a parameter.
-/

namespace ShaderGraph

open Eval

namespace Step

def absentOperand (c : Scope) : Eval Generated := do
  report c [.absentOperand]
  pure (.float 0)

def zero : Eval Generated := do
  skipId
  pure (.float 0)

def readUniform (c : Scope) (u : Uniform) : Eval Generated := do
  report c (u.misfit.toList.map fun got =>
    .uniformValue u.name (.valueCount u.name u.type u.type.components got))
  useUniforms c.stage [u]
  let g ← emit c u.type [] (.name u.name) []
  pure { g with uniforms := [u] }

def readAttribute (c : Scope) (a : Attribute) : Eval Generated := do
  if c.stage ≠ .vertex then report c [.attributeStage a.name]
  if a.size < 1 ∨ 4 < a.size ∨ a.size ≠ a.type.components then
    report c [.attributeSize a.name a.size a.type]
  modify (·.updateRegistry c.stage (·.addAttribute a))
  let g ← emit c a.type [] (.name a.name) []
  pure { g with attributes := [a] }

def readCoordinate (c : Scope) (k : Coordinate) : Eval Generated := do
  if c.stage ≠ .fragment then report c [.coordinateStage k.name c.stage]
  let v ← fresh k.name
  declare c k.type v (.coordinate k) []

def readResolution (c : Scope) : Eval Generated := do
  let v ← fresh "res"
  declare c .vec2 v .resolution []

/-- Declares a float whose value is known. The operands stay declared, since other nodes may
refer to them. -/
def foldedConstant (c : Scope) (v : String) (x : Float32) (deps : List Generated) :
    Eval Generated := do
  let g ← declare c .float v (.cast (.keep (.float x))) deps
  pure { g with constant := some x }

/-- The value of an operation on known floats, if it is finite. -/
def folded? (folding : Bool) (type : GlType) (fold? : List Float32 → Option Float32)
    (gs : List Generated) : Option Float32 :=
  if folding ∧ type = .float then
    ((Generated.constants? gs).bind fold?).filter Number.finite
  else none

def operate (c : Scope) (op : Operator) (gs : List Generated) : Eval Generated := do
  if gs.isEmpty then
    report c [.noOperands op.name]
    zero
  else
    let types := gs.map (·.type)
    report c (op.check types)
    let type := op.resultType types
    let v ← fresh (op.name ++ "Val")
    match folded? (← get).folding type op.fold? gs with
    | some x => foldedConstant c v x gs
    | none => declare c type v (.operation op (gs.map (·.var))) gs

def applyBuiltin (c : Scope) (f : Builtin) (gs : List Generated) : Eval Generated := do
  let types := gs.map (·.type)
  report c (f.check types)
  let type := f.resultType types
  let v ← fresh (f.name ++ "Val")
  match folded? (← get).folding type f.fold? gs with
  | some x => foldedConstant c v x gs
  | none => declare c type v (.call f.name (gs.map (·.var))) gs

def checkComponents (name : String) : Nat → List GlType → List GraphError
  | _, [] => []
  | i, t :: ts =>
    let rest := checkComponents name (i + 1) ts
    if t = .sampler2D ∨ t = .function then .argumentInvalid name i t :: rest else rest

def fillsAlone (type : GlType) : List GlType → Bool
  | [t] => t.isScalar || (type.isMatrix && t.isMatrix)
  | _ => false

/-- The errors of constructor arguments: they fill all components, or a single scalar does. -/
def checkConstruct (type : GlType) (types : List GlType) : List GraphError :=
  let total := types.foldl (fun n t => n + t.components) 0
  checkComponents type.name 0 types ++
    if !fillsAlone type types && total ≠ type.components then
      [.componentCount type.name total type.components] else []

def construct (c : Scope) (k : Constructed) (gs : List Generated) : Eval Generated := do
  report c (checkConstruct k.type (gs.map (·.type)))
  let v ← fresh (k.type.name ++ "Val")
  declare c k.type v (.call k.type.name (gs.map (·.var))) gs

def declareConstant (c : Scope) (k : Constant) : Eval Generated := do
  let v ← fresh k.base
  declare c k.type v (.literals k.type k.values) []

def fieldLetters : List Char := "xyzwrgbastpq".toList

/-- Whether fields name components of a vector, all from one set of letters. -/
def validFields (fields : String) (components : Nat) : Bool :=
  let places := fields.toList.map fun f => fieldLetters.idxOf f
  !places.isEmpty && places.all (fun p => p < 12 && p % 4 < components) &&
    places.all fun p => some (p / 4) == places.head?.map (· / 4)

def swizzle (c : Scope) (fields : String) (g : Generated) : Eval Generated := do
  let length := fields.utf8ByteSize
  let type? := GlType.ofLength? length
  if type?.isNone then report c [.swizzleLength fields length]
  let type := type?.getD .float
  if !g.type.isVector then report c [.swizzleOperand fields g.type]
  else if !validFields fields g.type.components then report c [.swizzleFields fields g.type]
  let v ← fresh (Text.lower fields ++ "Val")
  declare c type v (.field g.var fields) [g]

def cast (c : Scope) (type : GlType) (g : Generated) : Eval Cast := do
  if g.type = type then pure (.keep g.var)
  else if g.type ≠ .float then
    report c [.conversion g.type type]
    pure (.keep g.var)
  else pure (.convert type g.var)

def select (c : Scope) (cond yes no : Generated) : Eval Generated := do
  if cond.type ≠ .bool then report c [.switchCondition cond.type]
  let type := GlType.promote [yes.type, no.type]
  let v ← fresh "switchVal"
  let a ← cast c type yes
  let b ← cast c type no
  declare c type v (.select cond.var a b) [cond, yes, no]

/-- The captured argument of lowest index, the first one on ties. -/
def lowestArgument? : List ArgumentDef → Option ArgumentDef
  | [] => none
  | a :: as => some (as.foldl (fun low b => if b.index < low.index then b else low) a)

/-- How a loop holds its running sum: in the storage of an accumulator, in a parameter, or in a
variable of its own. -/
structure Binding where
  var : String
  initial : Generated
  arguments : List ArgumentDef
  accumulators : List AccumulatorDef

def checkCount (c : Scope) (count : Generated) : Eval Unit :=
  if count.type ≠ .float then report c [.loopCount count.type] else pure ()

def sumLoop (c : Scope) (count body : Generated) (b : Binding) : Eval Generated := do
  let type := GlType.promote [body.type, b.initial.type]
  let index ← fresh "i"
  let start ← cast c type b.initial
  let bound := match count.constant with
    | some v => .constant v
    | none => .upTo count.var
  let g ← emit c type
    [.decl type b.var (.cast start),
      .loop index bound body.code.stmts b.var body.var]
    (.name b.var) [b.initial, count]
  pure { g with
    uniforms := adjoin g.uniforms body.uniforms
    attributes := adjoin g.attributes body.attributes
    functions := adjoin g.functions body.functions
    arguments := adjoin g.arguments b.arguments
    accumulators := adjoin g.accumulators b.accumulators }

def breakIf (c : Scope) (cond value : Generated) : Eval Generated := do
  if !c.inLoop then report c [.breakOutside]
  if cond.type ≠ .bool then report c [.breakCondition cond.type]
  emit c value.type [.breakIf cond.var] value.var [cond, value]

def accumulator (c : Scope) (name : String) (initial : Node) (type : GlType) : Eval Generated := do
  let serial := (← get).counter
  let storage ← fresh name
  let v ← fresh "accum"
  let g ← declare c type v (.cast (.keep (.name storage))) []
  pure { g with accumulators := adjoin g.accumulators [⟨serial, storage, type, initial⟩] }

/-- Parameters from captured arguments in the order of their indices, one for each name, and the
errors of names used with two types. -/
def parameters (name : String) :
    List Glsl.Declaration → List ArgumentDef → List Glsl.Declaration × List GraphError
  | params, [] => (params, [])
  | params, a :: as =>
    match params.find? (·.name == a.name) with
    | none => parameters name (params ++ [⟨a.type, a.name⟩]) as
    | some p =>
      let (all, errors) := parameters name params as
      (all, if p.type ≠ a.type then .functionArgument name a.name p.type a.type :: errors
        else errors)

def byIndex (args : List ArgumentDef) : List ArgumentDef :=
  args.mergeSort fun a b => a.index ≤ b.index

def function (c : Scope) (id : NodeId) (name : String) (g : Generated) : Eval Function := do
  if g.type = .function ∨ g.type = .sampler2D then report c [.functionResult name g.type]
  let (params, errors) := parameters name [] (byIndex g.arguments)
  report c errors
  pure {
    id, name, params
    returns := g.type
    body := g.code.stmts
    result := g.var
    uniforms := g.uniforms
    functions := g.functions }

def readFunction (c : Scope) (f : Function) : Eval Generated := do
  useUniforms c.stage f.uniforms
  pure {
    code := .statements []
    var := .name f.name
    type := .function
    uniforms := f.uniforms
    functions := [f]
    function := some f }

def checkCallArguments (name : String) : Nat → List GlType → List Glsl.Declaration → List GraphError
  | i, t :: ts, p :: ps =>
    let rest := checkCallArguments name (i + 1) ts ps
    if t ≠ p.type then .callArgument name i t p.type :: rest else rest
  | _, _, _ => []

def call (c : Scope) (fn : Generated) (gs : List Generated) : Eval Generated := do
  match fn.function with
  | none =>
    report c [.callOperand fn.type]
    match gs with
    | g :: _ => pure g
    | [] => zero
  | some f =>
    if gs.length ≠ f.params.length then report c [.callCount f.name gs.length f.params.length]
    report c (checkCallArguments f.name 0 (gs.map (·.type)) f.params)
    let v ← fresh (f.name ++ "Value")
    let g ← declare c f.returns v (.call f.name (gs.map (·.var))) gs
    pure { g with
      functions := adjoin g.functions [f]
      uniforms := adjoin g.uniforms f.uniforms }

def readArgument (c : Scope) (a : ArgumentDef) : Eval Generated := do
  let v ← fresh "funcArg"
  let g ← declare c a.type v (.cast (.keep (.name a.name))) []
  pure { g with arguments := adjoin g.arguments [a] }

def varyingName (id : NodeId) : String := "varying" ++ toString id

def interpolates : GlType → Bool
  | .bool | .sampler2D | .function => false
  | _ => true

/-- Reads in a fragment scope what evaluated to `g` in the vertex stage. -/
def readVarying (c : Scope) (id : NodeId) (g : Generated) : Eval Generated := do
  let name := varyingName id
  if !interpolates g.type then report c [.varyingType name g.type]
  useUniforms .vertex g.uniforms
  modify (·.updateRegistry c.stage (·.addVarying {
    name
    type := g.type
    source := g.var
    code := g.code.stmts
    uniforms := g.uniforms
    functions := g.functions }))
  emit c g.type [] (.name name) []

end Step

/-- Evaluates in a session of its own, of which only the node ids taken are kept. -/
def Eval.probe (c : Scope) (evaluate : Scope → Eval Generated) : Eval GlType := do
  let s ← get
  let (g, s') := (evaluate (.lone c.stage)).run { nextId := s.nextId, folding := s.folding }
  set { s with nextId := s'.nextId }
  pure g.type

mutual

/-- Evaluates a node, with `initial` for the initial values of accumulators. -/
def Node.eval (initial : Node → Scope → Eval Generated) : Node → Scope → Eval Generated
  | .absent, c => Step.absentOperand c
  | .float _ v, _ => pure (.float v)
  | .bool _ b, _ => pure (.bool b)
  | .uniform _ u, c => Step.readUniform c u
  | .attribute _ a, c => Step.readAttribute c a
  | .coordinate id k, c => memoized c id (Step.readCoordinate c k)
  | .resolution id, c => memoized c id (Step.readResolution c)
  | .operator id op args, c => memoized c id do
    Step.operate c op (← Node.evalAll initial args c)
  | .builtin id f args, c => memoized c id do
    Step.applyBuiltin c f (← Node.evalAll initial args c)
  | .construct id k args, c => memoized c id do
    Step.construct c k (← Node.evalAll initial args c)
  | .constant id k, c => memoized c id (Step.declareConstant c k)
  | .swizzle id n fields, c => memoized c id do
    Step.swizzle c fields (← n.eval initial c)
  | .switch id cond yes no, c => memoized c id do
    let gc ← cond.eval initial c
    let ga ← yes.eval initial c
    let gb ← no.eval initial c
    Step.select c gc ga gb
  | .sumLoop id body count start, c => memoized c id do
    let gi ← count.eval initial c
    Step.checkCount c gi
    let gb ← body.eval initial (c.loopBody (← newScope))
    match gb.accumulators, Step.lowestArgument? gb.arguments with
    | a :: rest, _ =>
      let g ← initial a.initial c
      Step.sumLoop c gi gb ⟨a.storage, g, gb.arguments, rest⟩
    | [], some a =>
      let g ← start.eval initial c
      Step.sumLoop c gi gb ⟨a.name, g, gb.arguments.filter (·.name ≠ a.name), []⟩
    | [], none =>
      let v ← fresh "loopVal"
      let g ← start.eval initial c
      Step.sumLoop c gi gb ⟨v, g, [], []⟩
  | .breakIf id cond value, c => memoized c id do
    let gc ← cond.eval initial c
    let gv ← value.eval initial c
    Step.breakIf c gc gv
  | .accumulator id name start, c => memoized c id do
    if !c.inLoop then report c [.accumulatorOutside name]
    let type ← probe c (start.eval initial)
    Step.accumulator c name start type
  | .defun id name body, c => do
    match (← get).functions.lookup id with
    | some f => Step.readFunction c f
    | none =>
      let g ← body.eval initial (c.functionBody (← newScope))
      let f ← Step.function c id name g
      modify fun s => { s with functions := (id, f) :: s.functions }
      Step.readFunction c f
  | .call id fn args, c => memoized c id do
    let gs ← Node.evalAll initial args c
    let gf ← fn.eval initial c
    Step.call c gf gs
  | .argument id name index type, c => memoized c id (Step.readArgument c ⟨id, name, index, type⟩)
  | .varying id n, c => do
    if c.stage = .fragment ∧ c.paired then
      let g ← n.eval initial .vertexMain
      Step.readVarying c id g
    else
      report c [.varyingStage (Step.varyingName id)]
      n.eval initial c

def Node.evalAll (initial : Node → Scope → Eval Generated) :
    List Node → Scope → Eval (List Generated)
  | [], _ => pure []
  | n :: ns, c => do
    let g ← n.eval initial c
    let gs ← Node.evalAll initial ns c
    pure (g :: gs)

end

/-- Evaluates a node in which accumulators nest at most `depth` deep in each other's initial
values. -/
def Node.evalWithin : Nat → Node → Scope → Eval Generated
  | 0, n, c => n.eval (fun _ c => Step.absentOperand c) c
  | depth + 1, n, c => n.eval (evalWithin depth) c

/-- Evaluates a node. An initial value has a smaller id than its accumulator, so ids bound how
deep they nest. -/
def Node.generate (n : Node) (c : Scope) : Eval Generated := n.evalWithin n.id c

end ShaderGraph
