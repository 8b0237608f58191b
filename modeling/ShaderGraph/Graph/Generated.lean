import ShaderGraph.Graph.Node

/-!
# Results of evaluation

`Generated` is what a node evaluates to in a scope: the code that declares its variable, and
the resources, functions and parameters that the code relies on, each listed once in the order
of first use.
-/

namespace ShaderGraph

/-- Appends to `xs` those of `ys` that are not yet in it. -/
def adjoin {α : Type} [BEq α] (xs ys : List α) : List α :=
  ys.foldl (fun acc y => if acc.contains y then acc else acc ++ [y]) xs

/-- A function extracted from a graph, under the id of the node that defines it. -/
structure Function where
  id : NodeId
  name : String
  returns : GlType
  params : List Glsl.Declaration
  body : List Stmt
  result : Atom
  uniforms : List Uniform
  functions : List Function

instance : BEq Function := ⟨fun f g => f.id == g.id⟩

def Function.text (f : Function) : Glsl.FunctionText :=
  ⟨f.name, f.returns, f.params, Stmt.block f.body, f.result.text⟩

/-- A parameter captured by an argument node, under the id of that node. -/
structure ArgumentDef where
  id : NodeId
  name : String
  index : Int
  type : GlType
deriving DecidableEq, Repr

/-- A running sum. Every evaluation of an accumulator node makes a new one, told apart by its
serial number. -/
structure AccumulatorDef where
  serial : Nat
  storage : String
  type : GlType
  initial : Node

instance : BEq AccumulatorDef := ⟨fun a b => a.serial == b.serial⟩

structure Generated where
  code : Code
  var : Atom
  type : GlType
  declared : List String := []
  uniforms : List Uniform := []
  attributes : List Attribute := []
  functions : List Function := []
  arguments : List ArgumentDef := []
  accumulators : List AccumulatorDef := []
  function : Option Function := none
  constant : Option Float32 := none

namespace Generated

def isReference (g : Generated) : Bool := g.code.isReference

def reference (g : Generated) : Generated := { g with code := .reference }

def float (v : Float32) : Generated :=
  { code := .reference, var := .float v, type := .float, constant := some v }

def bool (b : Bool) : Generated := { code := .reference, var := .bool b, type := .bool }

def codeText (g : Generated) : String :=
  match g.code with
  | .reference => g.var.text
  | .statements ss => Stmt.block ss

/-- A result that declares `var` with the statements `own`, after those of the operands
that are not declared yet. The operands' resources are passed on. -/
def gather (type : GlType) (own : List Stmt) (var : Atom) (deps : List Generated) : Generated :=
  let declared := deps.foldl (fun acc d => adjoin acc d.declared) []
  { code := .statements (deps.flatMap (·.code.stmts) ++ own)
    var
    type
    declared := if own.isEmpty then declared else adjoin declared [var.text]
    uniforms := deps.foldl (fun acc d => adjoin acc d.uniforms) []
    attributes := deps.foldl (fun acc d => adjoin acc d.attributes) []
    functions := deps.foldl (fun acc d => adjoin acc d.functions) []
    arguments := deps.foldl (fun acc d => adjoin acc d.arguments) []
    accumulators := deps.foldl (fun acc d => adjoin acc d.accumulators) [] }

def constants? (gs : List Generated) : Option (List Float32) := gs.mapM (·.constant)

end Generated

structure VaryingDef where
  name : String
  type : GlType
  source : Atom
  code : List Stmt
  uniforms : List Uniform
  functions : List Function

end ShaderGraph
