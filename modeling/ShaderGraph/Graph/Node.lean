import ShaderGraph.Graph.Builtin
import ShaderGraph.Graph.Code

/-!
# Graph nodes

A node is an expression with an id. Nodes are shared by having one id: everything that is done
once per node is keyed by it. Builders hand out ids in ascending order, so operands have
smaller ids than the node that uses them.
-/

namespace ShaderGraph

inductive Constructed where
  | vec2
  | vec3
  | vec4
  | mat2
  | mat3
  | mat4
deriving DecidableEq, Repr

def Constructed.type : Constructed → GlType
  | .vec2 => .vec2
  | .vec3 => .vec3
  | .vec4 => .vec4
  | .mat2 => .mat2
  | .mat3 => .mat3
  | .mat4 => .mat4

def Constructed.ofName? (s : String) : Option Constructed :=
  [.vec2, .vec3, .vec4, .mat2, .mat3, .mat4].find? (·.type.name = s)

/-- A vector or matrix with a fixed value; a matrix by rows. -/
inductive Constant where
  | vec2 (x y : Float32)
  | vec3 (x y z : Float32)
  | mat4 (rows : List Float32)

namespace Constant

def type : Constant → GlType
  | vec2 .. => .vec2
  | vec3 .. => .vec3
  | mat4 .. => .mat4

def base : Constant → String
  | vec2 .. => "vec2Val"
  | vec3 .. => "vec3Val"
  | mat4 .. => "matVal"

/-- The literals of the constructor, a matrix column by column. -/
def values : Constant → List Float32
  | vec2 x y => [x, y]
  | vec3 x y z => [x, y, z]
  | mat4 rows => Glsl.strided 4 4 rows

end Constant

inductive Node where
  | absent
  | float (id : NodeId) (value : Float32)
  | bool (id : NodeId) (value : Bool)
  | uniform (id : NodeId) (u : Uniform)
  | attribute (id : NodeId) (a : Attribute)
  | coordinate (id : NodeId) (c : Coordinate)
  | resolution (id : NodeId)
  | operator (id : NodeId) (op : Operator) (args : List Node)
  | builtin (id : NodeId) (fn : Builtin) (args : List Node)
  | construct (id : NodeId) (type : Constructed) (args : List Node)
  | constant (id : NodeId) (value : Constant)
  | swizzle (id : NodeId) (operand : Node) (fields : String)
  | switch (id : NodeId) (cond yes no : Node)
  /-- The sum of `body` over a number of iterations, from an initial value. -/
  | sumLoop (id : NodeId) (body count initial : Node)
  | breakIf (id : NodeId) (cond value : Node)
  | accumulator (id : NodeId) (name : String) (initial : Node)
  | defun (id : NodeId) (name : String) (body : Node)
  | call (id : NodeId) (fn : Node) (args : List Node)
  | argument (id : NodeId) (name : String) (index : Int) (type : GlType)
  /-- A value of the vertex stage, interpolated for the fragment stage. -/
  | varying (id : NodeId) (operand : Node)
deriving Inhabited

namespace Node

def id : Node → NodeId
  | absent => 0
  | float id _ | bool id _ | uniform id _ | .attribute id _ | coordinate id _ | resolution id
  | operator id _ _ | builtin id _ _ | construct id _ _ | constant id _ | swizzle id _ _
  | switch id _ _ _ | sumLoop id _ _ _ | breakIf id _ _ | accumulator id _ _ | defun id _ _
  | call id _ _ | argument id _ _ _ | varying id _ => id

def isAbsent : Node → Bool
  | absent => true
  | _ => false

def kind : Node → String
  | absent => ""
  | float .. => "float"
  | bool .. => "bool"
  | uniform .. => "uniform"
  | .attribute .. => "attribute"
  | coordinate _ c => c.name
  | resolution _ => "res"
  | operator _ op _ => op.name
  | builtin _ fn _ => fn.name
  | construct _ t _ => t.type.name
  | constant _ c => c.type.name
  | swizzle .. => "swizzle"
  | switch .. => "switch"
  | sumLoop .. => "sumLoop"
  | breakIf .. => "breakIf"
  | accumulator .. => "loopAccumulator"
  | defun .. => "defun"
  | call .. => "call"
  | argument .. => "argument"
  | varying .. => "varying"

def describe : Node → String
  | absent => "<nil node>"
  | n => n.kind ++ "#" ++ toString n.id

end Node

end ShaderGraph
