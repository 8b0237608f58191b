/-!
# GLSL ES 1.00 types

The ten types a graph value can have, and the other ordinals of the one-byte encoding, which
have no keyword. Mixed operand types promote to the type with the greatest ordinal.
-/

namespace ShaderGraph

inductive GlType where
  | bool
  | float
  | vec2
  | vec3
  | vec4
  | mat2
  | mat3
  | mat4
  | sampler2D
  | function
  /-- Ordinal `10 + k`. -/
  | unnamed (k : Fin 246)
deriving DecidableEq, Repr, Inhabited

namespace GlType

def ordinal : GlType → Nat
  | bool => 0
  | float => 1
  | vec2 => 2
  | vec3 => 3
  | vec4 => 4
  | mat2 => 5
  | mat3 => 6
  | mat4 => 7
  | sampler2D => 8
  | function => 9
  | unnamed k => 10 + k

def named : List GlType :=
  [bool, float, vec2, vec3, vec4, mat2, mat3, mat4, sampler2D, function]

def ofOrdinal? (n : Nat) : Option GlType :=
  if h : n < 10 then named[n]?
  else if h' : n < 256 then some (unnamed ⟨n - 10, by omega⟩)
  else none

def name : GlType → String
  | bool => "bool"
  | float => "float"
  | vec2 => "vec2"
  | vec3 => "vec3"
  | vec4 => "vec4"
  | mat2 => "mat2"
  | mat3 => "mat3"
  | mat4 => "mat4"
  | sampler2D => "sampler2D"
  | function => "function"
  | unnamed k => "Type(" ++ toString (10 + k.val) ++ ")"

def ofName? (s : String) : Option GlType := named.find? (·.name == s)

def components : GlType → Nat
  | bool | float | sampler2D => 1
  | vec2 => 2
  | vec3 => 3
  | vec4 | mat2 => 4
  | mat3 => 9
  | mat4 => 16
  | function | unnamed _ => 0

def isVector : GlType → Bool
  | vec2 | vec3 | vec4 => true
  | _ => false

def isMatrix : GlType → Bool
  | mat2 | mat3 | mat4 => true
  | _ => false

def isScalar : GlType → Bool
  | bool | float => true
  | _ => false

def wider (a b : GlType) : GlType := if a.ordinal < b.ordinal then b else a

def promote (types : List GlType) : GlType := types.foldl wider bool

def ofLength? : Int → Option GlType
  | 1 => some float
  | 2 => some vec2
  | 3 => some vec3
  | 4 => some vec4
  | _ => none

def noLengthMessage (n : Int) : String := "no vector type with " ++ toString n ++ " components"

/-- Whether a square matrix and a vector of its dimension, in either order. -/
def matrixVector : GlType → GlType → Bool
  | mat2, vec2 | vec2, mat2 => true
  | mat3, vec3 | vec3, mat3 => true
  | mat4, vec4 | vec4, mat4 => true
  | _, _ => false

end GlType

end ShaderGraph
