import ShaderGraph.Graph.Error
import ShaderGraph.Number.Shading

/-!
# Built-in functions

The GLSL functions a graph can call, with their arities, typing rules and values on floats.
Most take any mixture of floats and one vector type and yield the widest type.
-/

namespace ShaderGraph

inductive Builtin where
  | sin
  | cos
  | tan
  | floor
  | ceil
  | fract
  | abs
  | sign
  | sqrt
  | exp
  | exp2
  | log
  | normalize
  | atan
  | pow
  | mod
  | min
  | max
  | clamp
  | mix
  | step
  | smoothstep
  | length
  | distance
  | dot
  | cross
  | texture2D
deriving DecidableEq, Repr

namespace Builtin

def name : Builtin → String
  | sin => "sin"
  | cos => "cos"
  | tan => "tan"
  | floor => "floor"
  | ceil => "ceil"
  | fract => "fract"
  | abs => "abs"
  | sign => "sign"
  | sqrt => "sqrt"
  | exp => "exp"
  | exp2 => "exp2"
  | log => "log"
  | normalize => "normalize"
  | atan => "atan"
  | pow => "pow"
  | mod => "mod"
  | min => "min"
  | max => "max"
  | clamp => "clamp"
  | mix => "mix"
  | step => "step"
  | smoothstep => "smoothstep"
  | length => "length"
  | distance => "distance"
  | dot => "dot"
  | cross => "cross"
  | texture2D => "texture2D"

def all : List Builtin :=
  [sin, cos, tan, floor, ceil, fract, abs, sign, sqrt, exp, exp2, log, normalize, atan, pow, mod,
    min, max, clamp, mix, step, smoothstep, length, distance, dot, cross, texture2D]

def ofName? (s : String) : Option Builtin := all.find? (·.name == s)

def arity : Builtin → Nat × Nat
  | atan => (1, 2)
  | pow | mod | min | max | step | distance | dot | cross | texture2D => (2, 2)
  | clamp | mix | smoothstep => (3, 3)
  | _ => (1, 1)

def fixedType? : Builtin → Option GlType
  | length | distance | dot => some .float
  | cross => some .vec3
  | texture2D => some .vec4
  | _ => none

def resultType (f : Builtin) (types : List GlType) : GlType :=
  f.fixedType?.getD (GlType.promote types)

/-- The value on floats; none for the wrong number of them or where there is none. -/
def fold? : Builtin → List Float32 → Option Float32
  | sin, [x] => some (Number.sin x)
  | cos, [x] => some (Number.cos x)
  | tan, [x] => some (Number.tan x)
  | floor, [x] => some (Number.floor x)
  | ceil, [x] => some (Number.ceil x)
  | fract, [x] => some (Number.fract x)
  | abs, [x] => some (Number.magnitude x)
  | sign, [x] => some (Number.signum x)
  | sqrt, [x] => some x.sqrt
  | exp, [x] => some (Number.exp x)
  | exp2, [x] => some (Number.exp2 x)
  | log, [x] => some (Number.log x)
  | normalize, [x] => some (Number.signum x)
  | atan, [y] => some (Number.atan y)
  | atan, [y, x] => some (Number.atan2 y x)
  | pow, [x, y] => some (Number.pow x y)
  | mod, [x, y] => some (Number.floorMod x y)
  | min, [x, y] => some (Number.min x y)
  | max, [x, y] => some (Number.max x y)
  | clamp, [x, lo, hi] => some (Number.min (Number.max x lo) hi)
  | mix, [x, y, t] => some (Number.lerp x y t)
  | step, [edge, x] => some (Number.step edge x)
  | smoothstep, [e0, e1, x] => some (Number.smoothstep e0 e1 x)
  | length, [x] => some (Number.magnitude x)
  | distance, [x, y] => some (Number.magnitude (x - y))
  | dot, [x, y] => some (x * y)
  | _, _ => none

def checkValues (f : Builtin) : Nat → List GlType → List GraphError
  | _, [] => []
  | i, t :: ts =>
    let rest := checkValues f (i + 1) ts
    if t = .function ∨ t = .bool ∨ (t = .sampler2D ∧ (f ≠ texture2D ∨ i ≠ 0)) then
      .argumentInvalid f.name i t :: rest
    else rest

/-- The errors of arguments that are not floats and vectors of one type, given the first vector
type so far. -/
def checkShape (name : String) : Option GlType → List GlType → List GraphError
  | _, [] => []
  | shape, t :: ts =>
    if t.isScalar then checkShape name shape ts
    else if !t.isVector then .argumentNotAllowed name t :: checkShape name shape ts
    else match shape with
      | none => checkShape name (some t) ts
      | some s =>
        if t ≠ s then .argumentMismatch name s t :: checkShape name shape ts
        else checkShape name shape ts

def checkRule (f : Builtin) (types : List GlType) : List GraphError :=
  match f with
  | dot =>
    (match types with
      | [a, b] => if a ≠ b then [.argumentMismatch "dot" a b] else []
      | _ => []) ++ checkShape f.name none types
  | cross => (types.filter (· ≠ .vec3)).map .crossArgument
  | texture2D => if types = [.sampler2D, .vec2] then [] else [.samplingArguments types]
  | _ => checkShape f.name none types

def check (f : Builtin) (types : List GlType) : List GraphError :=
  let (least, most) := f.arity
  (if types.length < least ∨ most < types.length then
    [.argumentCount f.name types.length least most] else []) ++
    f.checkValues 0 types ++ f.checkRule types

end Builtin

end ShaderGraph
