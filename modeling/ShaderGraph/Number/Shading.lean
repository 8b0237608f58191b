import ShaderGraph.Number.Exponential
import ShaderGraph.Number.Trigonometry

/-! # Shading functions on floats -/

namespace ShaderGraph.Number

def floorMod (x y : Float32) : Float32 := x - y * floor (x / y)

def step (edge x : Float32) : Float32 := if x < edge then 0 else 1

def smoothstep (e0 e1 x : Float32) : Float32 :=
  let t := min (max ((x - e0) / (e1 - e0)) 0) 1
  t * t * (3 - 2 * t)

end ShaderGraph.Number
