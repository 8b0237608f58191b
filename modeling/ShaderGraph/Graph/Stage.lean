/-! # Shader stages and draw modes -/

namespace ShaderGraph

inductive Stage where
  | fragment
  | vertex
deriving DecidableEq, Repr, Inhabited

namespace Stage

def name : Stage → String
  | fragment => "fragment"
  | vertex => "vertex"

/-- The vertex stage is number 1; every other number is the fragment stage. -/
def ofOrdinal (n : Nat) : Stage := if n = 1 then vertex else fragment

def output : Stage → String
  | fragment => "gl_FragColor"
  | vertex => "gl_Position"

end Stage

inductive DrawMode where
  | triangleStrip
  | triangles
  | triangleFan
  | lineStrip
  | lines
  | points
  | unknown
deriving DecidableEq, Repr, Inhabited

namespace DrawMode

def name : DrawMode → String
  | triangleStrip => "triangle-strip"
  | triangles => "triangles"
  | triangleFan => "triangle-fan"
  | lineStrip => "line-strip"
  | lines => "lines"
  | points => "points"
  | unknown => "DrawMode(?)"

def ofOrdinal : Nat → DrawMode
  | 0 => triangleStrip
  | 1 => triangles
  | 2 => triangleFan
  | 3 => lineStrip
  | 4 => lines
  | 5 => points
  | _ => unknown

end DrawMode

end ShaderGraph
