import ShaderGraph.Graph.Workspace

/-!
# Graph builders

Builders take the next free id. A builder that makes several nodes makes its operands from left
to right before the node itself.
-/

namespace ShaderGraph

namespace Node

/-! ## Nodes that every graph can use -/

/-- Aspect corrected fragment coordinates centered on the canvas; the vertical axis spans
`[-1, 1]`. -/
def uv : Node := .coordinate 1 .uv

/-- Fragment coordinates normalized to `[0, 1]` across the canvas. -/
def nuv : Node := .coordinate 2 .nuv

def fragX : Node := .coordinate 3 .fragX

def fragY : Node := .coordinate 4 .fragY

def canvas : Node := .resolution 5

def opaqueColor (id : NodeId) (r g b : Float32) : Node :=
  .construct id .vec4 [.float (id - 4) r, .float (id - 3) g, .float (id - 2) b, .float (id - 1) 1]

def red : Node := opaqueColor 10 1 0 0

def green : Node := opaqueColor 15 0 1 0

def blue : Node := opaqueColor 20 0 0 1

def black : Node := opaqueColor 25 0 0 0

def white : Node := opaqueColor 30 1 1 1

def shared : List (String × Node) :=
  [("uv", uv), ("nuv", nuv), ("frag_x", fragX), ("frag_y", fragY), ("resolution", canvas),
   ("red", red), ("green", green), ("blue", blue), ("black", black), ("white", white)]

end Node

namespace Build

def float (v : Float32) : Build Node := node (.float · v)

def bool (b : Bool) : Build Node := node (.bool · b)

def floats (vs : List Float32) : Build (List Node) := vs.mapM float

def operator (op : Operator) (args : List Node) : Build Node := node (.operator · op args)

def add (args : List Node) : Build Node := operator .add args

def sub (a b : Node) : Build Node := operator .sub [a, b]

def mult (args : List Node) : Build Node := operator .mult args

def div (a b : Node) : Build Node := operator .div [a, b]

def builtin (f : Builtin) (args : List Node) : Build Node := node (.builtin · f args)

def construct (t : Constructed) (args : List Node) : Build Node := node (.construct · t args)

def constant (c : Constant) : Build Node := node (.constant · c)

/-- Components of a vector by field letters. Swizzles of a node are shared. -/
def swizzle (n : Node) (fields : String) : Build Node := do
  if n.isAbsent then pure .absent
  else match (← get).swizzles.lookup (n.id, fields) with
    | some sw => pure sw
    | none =>
      let sw ← node (.swizzle · n fields)
      modify fun w => { w with swizzles := ((n.id, fields), sw) :: w.swizzles }
      pure sw

def switch (cond yes no : Node) : Build Node := node (.switch · cond yes no)

def sumLoop (body count initial : Node) : Build Node := do
  let initial ← if initial.isAbsent then float 0 else pure initial
  node (.sumLoop · body count initial)

def breakIf (cond value : Node) : Build Node := node (.breakIf · cond value)

def accumulator (name : String) (initial : Node) : Build Node := node (.accumulator · name initial)

def defun (name : String) (body : Node) : Build Node := node (.defun · name body)

def call (fn : Node) (args : List Node) : Build Node := node (.call · fn args)

def argument (name : String) (index : Int) (type : GlType) : Build Node :=
  node (.argument · name index type)

def varying (n : Node) : Build Node := node (.varying · n)

/-- A right-handed projection with a vertical field of view in radians. -/
def perspective (fov aspect near far : Node) : Build Node := do
  let one ← float 1
  let half ← div fov (← float 2)
  let f ← div one (← builtin .tan [half])
  let zero ← float 0
  let a ← div f aspect
  let b ← div (← add [far, near]) (← sub near far)
  let c ← float (-1)
  let d ← div (← mult [← float 2, far, near]) (← sub near far)
  construct .mat4 [a, zero, zero, zero, zero, f, zero, zero, zero, zero, b, c, zero, zero, d, zero]

/-- One component of each axis of a camera, and a last entry. -/
def axisColumn (x y z last : Node) (fields : String) : Build (List Node) := do
  pure [← swizzle x fields, ← swizzle y fields, ← swizzle z fields, last]

def toAxes (x y z eye : Node) : Build Node := do
  let zero ← float 0
  let minus ← float (-1)
  let shift (axis : Node) : Build Node := do mult [minus, ← builtin .dot [axis, eye]]
  let c0 ← axisColumn x y z zero "x"
  let c1 ← axisColumn x y z zero "y"
  let c2 ← axisColumn x y z zero "z"
  let sx ← shift x
  let sy ← shift y
  let sz ← shift z
  construct .mat4 (c0 ++ c1 ++ c2 ++ [sx, sy, sz, ← float 1])

/-- From world coordinates to those of a camera at `eye` that looks at `target`. -/
def view (eye target up : Node) : Build Node := do
  let z ← builtin .normalize [← sub eye target]
  let x ← builtin .normalize [← builtin .cross [up, z]]
  let y ← builtin .cross [z, x]
  toAxes x y z eye

def quadVertices : List Float32 := [-1, -1, 1, -1, -1, 1, 1, 1]

def compilePair (vertex fragment : Node) (o : CompileOptions) : Build Nat :=
  modifyGet fun w =>
    let job := ShaderGraph.compilePair vertex fragment o w.nextId
    (w.jobs.length, { w with jobs := w.jobs ++ [job], nextId := job.session.nextId })

/-- Compiles a fragment graph over a vertex graph, or over the whole canvas without one. -/
def compile (fragment vertex : Node) (mode : DrawMode) : Build Nat := do
  if vertex.isAbsent then
    let (_, quad) ← newAttribute .vec2 quadVertices 2 false
    compilePair quad fragment { mode := .triangleStrip }
  else compilePair vertex fragment { mode }

def inSession {α : Type} (job : Nat) (e : Eval α) : Build (Option α) :=
  modifyGet fun w =>
    match w.jobs[job]? with
    | none => (none, w)
    | some j =>
      let (a, s) := e.run { j.session with nextId := w.nextId }
      (some a, { w with jobs := w.jobs.set job { j with session := s }, nextId := s.nextId })

end Build

def hexChannels (hex : UInt32) : Float32 × Float32 × Float32 :=
  let channel (shift : UInt32) : Float32 := (hex >>> shift &&& 0xff).toFloat32 / 255
  (channel 16, channel 8, channel 0)

/-- A color parameter: three float uniforms and the node that joins them to an opaque color. -/
structure Color where
  r : Uniform
  g : Uniform
  b : Uniform
  node : Node

def Color.stage (c : Color) (hex : UInt32) (w : Workspace) : Workspace :=
  let (r, g, b) := hexChannels hex
  let put (u : Uniform) (v : Float32) (w : Workspace) : Workspace :=
    match u.stage [v] w with
    | .ok w => w
    | .error _ => w
  put c.b b (put c.g g (put c.r r w))

def Build.newColor (hex : UInt32) : Build Color := do
  let (r, nr) ← newUniform .float [0]
  let (g, ng) ← newUniform .float [0]
  let (b, nb) ← newUniform .float [0]
  let node ← construct .vec4 [nr, ng, nb, ← float 1]
  let c : Color := ⟨r, g, b, node⟩
  modify (c.stage hex)
  pure c

end ShaderGraph
