import ShaderGraph.Color.Gradient
import ShaderGraph.Shape.Basic
import ShaderGraph.Viewer.Params

/-!
# Demos

Shader graphs to look at, each with the uniforms that can be set from outside. All get a uniform
for the time.
-/

namespace ShaderGraph.Viewer

structure Recipe where
  name : String
  description : String
  build : Node → Build (List Nat × Params)

structure Demo where
  jobs : List Nat
  params : Params
  time : Uniform

inductive DemoError where
  | unknown (name : String) (available : List String)
  | job (demo : String) (place : Nat) (errors : String)
deriving DecidableEq, Repr

def DemoError.message : DemoError → String
  | .unknown name available =>
    "unknown demo " ++ Text.quoted name ++ ", available: [" ++ " ".intercalate available ++ "]"
  | .job demo place errors => "demo " ++ demo ++ " job " ++ toString place ++ ": " ++ errors

namespace Demo

open Build

def drawn (d : Draw Shape) : Build Shape := do
  let w ← get
  let (result, d) := d.run.run { work := w, strict := true }
  set d.work
  match result with
  | .ok s => pure s
  | .error _ => pure ⟨.absent⟩

def canvasJob (color : Node) : Build (List Nat) := do pure [← compile color .absent .triangleStrip]

def uv (time : Node) : Build (List Nat × Params) := do
  let base ← float 0.5
  let half ← float 0.5
  let wave ← builtin .sin [time]
  let blue ← add [base, ← mult [half, wave]]
  let x ← swizzle .nuv "x"
  let y ← swizzle .nuv "y"
  pure (← canvasJob (← construct .vec4 [x, y, blue, ← float 1]), [])

/-- A ring around a blend of a circle and a hexagon, joined with a bar. -/
def ring (offset scale time : Node) : Draw Shape := do
  let circle ← Shape.translate (← Shape.circle 0.25) offset
  let hexagon ← Shape.rotate (← Shape.hexagon 0.2) time
  let bar ← Shape.line ⟨-0.6, -0.4⟩ ⟨0.6, -0.4⟩ 0.05
  let shape ← Shape.union [← Shape.smoothUnion 0.1 circle hexagon, bar]
  Shape.scale (← Shape.annulus shape 0.04) scale

def shapes (time : Node) : Build (List Nat × Params) := do
  let (offset, offsetNode) ← newUniform .vec2 [0.3, 0]
  let (scale, scaleNode) ← newUniform .float [1]
  let shape ← drawn (ring offsetNode scaleNode time)
  let color ← isolines (← distance shape .uv) 0.3
  pure (← canvasJob color, [("offset", offset), ("scale", scale)])

def warp (time : Node) : Build (List Nat × Params) := do
  let (iterations, iterationsNode) ← newUniform .float [6]
  let (frequency, frequencyNode) ← newUniform .float [2]
  let acc ← accumulator "warp" (← mult [.uv, frequencyNode])
  let turned ← swizzle acc "yx"
  let wave ← builtin .sin [← add [turned, time]]
  let step ← mult [wave, ← float 0.4]
  let w ← sumLoop step iterationsNode .absent
  let x ← swizzle w "x"
  let y ← swizzle w "y"
  let rgb ← construct .vec3 [x, y, ← add [x, y]]
  let base ← float 0.5
  let half ← float 0.5
  let cosine ← builtin .cos [rgb]
  let shade ← add [base, ← mult [half, cosine]]
  let color ← construct .vec4 [shade, ← float 1]
  pure (← canvasJob color, [("frequency", frequency), ("iterations", iterations)])

def trail (time : Node) : Build (List Nat × Params) := do
  let (_, texture) ← newEmptyTexture true
  let (decay, decayNode) ← newUniform .float [0.96]
  let (radius, radiusNode) ← newUniform .float [0.05]
  let (color, colorNode) ← newUniform .vec3 [1, 0.4, 0.1]
  let x ← builtin .cos [time]
  let y ← builtin .sin [← mult [time, ← float 1.3]]
  let orbit ← construct .vec2 [x, y]
  let center ← mult [orbit, ← float 0.6]
  let d ← sub (← builtin .distance [.uv, center]) radiusNode
  let inside ← construct .vec4 [colorNode, ← float 1]
  let dot ← fill d inside .black
  let faded ← mult [← builtin .texture2D [texture, .nuv], decayNode]
  pure (← canvasJob (← Build.max faded dot),
    [("color", color), ("decay", decay), ("radius", radius)])

def gridCenters (n : Nat) : List Float32 :=
  let center (i : Nat) : Float32 := (Number.ofInt i + 0.5) * 2 / Number.ofInt n - 1
  (List.range n).flatMap fun i => (List.range n).flatMap fun j => [center i, center j]

def grid (time : Node) : Build (List Nat × Params) := do
  let n := 8
  let (_, quad) ← newAttribute .vec2 quadVertices 2 false
  let (_, offset) ← newAttribute .vec2 (gridCenters n) 2 true
  let shades := gradient 0x2060ff 0xff6020 (n * n)
  let (_, colors) ← newColorAttribute (shades.map (·.toUInt32)) true
  let (size, sizeNode) ← newUniform .float [0.1]
  let x ← swizzle offset "x"
  let phase ← mult [x, ← float 3.14159265358979323846]
  let wave ← builtin .sin [← add [time, phase]]
  let wobble ← mult [wave, ← float 0.2]
  let one ← float 1
  let scale ← mult [sizeNode, ← add [one, wobble]]
  let position ← add [← mult [quad, scale], offset]
  let zero ← float 0
  let vertex ← construct .vec4 [position, zero, ← float 1]
  let passed ← varying colors
  let fragment ← construct .vec4 [passed, ← float 1]
  let job ← Build.compilePair vertex fragment {}
  pure ([job], [("size", size)])

end Demo

def recipes : List Recipe := [
  ⟨"feedback", "orbiting dot leaving a trail through a feedback texture", Demo.trail⟩,
  ⟨"instanced", "grid of instanced quads with per instance colors", Demo.grid⟩,
  ⟨"sdf", "2D signed distance shapes with isolines", Demo.shapes⟩,
  ⟨"uv", "canvas coordinates as colors", Demo.uv⟩,
  ⟨"warp", "domain warping with a uniform bounded loop", Demo.warp⟩]

def Recipe.names (rs : List Recipe) : List String := (rs.map (·.name)).mergeSort

def firstError (w : Workspace) : Nat → List Nat → Option (Nat × String)
  | _, [] => none
  | i, j :: js =>
    match (w.jobs[j]?).bind (·.error?) with
    | some e => some (i, e)
    | none => firstError w (i + 1) js

def newDemo (rs : List Recipe) (name : String) : Build (Except DemoError Demo) := do
  match rs.find? (·.name = name) with
  | none => pure (.error (.unknown name (Recipe.names rs)))
  | some r =>
    let (time, timeNode) ← Build.newUniform .float
    let (jobs, params) ← r.build timeNode
    match firstError (← get) 0 jobs with
    | some (i, e) => pure (.error (.job name i e))
    | none => pure (.ok { jobs, params, time })

end ShaderGraph.Viewer
