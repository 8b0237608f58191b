import ShaderGraph.Graph.Build

/-!
# Two-dimensional shapes

A shape is a function node of a position, whose value is the signed distance to the boundary,
negative inside. Shapes compose by calling each other, so a shared shape is defined once.

A drawing collects bad dimensions, or stops at the first one when it is strict. A missing shape
always stops it.
-/

namespace ShaderGraph

structure Point where
  x : Float32
  y : Float32

def Point.text (p : Point) : String :=
  "\x7b" ++ Decimal.singleText p.x ++ " " ++ Decimal.singleText p.y ++ "\x7d"

structure Shape where
  fn : Node

inductive DimensionError where
  | circleRadius (r : Float32)
  | rectangleSize (x y : Float32)
  | lineWidth (w : Float32)
  | lineEnds (a b : Point)
  | hexagonSide (s : Float32)
  | unionCount
  | blend (k : Float32)
  | thickness (t : Float32)

open Decimal (singleText)

def DimensionError.message : DimensionError → String
  | .circleRadius r => "bad circle radius: " ++ singleText r
  | .rectangleSize x y => "bad rectangle dimension: " ++ singleText x ++ "," ++ singleText y
  | .lineWidth w => "bad line width: " ++ singleText w
  | .lineEnds a b => "line start and end too close: " ++ a.text ++ ", " ++ b.text
  | .hexagonSide s => "bad hexagon side: " ++ singleText s
  | .unionCount => "union requires at least 2 shapes"
  | .blend k => "bad smooth union blend: " ++ singleText k
  | .thickness t => "bad annulus thickness: " ++ singleText t

inductive ShapeFault where
  | dimension (e : DimensionError)
  | missingShape (combinator : String)

def ShapeFault.message : ShapeFault → String
  | .dimension e => e.message
  | .missingShape c => "empty shape argument: " ++ c

structure Drawing where
  work : Workspace
  strict : Bool
  errors : List DimensionError := []

abbrev Draw := ExceptT ShapeFault (StateM Drawing)

namespace Draw

def build {α : Type} (b : Build α) : Draw α :=
  modifyGet fun d => let (a, w) := b.run d.work; (a, { d with work := w })

def report (e : DimensionError) : Draw Unit := do
  if (← get).strict then throw (.dimension e)
  else modify fun d => { d with errors := d.errors ++ [e] }

def require (combinator : String) (operands : List Node) : Draw Unit :=
  if operands.any (·.isAbsent) then throw (.missingShape combinator) else pure ()

end Draw

def Drawing.error? (d : Drawing) : Option String :=
  match d.errors with
  | [] => none
  | es => some ("\n".intercalate (es.map (·.message)))

namespace Build

def position : Build Node := argument "p" 0 .vec2

def newShape (kind : String) (body : Node) : Build Shape := do
  let number := (← get).shapes + 1
  modify fun w => { w with shapes := number }
  pure ⟨← defun (kind ++ toString number) body⟩

def distance (s : Shape) (p : Node) : Build Node := call s.fn [p]

def distanceHere (s : Shape) : Build Node := do distance s (← position)

def length (n : Node) : Build Node := builtin .length [n]

def abs (n : Node) : Build Node := builtin .abs [n]

def min (a b : Node) : Build Node := builtin .min [a, b]

def max (a b : Node) : Build Node := builtin .max [a, b]

def clamped (n : Node) (lo hi : Float32) : Build Node := do
  let l ← float lo
  let h ← float hi
  builtin .clamp [n, l, h]

/-- Takes `inside` where the distance is negative, `outside` elsewhere. -/
def fill (d inside outside : Node) : Build Node := do
  let t ← builtin .step [← float 0, d]
  builtin .mix [inside, outside, t]

/-- A color that shows lines of equal distance, in units of a characteristic distance. -/
def isolines (d : Node) (unit : Float32) : Build Node := do
  let d ← div d (← float unit)
  let ad ← abs d
  let outside ← constant (.vec3 0.9 0.6 0.3)
  let inside ← constant (.vec3 0.65 0.85 1)
  let col ← switch (← operator .gt [d, ← float 0]) outside inside
  let one ← float 1
  let falloff ← builtin .exp [← mult [← float (-6), ad]]
  let col ← mult [col, ← sub one falloff]
  let base ← float 0.8
  let depth ← float 0.2
  let wave ← builtin .cos [← mult [← float 150, d]]
  let col ← mult [col, ← add [base, ← mult [depth, wave]]]
  let one ← float 1
  let e0 ← float 0
  let e1 ← float 0.01
  let edge ← sub one (← builtin .smoothstep [e0, e1, ad])
  let col ← builtin .mix [col, ← constant (.vec3 1 1 1), edge]
  construct .vec4 [col, ← float 1]

end Build

namespace Shape

def acceptable (v : Float32) : Bool := v > 0 && !v.isInf

open Draw (build report require)
open Build

def circleBody (radius : Float32) : Build Shape := do
  let d ← Build.length (← position)
  newShape "circle" (← sub d (← float radius))

def circle (radius : Float32) : Draw Shape := do
  if !acceptable radius then report (.circleRadius radius)
  build (circleBody radius)

def rectangleBody (x y : Float32) : Build Shape := do
  let p ← Build.abs (← position)
  let d ← sub p (← constant (.vec2 (x / 2) (y / 2)))
  let outside ← Build.length (← Build.max d (← float 0))
  let m ← Build.max (← swizzle d "x") (← swizzle d "y")
  let inside ← Build.min m (← float 0)
  newShape "rect" (← add [outside, inside])

def rectangle (x y : Float32) : Draw Shape := do
  if !acceptable x || !acceptable y then report (.rectangleSize x y)
  build (rectangleBody x y)

def lineBody (a ba : Point) (square width : Float32) : Build Shape := do
  let along ← constant (.vec2 ba.x ba.y)
  let p ← position
  let pa ← sub p (← constant (.vec2 a.x a.y))
  let dot ← builtin .dot [pa, along]
  let h ← clamped (← div dot (← float square)) 0 1
  let away ← Build.length (← sub pa (← mult [along, h]))
  newShape "line" (← sub away (← float (width / 2)))

/-- Ends closer than the root of this are taken as one point. -/
def leastSquare : Float32 := 3.6e-13

def line (a b : Point) (width : Float32) : Draw Shape := do
  let ba : Point := ⟨b.x - a.x, b.y - a.y⟩
  let square := ba.x * ba.x + ba.y * ba.y
  if !acceptable width then
    report (.lineWidth width)
    build (lineBody a ba square width)
  else if square < leastSquare then
    report (.lineEnds a b)
    build (lineBody a ba 1 width)
  else build (lineBody a ba square width)

def hexagonBody (side : Float32) : Build Shape := do
  let k ← constant (.vec2 (-0.8660254037844386467637) 0.5)
  let q ← Build.abs (← position)
  let two ← float 2
  let dot ← builtin .dot [k, q]
  let m ← Build.min dot (← float 0)
  let q ← sub q (← mult [two, m, k])
  let x ← clamped (← swizzle q "x") (-0.577350269 * side) (0.577350269 * side)
  let q ← sub q (← construct .vec2 [x, ← float side])
  let away ← Build.length q
  newShape "hex" (← mult [away, ← builtin .sign [← swizzle q "y"]])

/-- A regular hexagon around the origin, whose top and bottom are at a distance `side`. -/
def hexagon (side : Float32) : Draw Shape := do
  if !acceptable side then report (.hexagonSide side)
  build (hexagonBody side)

def distances : List Shape → Draw (List Node)
  | [] => pure []
  | s :: ss => do
    require "Union" [s.fn]
    let d ← build (distanceHere s)
    let ds ← distances ss
    pure (d :: ds)

def least (d : Node) : List Node → Build Node
  | [] => pure d
  | e :: es => do least (← Build.min d e) es

def union (shapes : List Shape) : Draw Shape := do
  match shapes with
  | [] =>
    report .unionCount
    circle 1
  | [s] =>
    report .unionCount
    pure s
  | _ =>
    match ← distances shapes with
    | [] => circle 1
    | d :: ds => build do newShape "union" (← least d ds)

def intersection (a b : Shape) : Draw Shape := do
  require "Intersection" [a.fn, b.fn]
  build do
    let da ← distanceHere a
    newShape "intersect" (← Build.max da (← distanceHere b))

def difference (a b : Shape) : Draw Shape := do
  require "Difference" [a.fn, b.fn]
  build do
    let da ← distanceHere a
    let db ← distanceHere b
    newShape "diff" (← Build.max da (← mult [db, ← float (-1)]))

def smoothUnionBody (k : Float32) (a b : Shape) : Build Shape := do
  let d1 ← distanceHere a
  let d2 ← distanceHere b
  let start ← float 0.5
  let half ← float 0.5
  let m ← mult [half, ← sub d2 d1]
  let q ← div m (← float k)
  let h ← clamped (← add [start, q]) 0 1
  let kn ← float k
  let one ← float 1
  let blend ← mult [kn, h, ← sub one h]
  newShape "smoothUnion" (← sub (← builtin .mix [d2, d1, h]) blend)

def smoothUnion (k : Float32) (a b : Shape) : Draw Shape := do
  require "SmoothUnion" [a.fn, b.fn]
  if !acceptable k then report (.blend k)
  build (smoothUnionBody k a b)

def annulus (s : Shape) (thickness : Float32) : Draw Shape := do
  require "Annulus" [s.fn]
  if !acceptable thickness then report (.thickness thickness)
  build do
    let d ← Build.abs (← distanceHere s)
    newShape "annulus" (← sub d (← float (thickness / 2)))

def translate (s : Shape) (offset : Node) : Draw Shape := do
  require "Translate" [s.fn, offset]
  build do
    let p ← sub (← position) offset
    newShape "translate" (← distance s p)

def scale (s : Shape) (factor : Node) : Draw Shape := do
  require "Scale" [s.fn, factor]
  build do
    let p ← div (← position) factor
    newShape "scale" (← mult [← distance s p, factor])

/-- Counter-clockwise by an angle in radians: the position is turned the other way. -/
def rotate (s : Shape) (angle : Node) : Draw Shape := do
  require "Rotate" [s.fn, angle]
  build do
    let c ← builtin .cos [angle]
    let sn ← builtin .sin [angle]
    let p ← position
    let x1 ← mult [c, ← swizzle p "x"]
    let x2 ← mult [sn, ← swizzle p "y"]
    let x ← add [x1, x2]
    let y1 ← mult [c, ← swizzle p "y"]
    let y2 ← mult [sn, ← swizzle p "x"]
    let y ← sub y1 y2
    newShape "rotate" (← distance s (← construct .vec2 [x, y]))

end Shape

end ShaderGraph
