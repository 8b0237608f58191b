import ShaderGraph.Graph.Build

/-!
# Gradients

Colors `0xRRGGBB` are interpolated by hue, saturation and value, the short way around the
circle of hues.
-/

namespace ShaderGraph

/-- Hue, saturation and value, each from 0 to 1. -/
structure Hsv where
  h : Float32
  s : Float32
  v : Float32

namespace Hsv

def ofHex (hex : UInt32) : Hsv :=
  let (r, g, b) := hexChannels hex
  let larger (x y : Float32) := if x < y then y else x
  let smaller (x y : Float32) := if y < x then y else x
  let hi := larger (larger r g) b
  let lo := smaller (smaller r g) b
  let chroma := hi - lo
  let s := if hi > 0 then chroma / hi else 0
  if chroma == 0 then ⟨0, s, hi⟩
  else
    -- Sixths of a turn from the dominant channel.
    let sixths := if hi == r then (g - b) / chroma
      else if hi == g then 2 + (b - r) / chroma
      else 4 + (r - g) / chroma
    let h := sixths / 6
    ⟨if h < 0 then h + 1 else h, s, hi⟩

/-- From `a` at 0 to `b` at 1, across the hue of red where that is shorter. -/
def lerp (a b : Hsv) (t : Float32) : Hsv :=
  let (h0, h1) := if b.h - a.h > 0.5 then (a.h + 1, b.h)
    else if a.h - b.h > 0.5 then (a.h, b.h + 1)
    else (a.h, b.h)
  let h := Number.lerp h0 h1 t
  ⟨if h ≥ 1 then h - 1 else h, Number.lerp a.s b.s t, Number.lerp a.v b.v t⟩

def rgb (c : Hsv) : Float32 × Float32 × Float32 :=
  let h6 := c.h * 6
  let h6 := if h6 ≥ 6 then 0 else h6
  let sector := Number.floor h6
  let f := h6 - sector
  let p := c.v * (1 - c.s)
  let q := c.v * (1 - c.s * f)
  let u := c.v * (1 - c.s * (1 - f))
  if sector == 0 then (c.v, u, p)
  else if sector == 1 then (q, c.v, p)
  else if sector == 2 then (p, c.v, u)
  else if sector == 3 then (p, q, c.v)
  else if sector == 4 then (u, p, c.v)
  else (c.v, p, q)

def byte (x : Float32) : Nat := (Number.truncate (Number.clamp x 0 1 * 255).round).toNat

def hex (c : Hsv) : Nat :=
  let (r, g, b) := c.rgb
  (byte r * 256 + byte g) * 256 + byte b

end Hsv

def mixHex (a b : UInt32) (t : Float32) : Nat := ((Hsv.ofHex a).lerp (Hsv.ofHex b) t).hex

/-- As many as `n` evenly spaced colors with both ends; none if `n` is not positive. -/
def gradient (a b : UInt32) (n : Int) : List Nat :=
  if n ≤ 0 then []
  else if n = 1 then [a.toNat]
  else (List.range n.toNat).map fun (i : Nat) => mixHex a b (Number.ofInt i / Number.ofInt (n - 1))

def Build.newColorAttribute (colors : List UInt32) (instanced : Bool) : Build (Attribute × Node) :=
  newAttribute .vec3 (colors.flatMap fun c => let (r, g, b) := hexChannels c; [r, g, b]) 3 instanced

end ShaderGraph
