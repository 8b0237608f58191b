/-!
# Resampling

Bicubic resampling by the Catmull-Rom kernel: first along the rows, then along the columns. To
shrink an image the kernel is widened so that every source pixel counts.
-/

namespace ShaderGraph.Resample

structure Channels (α : Type) where
  r : α
  g : α
  b : α
  a : α

namespace Channels

def map {α β : Type} (f : α → β) (c : Channels α) : Channels β := ⟨f c.r, f c.g, f c.b, f c.a⟩

def zero : Channels Float := ⟨0, 0, 0, 0⟩

def addScaled (c d : Channels Float) (w : Float) : Channels Float :=
  ⟨c.r + d.r * w, c.g + d.g * w, c.b + d.b * w, c.a + d.a * w⟩

end Channels

/-- The Catmull-Rom kernel at a distance of at least zero and less than two. -/
def kernel (t : Float) : Float :=
  if t < 1 then (1.5 * t - 2.5) * t * t + 1 else ((-0.5 * t + 2.5) * t - 4) * t + 2

structure Spread where
  weights : List (Nat × Float)
  inverse : Float

def place (x : Float) : Nat := x.toUInt64.toNat

def spread (source target x : Nat) : Spread :=
  let scale := Float.ofNat source / Float.ofNat target
  let (half, factor) := if scale > 1 then (2 * scale, 1 / scale) else (2, 1)
  let center := (Float.ofNat x + 0.5) * scale - 0.5
  let first := place (center - half).floor
  let last := min source (place (center + half).ceil)
  let weights := (List.range' first (last - first)).filterMap fun i =>
    let t := ((center - Float.ofNat i) * factor).abs
    if t ≥ 2 then none
    else
      let w := kernel t
      if w == 0 then none else some (i, w)
  { weights, inverse := 1 / weights.foldl (fun sum e => sum + e.2) 0 }

def Spread.sum (s : Spread) (pixels : Array (Channels Float)) : Channels Float :=
  s.weights.foldl (fun sum (i, w) => sum.addScaled (pixels[i]?.getD .zero) w) .zero

def toByte (x : Float) : UInt8 := (min 65535 (place (65535 * x + 0.5)) / 256).toUInt8

def limit (c : Channels Float) : Channels Float :=
  let below (x : Float) := if x > c.a then c.a else x
  ⟨below c.r, below c.g, below c.b, c.a⟩

def columns {α : Type} (width : Nat) (rows : List (Array α)) : List (Array α) :=
  (List.range width).map fun x => (rows.filterMap (·[x]?)).toArray

def resample (sw sh dw dh : Nat) (rows : List (Array (Channels UInt8))) :
    List (List (Channels UInt8)) :=
  let across := (List.range dw).map (spread sw dw)
  let down := (List.range dh).map (spread sh dh)
  let narrow := rows.map fun row =>
    let row := row.map (·.map fun c => Float.ofNat (c.toNat * 257))
    (across.map fun s => (s.sum row).map (· * (s.inverse / 65535))).toArray
  let columns := columns dw narrow
  down.map fun s => columns.map fun column =>
    (limit (s.sum column)).map fun p => toByte (p * s.inverse)

end ShaderGraph.Resample
