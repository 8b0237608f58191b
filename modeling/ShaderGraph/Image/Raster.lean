import ShaderGraph.Number.Word

/-!
# Raster images

RGBA images of one byte a channel in a buffer of rows, the top row first. An image may be a
window into a larger one: its rows then start at an offset and are further apart than they are
long.
-/

namespace ShaderGraph

structure Rect where
  x0 : Int
  y0 : Int
  x1 : Int
  y1 : Int
deriving DecidableEq, Repr

namespace Rect

def width (r : Rect) : Int := Word.wrap (r.x1 - r.x0)

def height (r : Rect) : Int := Word.wrap (r.y1 - r.y0)

def isEmpty (r : Rect) : Bool := r.x1 ≤ r.x0 || r.y1 ≤ r.y0

def ofSize (width height : Int) : Rect := ⟨0, 0, width, height⟩

def inter (r s : Rect) : Rect :=
  let t : Rect := ⟨max r.x0 s.x0, max r.y0 s.y0, min r.x1 s.x1, min r.y1 s.y1⟩
  if t.isEmpty then ⟨0, 0, 0, 0⟩ else t

end Rect

structure Raster where
  buffer : List UInt8
  start : Nat
  stride : Nat
  bounds : Rect
deriving DecidableEq, Repr

inductive SizeFault where
  | huge
  | noMemory
deriving DecidableEq, Repr

def SizeFault.message : SizeFault → String
  | .huge => "image: NewRGBA Rectangle has huge or negative dimensions"
  | .noMemory => "out of memory"

namespace Raster

def filled (r : Rect) (b : UInt8) : Raster :=
  let stride := 4 * r.width.toNat
  { buffer := List.replicate (stride * r.height.toNat) b, start := 0, stride, bounds := r }

def sizeFault? (width height : Int) : Option SizeFault :=
  if width < 0 ∨ height < 0 ∨ Word.count ≤ 4 * width ∨ Word.limit ≤ 4 * width * height then
    some .huge
  else if Word.maxBytes < 4 * width * height then some .noMemory
  else none

def filled? (r : Rect) (b : UInt8) : Except SizeFault Raster :=
  match sizeFault? r.width r.height with
  | some e => .error e
  | none => .ok (filled r b)

def blank (width height : Int) : Except SizeFault Raster := filled? (.ofSize width height) 0

def sub (i : Raster) (r : Rect) : Raster :=
  let r := r.inter i.bounds
  if r.isEmpty then { i with start := 0, stride := 0, bounds := ⟨0, 0, 0, 0⟩ }
  else { i with
    start := i.start + (r.y0 - i.bounds.y0).toNat * i.stride + (r.x0 - i.bounds.x0).toNat * 4
    bounds := r }

def splice (buffer : List UInt8) (offset : Nat) (bytes : List UInt8) : List UInt8 :=
  buffer.take offset ++ bytes ++ buffer.drop (offset + bytes.length)

def packedRow (rowBytes : Nat) (src : List UInt8) (y : Nat) : List UInt8 :=
  (src.drop (y * rowBytes)).take rowBytes

def row (i : Raster) (y : Nat) : List UInt8 :=
  (i.buffer.drop (i.start + y * i.stride)).take (4 * i.bounds.width.toNat)

def pixels (i : Raster) : List UInt8 := (List.range i.bounds.height.toNat).flatMap i.row

def offset (i : Raster) (x y : Int) : Nat :=
  i.start + ((y - i.bounds.y0) * i.stride + (x - i.bounds.x0) * 4).toNat

def flipRow (src : List UInt8) (w h : Nat) (i : Raster) (y : Nat) : Raster :=
  { i with
    buffer := splice i.buffer (i.offset i.bounds.x0 (i.bounds.y0 + y))
      (packedRow (4 * w) src (h - 1 - y)) }

/-- Copies packed rows, the bottom one first, into an image of `w` by `h` pixels. -/
def flipRows (i : Raster) (src : List UInt8) (w h : Nat) : Raster :=
  (List.range h).foldl (flipRow src w h) i

def bottomUp (i : Raster) : List UInt8 :=
  (List.range i.bounds.height.toNat).reverse.flatMap i.row

end Raster

end ShaderGraph
