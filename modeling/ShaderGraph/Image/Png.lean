import ShaderGraph.Image.Deflate.Size
import ShaderGraph.Image.Raster
import ShaderGraph.Image.Scanline

/-!
# PNG files

What a PNG file keeps of an image, and how long it gets: the pixels as they are when all are
opaque, otherwise the channels divided by alpha again.
-/

namespace ShaderGraph.Png

inductive Format where
  | rgb
  | rgba
deriving DecidableEq, Repr

def Format.name : Format → String
  | .rgb => "rgb"
  | .rgba => "rgba"

structure Picture where
  format : Format
  bounds : Rect
  pixels : List UInt8

def unmultiplied (c a : UInt8) : UInt8 :=
  (((c.toUInt32 * 0x101 * 0xffff) / (a.toUInt32 * 0x101)) >>> 8).toUInt8

def straight : List UInt8 → List UInt8
  | r :: g :: b :: a :: rest =>
    (if a = 0 then [0, 0, 0, 0]
      else if a = 255 then [r, g, b, a]
      else [unmultiplied r a, unmultiplied g a, unmultiplied b a, a]) ++ straight rest
  | _ => []

def allOpaque : List UInt8 → Bool
  | _ :: _ :: _ :: a :: rest => a == 255 && allOpaque rest
  | _ => true

def picture (i : Raster) : Picture :=
  let bounds := Rect.ofSize i.bounds.width i.bounds.height
  if allOpaque i.pixels then { format := .rgb, bounds, pixels := i.pixels }
  else { format := .rgba, bounds, pixels := straight i.pixels }

def withoutAlpha : List UInt8 → List UInt8
  | r :: g :: b :: _ :: rest => r :: g :: b :: withoutAlpha rest
  | _ => []

def Picture.scanlines (p : Picture) : List UInt8 :=
  let width := p.bounds.width.toNat
  let rows := (List.range p.bounds.height.toNat).map (Raster.packedRow (4 * width) p.pixels)
  match p.format with
  | .rgb => Scanline.ofRows 3 (rows.map withoutAlpha)
  | .rgba => Scanline.ofRows 4 rows

def chunkSize : Nat := 12

def maxChunk : Nat := 32768

/-- The size of the file: signature, header, compressed scanlines in chunks, and end. -/
def Picture.size (p : Picture) : Nat :=
  let data := 2 + Deflate.size p.scanlines.toArray + 4
  8 + (chunkSize + 13) + (data + chunkSize * ((data + maxChunk - 1) / maxChunk)) + chunkSize

end ShaderGraph.Png
