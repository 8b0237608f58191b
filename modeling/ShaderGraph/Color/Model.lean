/-!
# Colors of images

The color models of images and the 16-bit channels they stand for. Channels other than alpha
are multiplied by it, except in the models that keep them apart, where that is done on reading.
-/

namespace ShaderGraph

inductive ColorValue where
  | rgba (r g b a : UInt8)
  /-- Channels not multiplied by alpha. -/
  | nrgba (r g b a : UInt8)
  | gray (y : UInt8)
  | gray16 (y : UInt16)
  | rgba64 (r g b a : UInt16)
deriving DecidableEq, Repr

namespace ColorValue

def ofChannels? : String → List Nat → Option ColorValue
  | "rgba", [r, g, b, a] => some (.rgba r.toUInt8 g.toUInt8 b.toUInt8 a.toUInt8)
  | "nrgba", [r, g, b, a] => some (.nrgba r.toUInt8 g.toUInt8 b.toUInt8 a.toUInt8)
  | "gray", [y] => some (.gray y.toUInt8)
  | "gray16", [y] => some (.gray16 y.toUInt16)
  | "rgba64", [r, g, b, a] => some (.rgba64 r.toUInt16 g.toUInt16 b.toUInt16 a.toUInt16)
  | _, _ => none

def widen (c : UInt8) : Nat := c.toNat * 0x101

def channels : ColorValue → Nat × Nat × Nat × Nat
  | rgba r g b a => (widen r, widen g, widen b, widen a)
  | nrgba r g b a =>
    let times (c : UInt8) := widen c * widen a / 0xffff
    (times r, times g, times b, widen a)
  | gray y => (widen y, widen y, widen y, 0xffff)
  | gray16 y => (y.toNat, y.toNat, y.toNat, 0xffff)
  | rgba64 r g b a => (r.toNat, g.toNat, b.toNat, a.toNat)

def hex (c : ColorValue) : Nat :=
  let (r, g, b, _) := c.channels
  r / 256 * 0x10000 + g / 256 * 0x100 + b / 256

end ColorValue

end ShaderGraph
