import ShaderGraph.Graph.Build
import ShaderGraph.Image.Raster
import ShaderGraph.Image.Resample

/-!
# Textures from images

An image becomes the pixels of a texture of a given size, the bottom row first. It is resampled
when the sizes differ.
-/

namespace ShaderGraph

inductive PixelFormat where
  | rgba
  | nrgba
  | gray
deriving DecidableEq, Repr

def PixelFormat.ofName? : String → Option PixelFormat
  | "rgba" => some .rgba
  | "nrgba" => some .nrgba
  | "gray" => some .gray
  | _ => none

structure Picture where
  format : PixelFormat
  bounds : Rect
  bytes : List UInt8

namespace Picture

def multiplied (c a : UInt8) : UInt8 := (c.toNat * (a.toNat * 0x101) / 0xff / 256).toUInt8

def multiply : List UInt8 → List UInt8
  | r :: g :: b :: a :: rest => [multiplied r a, multiplied g a, multiplied b a, a] ++ multiply rest
  | _ => []

def rgba (p : Picture) : List UInt8 :=
  match p.format with
  | .rgba => p.bytes
  | .nrgba => multiply p.bytes
  | .gray => p.bytes.flatMap fun y => [y, y, y, 255]

def sizeOr (p : Picture) (width height : Int) : Int × Int :=
  (if width ≤ 0 then p.bounds.width else width, if height ≤ 0 then p.bounds.height else height)

def channels : List UInt8 → List (Resample.Channels UInt8)
  | r :: g :: b :: a :: rest => ⟨r, g, b, a⟩ :: channels rest
  | _ => []

def resampled (p : Picture) (width height : Nat) : List UInt8 :=
  let w := p.bounds.width.toNat
  let h := p.bounds.height.toNat
  let rows := (List.range h).map fun y => (channels (Raster.packedRow (4 * w) p.rgba y)).toArray
  (Resample.resample w h width height rows).flatMap (·.flatMap fun c => [c.r, c.g, c.b, c.a])

def isShort (p : Picture) : Bool :=
  !p.bounds.isEmpty && p.rgba.length < 4 * (p.bounds.width.toNat * p.bounds.height.toNat)

end Picture

inductive PictureFault where
  | size (e : SizeFault)
  | texture (e : TextureFault)

/-- The image drawn on a blank one of a size, of which the sign does not matter. -/
def Picture.drawn (p : Picture) (width height : Int) : Except PictureFault Raster := do
  match Raster.sizeFault? width.natAbs height.natAbs with
  | some e => throw (.size e)
  | none =>
    if p.isShort then throw (.texture .outOfRange)
    let dst := Raster.filled (.ofSize width.natAbs height.natAbs) 0
    if p.bounds.isEmpty then pure dst
    else if p.bounds.width = width ∧ p.bounds.height = height then
      pure { dst with buffer := p.rgba }
    else pure { dst with buffer := p.resampled width.toNat height.toNat }

/-- Stages an image; a size that is not positive is that of the image. Rows of a negative width
lie outside of it. -/
def Texture.stagePicture (t : Texture) (p : Picture) (width height : Int) (w : Workspace) :
    Except PictureFault Workspace := do
  let (width, height) := p.sizeOr width height
  let dst ← p.drawn width height
  if width < 0 ∧ 0 < height then throw (.texture .outOfRange)
  (t.stage width height (some dst.bottomUp) w).mapError .texture

def Build.newPictureTexture (p : Picture) (width height : Int) :
    Build (Except PictureFault (Texture × Node)) := do
  let (width, height) := p.sizeOr width height
  match ← newTexture width height none with
  | .error e => pure (.error (.texture e))
  | .ok (t, n) =>
    match t.stagePicture p width height (← get) with
    | .error e => pure (.error e)
    | .ok w =>
      set w
      pure (.ok (t, n))

end ShaderGraph
