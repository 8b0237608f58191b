import ShaderGraph.Image.Raster
import ShaderGraph.Render.Renderer

/-!
# Snapshots

A snapshot reads the last frame back into an image, flipped so that the top row comes first.
-/

namespace ShaderGraph

inductive SnapshotError where
  | disposed
  | beforeFirstFrame
  | size (e : SizeFault)
  | device (e : DeviceError)
deriving DecidableEq, Repr

def SnapshotError.message : SnapshotError → String
  | .disposed => "glrender: snapshot of disposed renderer"
  | .beforeFirstFrame => "glrender: snapshot before first frame"
  | .size e => e.message
  | .device e => e.message

def Raster.hasSize (i : Raster) (width height : Int) : Bool :=
  i.bounds.width = width && i.bounds.height = height

/-- What a frame is read into: `dst` if it has the right size, otherwise a new image. -/
def Raster.orBlank (dst : Option Raster) (width height : Int) : Except SizeFault Raster :=
  match dst with
  | some i => if i.hasSize width height then .ok i else blank width height
  | none => blank width height

def Render.snapshot (dst : Option Raster) : Render (Except SnapshotError Raster) := do
  let r ← renderer
  if r.disposed then pure (.error .disposed)
  else if r.width ≤ 0 ∨ r.height ≤ 0 then pure (.error .beforeFirstFrame)
  else
    match Raster.orBlank dst r.width r.height with
    | .error e => pure (.error (.size e))
    | .ok image =>
      let w := r.width.toNat
      let h := r.height.toNat
      update fun r => { r with heldPixels := true }
      issue (.bindFramebuffer 0)
      match ← ask (·.readPixels r.width r.height (4 * w * h)) with
      | .error e => pure (.error (.device e))
      | .ok pixels => pure (.ok (image.flipRows pixels w h))

end ShaderGraph
