import ShaderGraph.Graph.Job
import ShaderGraph.Number.Word

/-!
# Workspaces

Everything that outlives a compilation: the ids handed out, the swizzles of each node, the
staged values of resources and the compiled jobs. Every staging raises a version, by which
renderers know what to upload.
-/

namespace ShaderGraph

structure UniformState where
  value : List Float32
  version : UInt64 := 1

structure AttributeState where
  data : List Float32
  version : UInt64 := 1

/-- Pixel rows start at the bottom. -/
structure TextureState where
  width : Int := 0
  height : Int := 0
  data : List UInt8 := []
  version : UInt64 := 0

structure Workspace where
  /-- The ids below are those of nodes that every graph can use. -/
  nextId : NodeId := 31
  swizzles : List ((NodeId × String) × Node) := []
  uniforms : List (NodeId × UniformState) := []
  attributes : List (NodeId × AttributeState) := []
  textures : List (NodeId × TextureState) := []
  jobs : List Job := []
  shapes : Nat := 0

abbrev Build := StateM Workspace

namespace Workspace

def uniformState (w : Workspace) (u : Uniform) : UniformState :=
  (w.uniforms.lookup u.id).getD { value := [] }

def attributeState (w : Workspace) (a : Attribute) : AttributeState :=
  (w.attributes.lookup a.id).getD { data := [] }

def textureState (w : Workspace) (t : Texture) : TextureState := (w.textures.lookup t.id).getD {}

def setUniform (w : Workspace) (u : Uniform) (s : UniformState) : Workspace :=
  { w with uniforms := (u.id, s) :: w.uniforms.filter (·.1 ≠ u.id) }

def setAttribute (w : Workspace) (a : Attribute) (s : AttributeState) : Workspace :=
  { w with attributes := (a.id, s) :: w.attributes.filter (·.1 ≠ a.id) }

def setTexture (w : Workspace) (t : Texture) (s : TextureState) : Workspace :=
  { w with textures := (t.id, s) :: w.textures.filter (·.1 ≠ t.id) }

def elements (w : Workspace) (a : Attribute) : Nat :=
  if a.size ≤ 0 then 0 else (w.attributeState a).data.length / a.size.toNat

end Workspace

namespace Uniform

def refuses? (u : Uniform) (values : List Float32) : Option StagingError :=
  if u.texture.isSome then some (.samplerManaged u.name)
  else if values.length ≠ u.type.components then
    some (.valueCount u.name u.type u.type.components values.length)
  else none

def stage (u : Uniform) (values : List Float32) (w : Workspace) : Except StagingError Workspace :=
  match u.refuses? values with
  | some e => .error e
  | none => .ok (w.setUniform u { value := values, version := (w.uniformState u).version + 1 })

def stageMatrix (u : Uniform) (rows : List Float32) (w : Workspace) : Except StagingError Workspace :=
  u.stage (Glsl.columnMajor 4 rows) w

def resend (u : Uniform) (w : Workspace) : Workspace :=
  w.setUniform u { w.uniformState u with version := (w.uniformState u).version + 1 }

end Uniform

namespace Attribute

def stage (a : Attribute) (data : List Float32) (w : Workspace) : Except StagingError Workspace :=
  if 0 < a.size ∧ data.length % a.size.toNat ≠ 0 then
    .error (.attributeLength a.name data.length a.size)
  else .ok (w.setAttribute a { data, version := (w.attributeState a).version + 1 })

end Attribute

/-- What staging pixels can end in besides an error: a size that no memory holds. -/
inductive TextureFault where
  | refused (e : StagingError)
  | outOfRange
deriving DecidableEq, Repr

namespace Texture

/-- The bytes of an image in words of 64 bits, whose products wrap around. -/
def byteCount (width height : Int) : Int := Word.wrap (4 * width * height)

def stage (t : Texture) (width height : Int) (rgba : Option (List UInt8)) (w : Workspace) :
    Except TextureFault Workspace :=
  if t.feedback then .error (.refused .feedbackData)
  else if width ≤ 0 ∨ height ≤ 0 then .error (.refused (.textureSize width height))
  else
    let want := byteCount width height
    let store (data : List UInt8) : Except TextureFault Workspace :=
      .ok (w.setTexture t { width, height, data, version := (w.textureState t).version + 1 })
    match rgba with
    | none =>
      if want < 0 ∨ Word.maxBytes < want then .error .outOfRange
      else store (List.replicate want.toNat 0)
    | some data =>
      if data.length ≠ want then .error (.refused (.textureBytes width height want data.length))
      else store data

end Texture

namespace Build

def takeId : Build NodeId := modifyGet fun w => (w.nextId, { w with nextId := w.nextId + 1 })

def node (make : NodeId → Node) : Build Node := do
  let id ← takeId
  pure (make id)

/-- A uniform; without initial values it starts at zero. Values that do not fit are reported
when a graph reads it. -/
def newUniform (type : GlType) (initial : List Float32 := []) : Build (Uniform × Node) := do
  let id ← takeId
  let fits := initial.length = type.components
  let u : Uniform :=
    { id, type, misfit := if initial.isEmpty ∨ fits then none else some initial.length }
  modify (·.setUniform u (if !initial.isEmpty ∧ fits then { value := initial, version := 2 }
    else { value := List.replicate type.components 0 }))
  let n ← node (.uniform · u)
  pure (u, n)

def newAttribute (type : GlType) (data : List Float32) (size : Int) (instanced : Bool) :
    Build (Attribute × Node) := do
  let id ← takeId
  let a : Attribute := { id, type, size, instanced }
  modify (·.setAttribute a { data })
  let n ← node (.attribute · a)
  pure (a, n)

def newEmptyTexture (feedback : Bool) : Build (Texture × Node) := do
  let id ← takeId
  let t : Texture := { id, feedback }
  modify (·.setUniform t.uniform { value := [0] })
  let n ← node (.uniform · t.uniform)
  modify (·.setTexture t {})
  pure (t, n)

def newTexture (width height : Int) (rgba : Option (List UInt8)) :
    Build (Except TextureFault (Texture × Node)) := do
  let (t, n) ← newEmptyTexture false
  match t.stage width height rgba (← get) with
  | .error e => pure (.error e)
  | .ok w =>
    set w
    pure (.ok (t, n))

end Build

end ShaderGraph
