import ShaderGraph.Glsl.Type

/-!
# Resources of a graph

Uniforms, attributes and textures as a graph refers to them: what never changes about them.
Their staged values are kept by the workspace under the same ids.
-/

namespace ShaderGraph

abbrev NodeId := Nat

/-- A texture, under the id of the sampler uniform it is read through. A feedback texture has
no data of its own: jobs that sample it also render into it. -/
structure Texture where
  id : NodeId
  feedback : Bool
deriving DecidableEq, Repr

def uniformName (id : NodeId) : String := "uniform" ++ toString id

structure Uniform where
  id : NodeId
  type : GlType
  texture : Option Texture := none
  /-- The number of initial values given, when it did not fit the type. -/
  misfit : Option Nat := none
deriving DecidableEq, Repr

def Uniform.name (u : Uniform) : String := uniformName u.id

def Texture.name (t : Texture) : String := uniformName t.id

def Texture.uniform (t : Texture) : Uniform := { id := t.id, type := .sampler2D, texture := some t }

/-- Per-vertex data, or per-instance data when `instanced`, of `size` floats an element. -/
structure Attribute where
  id : NodeId
  type : GlType
  size : Int
  instanced : Bool
deriving DecidableEq, Repr

def Attribute.name (a : Attribute) : String := "attribute" ++ toString a.id

inductive StagingError where
  | samplerManaged (name : String)
  | valueCount (name : String) (type : GlType) (want got : Nat)
  | attributeLength (name : String) (length : Nat) (size : Int)
  | feedbackData
  | textureSize (width height : Int)
  | textureBytes (width height want : Int) (got : Nat)
deriving DecidableEq, Repr

def StagingError.message : StagingError → String
  | .samplerManaged name => name ++ ": sampler uniform value is managed by its texture"
  | .valueCount name type want got =>
    name ++ ": " ++ type.name ++ " uniform requires " ++ toString want ++ " values, got " ++
      toString got
  | .attributeLength name length size =>
    name ++ ": data length " ++ toString length ++ " not a multiple of element size " ++
      toString size
  | .feedbackData => "feedback texture data is rendered, not set"
  | .textureSize width height =>
    "invalid texture size " ++ toString width ++ "x" ++ toString height
  | .textureBytes width height want got =>
    "texture " ++ toString width ++ "x" ++ toString height ++ " requires " ++ toString want ++
      " bytes of RGBA data, got " ++ toString got

end ShaderGraph
