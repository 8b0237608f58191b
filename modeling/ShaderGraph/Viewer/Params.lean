import ShaderGraph.Color.Names
import ShaderGraph.Graph.Build
import ShaderGraph.Viewer.Config

/-!
# Parameters

Uniforms that a demo exposes by name, set from a document of numbers, booleans, arrays of them
and color names.
-/

namespace ShaderGraph.Viewer

inductive ParamError where
  | unknownColor (name : String)
  | notNumber (element : String)
  | unsupported (type : String)
deriving DecidableEq, Repr

def ParamError.message : ParamError → String
  | .unknownColor name => "unknown color name " ++ Text.quoted name
  | .notNumber e => "arrays must hold numbers, got " ++ e
  | .unsupported t => "unsupported value type " ++ t

mutual

def valueText : Toml.Value → String
  | .string s => s
  | .integer n => toString n
  | .float x => Decimal.doubleText x
  | .bool b => toString b
  | .moment k => momentType k
  | .array vs => "[" ++ " ".intercalate (valueTexts vs) ++ "]"
  | .table => "map[]"

def valueTexts : List Toml.Value → List String
  | [] => []
  | v :: vs => valueText v :: valueTexts vs

end

mutual

/-- The numbers that a value stands for; a color stands for its channels. -/
def paramValues : Toml.Value → Except ParamError (List Float32)
  | .float x => .ok [x.toFloat32]
  | .integer n => .ok [Number.ofInt n]
  | .bool b => .ok [if b then 1 else 0]
  | .string s =>
    match namedColor? s with
    | some hex => let (r, g, b) := hexChannels hex; .ok [r, g, b]
    | none => .error (.unknownColor s)
  | .array vs => elementValues vs
  | .moment k => .error (.unsupported (momentType k))
  | .table => .error (.unsupported "map[string]interface \x7b\x7d")

def elementValues : List Toml.Value → Except ParamError (List Float32)
  | [] => .ok []
  | v :: vs => do
    match ← paramValues v with
    | [x] => pure (x :: (← elementValues vs))
    | _ => throw (.notNumber (valueText v))

end

structure ParamUpdate where
  name : String
  values : List Float32

inductive ParamsError where
  | document (p : Toml.Problem)
  | param (name : String) (e : ParamError)
deriving DecidableEq, Repr

def ParamsError.message : ParamsError → String
  | .document p => "toml: " ++ p.message
  | .param name e => "param " ++ Text.quoted name ++ ": " ++ e.message

def tableUpdates (t : Toml.Table) : Except ParamsError (List ParamUpdate) := do
  let us ← t.mapM fun (name, v) =>
    match paramValues v with
    | .ok values => Except.ok (ParamUpdate.mk name values)
    | .error e => .error (.param name e)
  pure (us.mergeSort fun a b => a.name ≤ b.name)

def parseParams (text : String) : Except ParamsError (List ParamUpdate) :=
  match Toml.read text with
  | .error e => .error (.document e.problem)
  | .ok t => tableUpdates t

abbrev Params := List (String × Uniform)

def Params.names (ps : Params) : List String := (ps.map (·.1)).mergeSort

structure Application where
  work : Workspace
  applied : Nat := 0
  log : List Log.Record := []

/-- Three values for four components are a color, which is opaque. -/
def opaqueValues (u : Uniform) (values : List Float32) : List Float32 :=
  if u.type = .vec4 ∧ values.length = 3 then values ++ [1] else values

def Params.applyOne (ps : Params) (a : Application) (up : ParamUpdate) : Application :=
  let warn (message : String) (fields : List (String × Log.Value)) : Application :=
    { a with log := a.log ++ [⟨.warn, message, ("name", .text up.name) :: fields⟩] }
  match ps.lookup up.name with
  | none => warn "unknown param" []
  | some u =>
    match u.stage (opaqueValues u up.values) a.work with
    | .error e => warn "bad param value" [("err", .text e.message)]
    | .ok work => { a with work, applied := a.applied + 1 }

/-- Sets uniforms; what does not fit is logged and left out. -/
def Params.apply (ps : Params) (updates : List ParamUpdate) (work : Workspace) : Application :=
  updates.foldl ps.applyOne { work }

end ShaderGraph.Viewer
