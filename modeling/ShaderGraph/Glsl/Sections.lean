import ShaderGraph.Glsl.Declaration
import ShaderGraph.Glsl.NameHash
import ShaderGraph.Text.Quoted
import ShaderGraph.Text.Sink

/-!
# Stages as GLSL text

`Sections` are the parts of one shader stage. They are written in the order precision,
resolution, uniforms, attributes, varyings, functions, main; a repeated name is written once.
Names are told apart by their hashes. Two functions of one name with different definitions are
reported after the whole stage is written.
-/

namespace ShaderGraph.Glsl

def precisionText : String := "precision mediump float;\n"

def resolutionName : String := "resolution"

structure Sections where
  uniforms : List Declaration := []
  attributes : List Declaration := []
  varyings : List Declaration := []
  functions : List FunctionText := []
  main : String := ""
  output : String := ""
  result : String := ""
  epilogue : String := ""
deriving DecidableEq, Repr

/-- What is known of the names written so far: the hash of each and, for a function, the hash
of its definition. -/
abbrev NameTable := List (UInt64 × UInt64)

def declarationHash (name : String) : UInt64 := hashText name 0

def functionHash (name : String) : UInt64 := hashText name 1

def definitionHash (f : FunctionText) : UInt64 := hashText f.text (functionHash f.name)

def writeDeclarations (q : Qualifier) : List Declaration → NameTable → String × NameTable
  | [], names => ("", names)
  | d :: ds, names =>
    let h := declarationHash d.name
    if (names.lookup h).isSome then writeDeclarations q ds names
    else
      let (text, names) := writeDeclarations q ds ((h, 0) :: names)
      (d.global q ++ text, names)

/-- Writes the functions whose names are new and lists the names defined twice differently. -/
def writeFunctions : List FunctionText → NameTable → String × List String
  | [], _ => ("", [])
  | f :: fs, names =>
    let h := functionHash f.name
    match names.lookup h with
    | some have_ =>
      let (text, conflicts) := writeFunctions fs names
      (text, if have_ = definitionHash f then conflicts else f.name :: conflicts)
    | none =>
      let (text, conflicts) := writeFunctions fs ((h, definitionHash f) :: names)
      (f.text ++ text, conflicts)

def Sections.mainText (s : Sections) : String :=
  "void main() \x7b\n" ++ Text.indent s.main ++
    (if s.output ≠ "" ∧ s.result ≠ "" then "\t" ++ s.output ++ " = " ++ s.result ++ ";\n"
      else "") ++
    Text.indent s.epilogue ++ "\x7d\n"

/-- The text of the stage and the function names with two definitions. -/
def Sections.assemble (s : Sections) : String × List String :=
  let (uniforms, names) :=
    writeDeclarations .uniform s.uniforms [(declarationHash resolutionName, 0)]
  let (attributes, names) := writeDeclarations .attribute s.attributes names
  let (varyings, names) := writeDeclarations .varying s.varyings names
  let (functions, conflicts) := writeFunctions s.functions names
  (precisionText ++ Declaration.global .uniform ⟨.vec2, resolutionName⟩ ++ uniforms ++ attributes ++
    varyings ++ functions ++ s.mainText, conflicts)

inductive StageError where
  | writerFull
  | definedTwice (names : List String)
deriving DecidableEq, Repr

def StageError.message : StageError → String
  | .writerFull => Text.Sink.fullMessage
  | .definedTwice names =>
    "\n".intercalate (names.map fun n =>
      "function " ++ Text.quoted n ++ " defined twice with distinct bodies")

/-- Writes the stage; answers the number of bytes taken. A writer that fails hides conflicts. -/
def Sections.write (s : Sections) (sink : Text.Sink) : (Nat × Option StageError) × Text.Sink :=
  let (text, conflicts) := s.assemble
  let ((n, complete), sink) := sink.writeText text
  let error := if !complete then some .writerFull
    else if conflicts.isEmpty then none else some (.definedTwice conflicts)
  ((n, error), sink)

end ShaderGraph.Glsl
