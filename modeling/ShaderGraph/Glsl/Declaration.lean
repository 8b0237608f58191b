import ShaderGraph.Glsl.Matrix
import ShaderGraph.Glsl.Type
import ShaderGraph.Text.Lines

/-! # Declarations and definitions as GLSL text -/

namespace ShaderGraph.Glsl

/-- A name with its type: a global of a stage or a parameter of a function. -/
structure Declaration where
  type : GlType
  name : String
deriving DecidableEq, Repr

inductive Qualifier where
  | uniform
  | attribute
  | varying
deriving DecidableEq, Repr

def Qualifier.keyword : Qualifier → String
  | .uniform => "uniform"
  | .attribute => "attribute"
  | .varying => "varying"

def Qualifier.ofKeyword? (s : String) : Option Qualifier :=
  [.uniform, .attribute, .varying].find? (·.keyword = s)

def Declaration.global (q : Qualifier) (d : Declaration) : String :=
  q.keyword ++ " " ++ d.type.name ++ " " ++ d.name ++ ";\n"

def localText (type : GlType) (name expr : String) : String :=
  type.name ++ " " ++ name ++ " = " ++ expr ++ ";"

def callText (fn : String) (args : List String) : String :=
  fn ++ "(" ++ ", ".intercalate args ++ ")"

def defineText (name text : String) : String := "#define " ++ name ++ " " ++ text ++ "\n"

def constructorText (type : GlType) (values : List Float32) : String :=
  type.name ++ "(" ++ literals values ++ ")"

/-- A function definition: `body` declares what `result` names. -/
structure FunctionText where
  name : String
  returns : GlType
  params : List Declaration
  body : String
  result : String
deriving DecidableEq, Repr

def FunctionText.text (f : FunctionText) : String :=
  f.returns.name ++ " " ++ f.name ++ "(" ++
    ", ".intercalate (f.params.map fun p => p.type.name ++ " " ++ p.name) ++ ") \x7b\n" ++
    Text.indent f.body ++ "\treturn " ++ f.result ++ ";\n\x7d\n"

end ShaderGraph.Glsl
