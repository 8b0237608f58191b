import ShaderGraph.Graph.Operator

/-!
# Generated statements

The code of a graph is a list of statements that each declare a variable from operands that
are themselves variables, resource names or literals. `Stmt.text` writes a statement.
-/

namespace ShaderGraph

inductive Coordinate where
  | uv
  | nuv
  | fragX
  | fragY
deriving DecidableEq, Repr

namespace Coordinate

def name : Coordinate → String
  | uv => "uv"
  | nuv => "nuv"
  | fragX => "xVal"
  | fragY => "yVal"

def type : Coordinate → GlType
  | uv | nuv => .vec2
  | fragX | fragY => .float

/-- The resolution uniform holds half the canvas size, which centers `uv` on the canvas. -/
def text : Coordinate → String
  | uv => "((gl_FragCoord.xy-resolution)/resolution.y)"
  | nuv => "(gl_FragCoord.xy/resolution.xy)/2.0"
  | fragX => "gl_FragCoord.x"
  | fragY => "gl_FragCoord.y"

end Coordinate

inductive Atom where
  | name (text : String)
  | float (value : Float32)
  | bool (value : Bool)
deriving DecidableEq

def Atom.text : Atom → String
  | .name s => s
  | .float v => Glsl.literal v
  | .bool b => if b then "true" else "false"

inductive Cast where
  | keep (a : Atom)
  | convert (type : GlType) (a : Atom)
deriving DecidableEq

def Cast.text : Cast → String
  | .keep a => a.text
  | .convert t a => t.name ++ "(" ++ a.text ++ ")"

inductive Expr where
  | cast (c : Cast)
  | operation (op : Operator) (args : List Atom)
  | call (fn : String) (args : List Atom)
  | literals (type : GlType) (values : List Float32)
  | field (a : Atom) (fields : String)
  | select (cond : Atom) (yes no : Cast)
  | coordinate (c : Coordinate)
  | resolution
deriving DecidableEq

def Expr.text : Expr → String
  | .cast c => c.text
  | .operation op args => op.symbol.intercalate (args.map (·.text))
  | .call fn args => Glsl.callText fn (args.map (·.text))
  | .literals t vs => Glsl.constructorText t vs
  | .field a fs => a.text ++ "." ++ fs
  | .select c a b => c.text ++ " ? " ++ a.text ++ " : " ++ b.text
  | .coordinate c => c.text
  | .resolution => "resolution*2.0"

/-- How often a loop runs: a constant number of times, or as often as an operand says but no
more than `maxIterations` times. -/
inductive LoopBound where
  | constant (count : Float32)
  | upTo (count : Atom)
deriving DecidableEq

/-- GLSL ES 1.00 compares loop indices with constant expressions only. -/
def maxIterations : Nat := 1024

def LoopBound.text : LoopBound → String
  | .constant v => Glsl.literal v
  | .upTo _ => toString maxIterations ++ ".0"

inductive Stmt where
  | decl (type : GlType) (name : String) (value : Expr)
  | breakIf (cond : Atom)
  /-- Runs `body` and adds `term` to `target` every time. -/
  | loop (index : String) (bound : LoopBound) (body : List Stmt) (target : String) (term : Atom)
  | assign (target : String) (value : Atom)
  | verbatim (text : String)

mutual

def Stmt.text : Stmt → String
  | .decl t v e => Glsl.localText t v e.text
  | .breakIf c => "if (" ++ c.text ++ ") break;"
  | .loop i b body target term =>
    "for (float " ++ i ++ " = 0.0; " ++ i ++ " < " ++ b.text ++ "; " ++ i ++ " += 1.0) \x7b\n" ++
      (match b with
        | .constant _ => ""
        | .upTo count => "\tif (" ++ i ++ " >= " ++ count.text ++ ") break;\n") ++
      Text.indent ("\n".intercalate (Stmt.texts body)) ++
      "\t" ++ target ++ " += " ++ term.text ++ ";\n\x7d"
  | .assign v a => v ++ " = " ++ a.text ++ ";"
  | .verbatim s => s

def Stmt.texts : List Stmt → List String
  | [] => []
  | s :: ss => s.text :: Stmt.texts ss

end

def Stmt.block (ss : List Stmt) : String := "\n".intercalate (Stmt.texts ss)

/-- The code of a result: nothing but a reference to a variable declared elsewhere, or the
statements that declare it. -/
inductive Code where
  | reference
  | statements (ss : List Stmt)

def Code.stmts : Code → List Stmt
  | .reference => []
  | .statements ss => ss

def Code.isReference : Code → Bool
  | .reference => true
  | .statements _ => false

end ShaderGraph
