import ShaderGraph.Graph.Error

/-!
# Operators

The operators written between their operands, with their typing and folding rules. A matrix
and a vector of its dimension multiply to the vector; otherwise arithmetic yields the widest
operand type. Comparisons and logical operators yield `bool`.
-/

namespace ShaderGraph

inductive Operator where
  | add
  | sub
  | mult
  | div
  | lt
  | gt
  | lte
  | gte
  | eq
  | and
  | or
deriving DecidableEq, Repr

namespace Operator

def name : Operator → String
  | add => "add"
  | sub => "sub"
  | mult => "mult"
  | div => "div"
  | lt => "lt"
  | gt => "gt"
  | lte => "lte"
  | gte => "gte"
  | eq => "eq"
  | and => "and"
  | or => "or"

def symbol : Operator → String
  | add => "+"
  | sub => "-"
  | mult => "*"
  | div => "/"
  | lt => "<"
  | gt => ">"
  | lte => "<="
  | gte => ">="
  | eq => "=="
  | and => "&&"
  | or => "||"

def all : List Operator := [add, sub, mult, div, lt, gt, lte, gte, eq, and, or]

def ofName? (s : String) : Option Operator := all.find? (·.name == s)

def isArithmetic : Operator → Bool
  | add | sub | mult | div => true
  | _ => false

def isLogical : Operator → Bool
  | and | or => true
  | _ => false

def isOrdering : Operator → Bool
  | lt | gt | lte | gte => true
  | _ => false

def lastVector? (types : List GlType) : Option GlType := (types.filter (·.isVector)).getLast?

def resultType (op : Operator) (types : List GlType) : GlType :=
  if !op.isArithmetic then .bool
  else if op = mult ∧ types.any (·.isMatrix) then
    (lastVector? types).getD (GlType.promote types)
  else GlType.promote types

/-- The errors of operands from number `i` on, given the first operand type so far that is not
scalar. -/
def checkFrom (op : Operator) : Nat → Option GlType → List GlType → List GraphError
  | _, _, [] => []
  | i, shape, t :: ts =>
    if t = .sampler2D ∨ t = .function then .operandType op.name i t :: checkFrom op (i + 1) shape ts
    else if op.isLogical ∧ t ≠ .bool then
      .operandNotBool op.name i t :: checkFrom op (i + 1) shape ts
    else if ¬ op.isLogical ∧ t = .bool ∧ op ≠ eq then
      .operandBool op.name i :: checkFrom op (i + 1) shape ts
    else if op.isOrdering ∧ ¬ t.isScalar then
      .operandNotScalar op.name i t :: checkFrom op (i + 1) shape ts
    else if t.isScalar then checkFrom op (i + 1) shape ts
    else match shape with
      | none => checkFrom op (i + 1) (some t) ts
      | some s =>
        if s ≠ t ∧ ¬ (op = mult ∧ GlType.matrixVector s t) then
          .operandMismatch op.name s t :: checkFrom op (i + 1) shape ts
        else checkFrom op (i + 1) shape ts

def check (op : Operator) (types : List GlType) : List GraphError := op.checkFrom 0 none types

def compute? : Operator → Option (Float32 → Float32 → Float32)
  | add => some (· + ·)
  | sub => some (· - ·)
  | mult => some (· * ·)
  | div => some (· / ·)
  | _ => none

def fold? (op : Operator) : List Float32 → Option Float32
  | [] => none
  | x :: xs => op.compute?.map fun f => xs.foldl f x

end Operator

end ShaderGraph
