import ShaderGraph.Glsl.Sections
import ShaderGraph.Graph.Resource
import ShaderGraph.Graph.Stage

/-!
# Graph errors

What can be wrong with a graph. Errors never stop an evaluation: they are recorded in the
registry of the stage. `message` is the wording of each.
-/

namespace ShaderGraph

inductive GraphError where
  | absentOperand
  | noOperands (name : String)
  | operandType (name : String) (i : Nat) (type : GlType)
  | operandNotBool (name : String) (i : Nat) (type : GlType)
  | operandBool (name : String) (i : Nat)
  | operandNotScalar (name : String) (i : Nat) (type : GlType)
  | operandMismatch (name : String) (first other : GlType)
  | argumentCount (name : String) (got least most : Nat)
  | argumentInvalid (name : String) (i : Nat) (type : GlType)
  | argumentNotAllowed (name : String) (type : GlType)
  | argumentMismatch (name : String) (first other : GlType)
  | crossArgument (type : GlType)
  | samplingArguments (types : List GlType)
  | componentCount (name : String) (got want : Nat)
  | swizzleLength (fields : String) (length : Nat)
  | swizzleOperand (fields : String) (type : GlType)
  | swizzleFields (fields : String) (type : GlType)
  | switchCondition (type : GlType)
  | conversion (type wanted : GlType)
  | coordinateStage (name : String) (stage : Stage)
  | loopCount (type : GlType)
  | breakOutside
  | breakCondition (type : GlType)
  | accumulatorOutside (name : String)
  | functionResult (name : String) (type : GlType)
  | functionArgument (name argument : String) (first other : GlType)
  | callOperand (type : GlType)
  | callCount (name : String) (got want : Nat)
  | callArgument (name : String) (i : Nat) (got want : GlType)
  | varyingStage (name : String)
  | varyingType (name : String) (type : GlType)
  | attributeStage (name : String)
  | attributeSize (name : String) (size : Int) (type : GlType)
  | uniformValue (name : String) (error : StagingError)
  | outputType (stage : Stage) (type : GlType)
  | assembly (error : Glsl.StageError)
  | note (text : String)
deriving DecidableEq, Repr

namespace GraphError

def message : GraphError → String
  | absentOperand => "nil node operand"
  | noOperands name => name ++ ": no operands"
  | operandType name i t =>
    name ++ ": operand " ++ toString i ++ " of type " ++ t.name ++
      " cannot be used in an expression"
  | operandNotBool name i t => name ++ ": operand " ++ toString i ++ " must be bool, got " ++ t.name
  | operandBool name i => name ++ ": operand " ++ toString i ++ " is bool"
  | operandNotScalar name i t =>
    name ++ ": operand " ++ toString i ++ " must be scalar, got " ++ t.name
  | operandMismatch name a b => name ++ ": mismatched operand types " ++ a.name ++ " and " ++ b.name
  | argumentCount name got least most =>
    name ++ ": got " ++ toString got ++ " arguments, want " ++ toString least ++ ".." ++
      toString most
  | argumentInvalid name i t =>
    name ++ ": invalid argument " ++ toString i ++ " of type " ++ t.name
  | argumentNotAllowed name t => name ++ ": argument of type " ++ t.name ++ " not allowed"
  | argumentMismatch name a b =>
    name ++ ": mismatched argument types " ++ a.name ++ " and " ++ b.name
  | crossArgument t => "cross: requires vec3 arguments, got " ++ t.name
  | samplingArguments ts =>
    "texture2D: want (sampler2D, vec2) arguments, got [" ++ " ".intercalate (ts.map (·.name)) ++ "]"
  | componentCount name got want =>
    name ++ ": arguments provide " ++ toString got ++ " components, want " ++ toString want
  | swizzleLength fields n =>
    "swizzle " ++ Text.quoted fields ++ ": " ++ GlType.noLengthMessage n
  | swizzleOperand fields t => "swizzle " ++ Text.quoted fields ++ " of non-vector type " ++ t.name
  | swizzleFields fields t => "swizzle " ++ Text.quoted fields ++ " invalid for " ++ t.name
  | switchCondition t => "switch: condition must be bool, got " ++ t.name
  | conversion t wanted => "cannot convert " ++ t.name ++ " to " ++ wanted.name
  | coordinateStage name stage =>
    name ++ ": gl_FragCoord is not available in the " ++ stage.name ++ " stage"
  | loopCount t => "sumLoop: iteration count must be float, got " ++ t.name
  | breakOutside => "breakIf: used outside of a loop body"
  | breakCondition t => "breakIf: condition must be bool, got " ++ t.name
  | accumulatorOutside name => "loopAccumulator " ++ name ++ ": used outside of a loop body"
  | functionResult name t => "defun " ++ name ++ ": cannot return " ++ t.name
  | functionArgument name argument a b =>
    "defun " ++ name ++ ": argument " ++ Text.quoted argument ++ " used as " ++ a.name ++ " and " ++
      b.name
  | callOperand t => "call: operand of type " ++ t.name ++ " is not a function"
  | callCount name got want =>
    "call " ++ name ++ ": got " ++ toString got ++ " arguments, want " ++ toString want
  | callArgument name i got want =>
    "call " ++ name ++ ": argument " ++ toString i ++ " is " ++ got.name ++ ", want " ++ want.name
  | varyingStage name =>
    name ++ ": varying used outside of a fragment stage paired with a vertex stage"
  | varyingType name t => name ++ ": " ++ t.name ++ " cannot be interpolated"
  | attributeStage name => name ++ ": attributes can only be read in the vertex stage, use Varying"
  | attributeSize name size t =>
    name ++ ": element size " ++ toString size ++ " invalid for " ++ t.name
  | uniformValue name e => name ++ ": " ++ e.message
  | outputType stage t => stage.name ++ " stage output must be float or vector, got " ++ t.name
  | assembly e => e.message
  | note text => text

end GraphError

end ShaderGraph
