import ShaderGraph.Shape.Basic

/-!
# Builders by name

The builders whose operands are all nodes, as a reader of written graphs looks them up.
-/

namespace ShaderGraph

def Build.ofName? (name : String) (operands : List Node) : Option (Build Node) :=
  match name, operands with
  | "varying", [n] => some (varying n)
  | "x", [n] | "y", [n] | "z", [n] | "w", [n] => some (swizzle n name)
  | "break_if", [cond, value] => some (breakIf cond value)
  | "switch", [cond, yes, no] => some (switch cond yes no)
  | "sum_loop", [body, count, initial] => some (sumLoop body count initial)
  | "view", [eye, target, up] => some (view eye target up)
  | "fill", [d, inside, outside] => some (fill d inside outside)
  | "perspective", [fov, aspect, near, far] => some (perspective fov aspect near far)
  | "call", fn :: args => some (call fn args)
  | _, _ =>
    (Operator.ofName? name).map (operator · operands)
      <|> (Builtin.ofName? name).map (builtin · operands)
      <|> (Constructed.ofName? name).map (construct · operands)
      <|> (Node.shared.lookup name).map pure

end ShaderGraph
