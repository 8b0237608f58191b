import ShaderGraph.Glsl.Literal

/-!
# Matrix element order

Graph matrices are row-major; GLSL reads constructors and uploads column by column.
-/

namespace ShaderGraph.Glsl

/-- The elements at `j * rows + i` for each `i < rows` and, within it, each `j < cols`. -/
def strided {α : Type} (rows cols : Nat) (values : List α) : List α :=
  (List.range rows).flatMap fun i => (List.range cols).filterMap fun j => values[j * rows + i]?

def strided? {α : Type} (rows cols : Nat) (values : List α) : Option (List α) :=
  if rows * cols ≤ values.length then some (strided rows cols values) else none

/-- Appends the literal of the element at `j * rows + i`, and a comma unless it is the last. -/
def appendElement (rows cols : Nat) (values : List Float32) (i : Nat) (b : List UInt8) (j : Nat) :
    Option (List UInt8) :=
  (values[j * rows + i]?).map fun v =>
    let b := appendLiteral b v
    if i = rows - 1 ∧ j = cols - 1 then b else b ++ bytes ","

def appendColumnMajor (b : List UInt8) (rows cols : Nat) (values : List Float32) : Option (List UInt8) :=
  (List.range rows).foldlM (fun b i => (List.range cols).foldlM (appendElement rows cols values i) b) b

def columnMajor {α : Type} (n : Nat) (values : List α) : List α :=
  (List.range n).flatMap fun c => (List.range n).filterMap fun r => values[r * n + c]?

def appendColumns (dst : List Float32) (n : Nat) (values : List Float32) : Option (List Float32) :=
  (List.range n).foldlM (fun dst c =>
    (List.range n).foldlM (fun dst r => (values[r * n + c]?).map fun v => dst ++ [v]) dst) dst

end ShaderGraph.Glsl
