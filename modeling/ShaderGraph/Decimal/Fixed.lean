import ShaderGraph.Decimal.Binary

/-! # A fixed number of decimal places -/

namespace ShaderGraph.Decimal

/-- The quotient `num / den` rounded to the nearest integer, a half to the even neighbour. -/
def roundDiv (num den : Nat) : Nat :=
  let d := num / den
  let r := num % den
  if 2 * r < den then d else if den < 2 * r then d + 1 else if d % 2 = 0 then d else d + 1

def Binary.fixed (b : Binary) (places : Nat) : Nat :=
  roundDiv (b.m * Nat.pow 10 places * Nat.pow 2 b.q.toNat) (Nat.pow 2 (-b.q).toNat)

end ShaderGraph.Decimal
