/-!
# Binary floating-point values as integers

A finite value of a binary format is `m * 2 ^ q` up to sign. `Binary.Reading` is what a bit
pattern stands for; the shortest and the fixed decimal texts are both computed from it.
-/

namespace ShaderGraph.Decimal

/-- The size of `m * 2 ^ q`. `narrowBelow` says that the gap to the next smaller value is half
the gap to the next larger one. -/
structure Binary where
  m : Nat
  q : Int
  narrowBelow : Bool
deriving DecidableEq, Repr

inductive Reading where
  | nan
  | infinity (negative : Bool)
  | finite (negative : Bool) (value : Binary)
deriving DecidableEq, Repr

/-- Reads a bit pattern with `fractionBits` bits of fraction below `exponentBits` bits of
exponent below a sign bit. -/
def Reading.ofBits (fractionBits exponentBits bits : Nat) : Reading :=
  let fraction := bits % Nat.pow 2 fractionBits
  let exponent := bits / Nat.pow 2 fractionBits % Nat.pow 2 exponentBits
  let negative := bits / Nat.pow 2 (fractionBits + exponentBits) % 2 == 1
  let bias : Int := Nat.pow 2 (exponentBits - 1) - 1 + fractionBits
  if exponent = Nat.pow 2 exponentBits - 1 then
    if fraction = 0 then .infinity negative else .nan
  else if exponent = 0 then
    .finite negative ⟨fraction, 1 - bias, false⟩
  else
    .finite negative
      ⟨fraction + Nat.pow 2 fractionBits, exponent - bias, fraction == 0 && exponent > 1⟩

def readSingle (x : Float32) : Reading := .ofBits 23 8 x.toBits.toNat

def readDouble (x : Float) : Reading := .ofBits 52 11 x.toBits.toNat

end ShaderGraph.Decimal
