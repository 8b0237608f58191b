import ShaderGraph.Decimal.Binary

/-!
# The fewest digits that read back

The reals that round to `m * 2 ^ q` form an interval whose ends belong to it exactly when `m`
is even. `shortest` takes the coarsest power of ten with a multiple in that interval; of two
multiples it takes the nearer one, and of two equally near ones the even one.
-/

namespace ShaderGraph.Decimal

structure Scaled where
  digits : Nat
  exponent : Int
deriving DecidableEq, Repr

namespace Binary

/-- The product `d * 10 ^ p` compares with `x * 2 ^ (q - 2)` as `d * (b.tens p)` with
`x * (b.twos p)`. -/
def tens (b : Binary) (p : Int) : Nat := Nat.pow 10 p.toNat * Nat.pow 2 (2 - b.q).toNat

def twos (b : Binary) (p : Int) : Nat := Nat.pow 10 (-p).toNat * Nat.pow 2 (b.q - 2).toNat

def lower (b : Binary) : Nat := if b.narrowBelow then 4 * b.m - 1 else 4 * b.m - 2

def upper (b : Binary) : Nat := 4 * b.m + 2

def readsBack (b : Binary) (d : Nat) (p : Int) : Bool :=
  let x := d * b.tens p
  let lo := b.lower * b.twos p
  let hi := b.upper * b.twos p
  if b.m % 2 = 0 then lo ≤ x && x ≤ hi else lo < x && x < hi

def multiple? (b : Binary) (p : Int) : Option Nat :=
  let v := 4 * b.m * b.twos p
  let t := b.tens p
  let d := v / t
  match b.readsBack d p, b.readsBack (d + 1) p with
  | true, false => some d
  | false, true => some (d + 1)
  | false, false => none
  | true, true =>
    if 2 * v < (2 * d + 1) * t then some d
    else if (2 * d + 1) * t < 2 * v then some (d + 1)
    else if d % 2 = 0 then some d else some (d + 1)

def top (b : Binary) : Int := (((b.m.log2 + 1 : Nat) : Int) + b.q).toNat / 3 + 1

/-- Tries the powers `10 ^ p`, `10 ^ (p - 1)`, … -/
def search (b : Binary) : Nat → Int → Option Scaled
  | 0, _ => none
  | n + 1, p =>
    match b.multiple? p with
    | some d => some ⟨d, p⟩
    | none => search b n (p - 1)

def exact (b : Binary) : Scaled :=
  if 0 ≤ b.q then ⟨b.m * Nat.pow 2 b.q.toNat, 0⟩
  else ⟨b.m * Nat.pow 5 (-b.q).toNat, b.q⟩

def shortest (b : Binary) : Scaled :=
  (b.search (b.top - min b.q 0 + 1).toNat b.top).getD b.exact

end Binary

end ShaderGraph.Decimal
