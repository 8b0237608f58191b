import ShaderGraph.Decimal.Fixed

/-!
# Single precision values

Operations on single precision values that read or set their bits, and the extremes with their
rules for infinities, signed zeros and NaN.
-/

namespace ShaderGraph.Number

open Decimal (Binary Reading readSingle roundDiv)

def infinity : Float32 := Float32.ofBits 0x7f800000

def notANumber : Float32 := Float32.ofBits 0x7fc00000

/-- Neither NaN nor infinite: what can be written as a literal. -/
def finite (x : Float32) : Bool := x.isFinite

def negative (x : Float32) : Bool := x.toBits >>> 31 == 1

def magnitude (x : Float32) : Float32 := Float32.ofBits (x.toBits &&& 0x7fffffff)

def withSign (x s : Float32) : Float32 :=
  Float32.ofBits (x.toBits &&& 0x7fffffff ||| s.toBits &&& 0x80000000)

/-- Toward zero; NaN and infinities give zero. -/
def truncate (x : Float32) : Int :=
  match readSingle x with
  | .finite neg b =>
    let n : Nat := b.m * Nat.pow 2 b.q.toNat / Nat.pow 2 (-b.q).toNat
    if neg then -(n : Int) else n
  | _ => 0

/-- To the nearest integer, a half to the even one; what a signed word of 32 bits cannot hold
gives its least value. -/
def nearestWord (x : Float32) : Int :=
  match readSingle x with
  | .finite neg b =>
    let n : Nat := roundDiv (b.m * Nat.pow 2 b.q.toNat) (Nat.pow 2 (-b.q).toNat)
    let k : Int := if neg then -(n : Int) else n
    if -0x80000000 ≤ k ∧ k < 0x80000000 then k else -0x80000000
  | _ => -0x80000000

def ofInt (n : Int) : Float32 := Float32.ofInt n

def powerOfTwo (e : Int) : Float32 := Float32.ofBits ((e + 127).toNat.toUInt32 <<< 23)

/-- Writes `x` as `f * 2 ^ e` with `1 ≤ |f| < 2`; for zero, infinities and NaN there is no such
form. -/
def split? (x : Float32) : Option (Float32 × Int) :=
  match readSingle x with
  | .finite neg b =>
    if b.m = 0 then none else
      let top := b.m.log2
      let fraction := b.m * Nat.pow 2 (23 - top) - 0x800000
      let bits := (if neg then 0x80000000 else 0) + 0x3f800000 + fraction
      some (Float32.ofBits bits.toUInt32, top + b.q)
  | _ => none

/-- The product `x * 2 ^ e`, rounded once when the result is below the normal range. -/
def scale (x : Float32) (e : Int) : Float32 :=
  match split? x with
  | none => x
  | some (f, e') =>
    let total := e' + e
    if total < -149 then withSign 0 x
    else if total > 127 then withSign infinity x
    else if total < -126 then f * powerOfTwo (total + 24) * powerOfTwo (-24)
    else f * powerOfTwo total

def floor (x : Float32) : Float32 := x.floor

def ceil (x : Float32) : Float32 := -(floor (-x))

def fract (x : Float32) : Float32 := x - floor x

def signum (x : Float32) : Float32 := if x > 0 then 1 else if x < 0 then -1 else 0

def max (x y : Float32) : Float32 :=
  if x == infinity || y == infinity then infinity
  else if x.isNaN || y.isNaN then notANumber
  else if x == 0 && y == 0 then (if negative x then y else x)
  else if x > y then x else y

def min (x y : Float32) : Float32 :=
  if x == -infinity || y == -infinity then -infinity
  else if x.isNaN || y.isNaN then notANumber
  else if x == 0 && y == 0 then (if negative x then x else y)
  else if x < y then x else y

def clamp (x lo hi : Float32) : Float32 := min hi (max x lo)

def lerp (x y t : Float32) : Float32 := x * (1 - t) + y * t

/-- Adds the next coefficient and multiplies by `z`, except after the last one. -/
def hornerSteps (z r : Float32) : List Float32 → Float32
  | [] => r
  | [c] => r + c
  | c :: cs => hornerSteps z ((r + c) * z) cs

/-- The value at `z` of a polynomial given by its coefficients, the highest power first. -/
def horner (coefficients : List Float32) (z : Float32) : Float32 :=
  match coefficients with
  | [] => 0
  | c :: cs => hornerSteps z (c * z) cs

end ShaderGraph.Number
