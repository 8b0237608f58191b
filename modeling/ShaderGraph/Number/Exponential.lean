import ShaderGraph.Number.Single

/-!
# Exponentials, logarithms and powers

Single precision approximations. Every operation rounds to single precision in the order
written.
-/

namespace ShaderGraph.Number

def exp (x : Float32) : Float32 :=
  if x.isNaN || x == infinity then x
  else if x == -infinity then 0
  else
    let k := nearestWord (x * 1.44269502162933349609375)
    let kf := ofInt k
    let x := x - 0.693145751953125 * kf
    let x := x - 1.428606765330187045e-06 * kf
    let x := x * 0.0625
    -- The estimate starts from the exponent itself, not from zero.
    let y := kf + 0.00836596917361021041870117
    let y := y * x + 0.0416710823774337768554688
    let y := y * x + 0.166665524244308471679688
    let y := y * x + 0.5
    let y := y * x + 1
    let x := x * y
    let x := x * (x + 2)
    let x := x * (x + 2)
    let x := x * (x + 2)
    let x := x * (x + 2)
    let x := x + 1
    if k + 127 ≤ 0 then 0 else if k + 127 ≥ 255 then infinity else x * powerOfTwo k

def expParts (hi lo : Float32) (k : Int) : Float32 :=
  let r := hi - lo
  let t := r * r
  let c := r - t * (1.6666667163e-01 + t * (-2.7777778450e-03 + t * (6.6137559770e-05 +
    t * (-1.6533901999e-06 + t * 4.1381369442e-08))))
  let y := 1 - ((lo - (r * c) / (2 - c)) - hi)
  scale y k

def exp2 (x : Float32) : Float32 :=
  if x.isNaN || x == infinity then x
  else if x == -infinity then 0
  else if x > 1024 then infinity
  else if x < -1074 then 0
  else
    let k := if x > 0 then truncate (x + 0.5) else if x < 0 then truncate (x - 0.5) else 0
    let t := x - ofInt k
    expParts (t * 6.9313812256e-01) (-t * 9.0580006145e-06) k

/-- The natural logarithm. Values below the normal range are read as if they had its least
exponent. -/
def log (x : Float32) : Float32 :=
  if x == 0 then -infinity
  else if x.isNaN || x == infinity then x
  else if x < 0 then notANumber
  else
    let bits := x.toBits
    let f := Float32.ofBits (bits &&& 0x7fffff ||| 0x3f000000)
    let k : Int := ((bits >>> 23 &&& 255).toNat : Int) - 126
    let (k, f) := if f ≤ 0.70710678118654752440 then (k - 1, f * 2) else (k, f)
    let f := f - 1
    let k := ofInt k
    let s := f / (2 + f)
    let s2 := s * s
    let s4 := s2 * s2
    let t1 := s2 * (6.6666668653e-01 + s4 * (2.8571429849e-01 + s4 * (1.8183572590e-01 +
      s4 * 1.4798198640e-01)))
    let t2 := s4 * (4.0000000596e-01 + s4 * (2.2222198546e-01 + s4 * 1.5313838422e-01))
    let r := t1 + t2
    let h := (0.5 * f) * f
    k * 6.9313812256e-01 - ((h - (s * (h + r) + k * 9.0580006145e-06)) - f)

def isOdd (y : Float32) : Bool := floor y == y && truncate y % 2 == 1

/-- Raises `f * 2 ^ e` to the power `n`, multiplied onto `a * 2 ^ ae`; the mantissa of the
running square is kept in `[1/2, 1)`. -/
def powerSteps : Nat → Nat → Float32 → Int → Float32 → Int → Float32 × Int
  | 0, _, _, _, a, ae => (a, ae)
  | fuel + 1, n, f, e, a, ae =>
    if n = 0 then (a, ae) else
      let (a, ae) := if n % 2 = 1 then (a * f, ae + e) else (a, ae)
      let f := f * f
      let e := 2 * e
      let (f, e) := if f < 0.5 then (f + f, e - 1) else (f, e)
      powerSteps fuel (n / 2) f e a ae

def powFinite (x y : Float32) : Float32 :=
  let size := magnitude y
  let yi := floor size
  let yf := size - yi
  if yf != 0 && x < 0 then notANumber
  else if yi ≥ 2147483648 then exp (y * log x)
  else
    let (yi, a) :=
      if yf != 0 then
        let (yi, yf) := if yf > 0.5 then (yi + 1, yf - 1) else (yi, yf)
        (yi, exp (yf * log x))
      else (yi, 1)
    let (f, e) := (split? x).getD (x, 0)
    let (a, ae) := powerSteps 64 (truncate yi).toNat (f * 0.5) (e + 1) a 0
    if y < 0 then scale (1 / a) (-ae) else scale a ae

def powOfFinite (x y : Float32) : Float32 :=
  if x.isNaN || y.isNaN then notANumber
  else if x == 0 then
    if y < 0 then (if isOdd y then withSign infinity x else infinity)
    else if isOdd y then x else 0
  else if y.isInf then
    if x == -1 then 1 else if (magnitude x < 1) == (y > 0) then 0 else infinity
  else powFinite x y

def pow (x y : Float32) : Float32 :=
  if y == 0 || x == 1 then 1
  else if y == 1 then x
  else if y == 0.5 then x.sqrt
  else if y == -0.5 then 1 / x.sqrt
  else if x.isNaN || y.isNaN then notANumber
  else if y.isInf then powOfFinite x y
  -- A negative infinity is the inverse of a negative zero.
  else if x == -infinity then (if y == -1 then 1 / x else powOfFinite (1 / x) (-y))
  else if x == infinity then (if y < 0 then 0 else infinity)
  else powOfFinite x y

end ShaderGraph.Number
