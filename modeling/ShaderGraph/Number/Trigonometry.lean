import ShaderGraph.Number.Single

/-!
# Trigonometric functions

Single precision approximations. An angle is reduced to an octant and a rest in
`[-π/4, π/4]`, where a polynomial or a quotient of two gives the value. Every operation rounds
to single precision in the order written.
-/

namespace ShaderGraph.Number

/-- The octant of a non-negative angle, rounded up to an even one, and the rest. -/
def octant (x : Float32) : Int × Float32 :=
  let j := truncate (x * 1.27323954473516268615)
  let (j, y) := if j % 2 = 1 then (j + 1, ofInt j + 1) else (j, ofInt j)
  (j, ((x - y * 7.85398125648498535156e-1) - y * 3.77489470793079817668e-8) -
    y * 2.69515142907905952645e-15)

def sinRest (z : Float32) : Float32 :=
  let zz := z * z
  z + (z * zz) * horner [1.58962301576546568060e-10, -2.50507477628578072866e-8,
    2.75573136213857245213e-6, -1.98412698295895385996e-4, 8.33333333332211858878e-3,
    -1.66666666666666307295e-1] zz

def cosRest (z : Float32) : Float32 :=
  let zz := z * z
  (1 - 0.5 * zz) + (zz * zz) * horner [-1.13585365213876817300e-11, 2.08757008419747316778e-9,
    -2.75573141792967388112e-7, 2.48015872888517045348e-5, -1.38888888888730564116e-3,
    4.16666666666665929218e-2] zz

def sin (x : Float32) : Float32 :=
  if x == 0 || x.isNaN then x
  else if x.isInf then notANumber
  else
    let (j, z) := octant (magnitude x)
    let j := j % 8
    let (flip, j) := if j > 3 then (true, j - 4) else (false, j)
    let y := if j = 1 ∨ j = 2 then cosRest z else sinRest z
    if xor (x < 0) flip then -y else y

def cos (x : Float32) : Float32 :=
  if x.isNaN || x.isInf then notANumber
  else
    let (j, z) := octant (magnitude x)
    let j := j % 8
    let (flip, j) := if j > 3 then (true, j - 4) else (false, j)
    let flip := if j > 1 then !flip else flip
    let y := if j = 1 ∨ j = 2 then sinRest z else cosRest z
    if flip then -y else y

def tan (x : Float32) : Float32 :=
  if x == 0 || x.isNaN then x
  else if x.isInf then notANumber
  else
    let (j, z) := octant (magnitude x)
    let zz := z * z
    let y :=
      if zz > 1e-14 then
        z + z * ((zz * ((-1.30936939181383777646e4 * zz + 1.15351664838587416140e6) * zz +
          -1.79565251976484877988e7)) / ((((zz + 1.36812963470692954678e4) * zz +
          -1.32089234440210967447e6) * zz + 2.50083801823357915839e7) * zz +
          -5.38695755929454629881e7))
      else z
    let y := if j % 4 ≥ 2 then -1 / y else y
    if x < 0 then -y else y

def atanRest (x : Float32) : Float32 :=
  let z := x * x
  let z := (z * horner [-8.750608600031904122785e-01, -1.615753718733365076637e+01,
      -7.500855792314704667340e+01, -1.228866684490136173410e+02, -6.485021904942025371773e+01] z) /
    (((((z + 2.485846490142306297962e+01) * z + 1.650270098316988542046e+02) * z +
      4.328810604912902668951e+02) * z + 4.853903996359136964868e+02) * z +
      1.945506571482613964425e+02)
  x * z + x

def pi : Float32 := 3.14159265358979323846

def halfPi : Float32 := 1.57079632679489661923

def quarterPi : Float32 := 0.785398163397448309616

def atanPositive (x : Float32) : Float32 :=
  if x ≤ 0.66 then atanRest x
  else if x > 2.41421356237309504880 then
    (halfPi - atanRest (1 / x)) + 6.123233995736765886130e-17
  else (quarterPi + atanRest ((x - 1) / (x + 1))) + 3.061616997868382943065e-17

def atan (x : Float32) : Float32 :=
  if x == 0 then x else if x > 0 then atanPositive x else -(atanPositive (-x))

def atan2 (y x : Float32) : Float32 :=
  if x.isNaN || y.isNaN then notANumber
  else if y == 0 then
    if x ≥ 0 && !negative x then withSign 0 y else withSign pi y
  else if x == 0 then withSign halfPi y
  else if x.isInf then
    if x > 0 then withSign (if y.isInf then quarterPi else 0) y
    else withSign (if y.isInf then 2.35619449019234492885 else pi) y
  else if y.isInf then withSign halfPi y
  else
    let q := atan (y / x)
    if x < 0 then (if q ≤ 0 then q + pi else q - pi) else q

end ShaderGraph.Number
