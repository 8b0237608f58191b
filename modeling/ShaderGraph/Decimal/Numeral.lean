import ShaderGraph.Decimal.Shortest

/-!
# Numerals

How a decimal is laid out: positionally when its leading digit stands for `10 ^ -4` to
`10 ^ 5`, otherwise with an exponent of a sign and at least two digits.
-/

namespace ShaderGraph.Decimal

/-- The parts of a written number: digits before the point, digits after it, exponent. -/
structure Numeral where
  negative : Bool
  whole : List Char
  fraction : List Char
  exponent : Option Int
deriving DecidableEq, Repr

namespace Numeral

/-- Whether a leading digit that stands for `10 ^ e` is written positionally. -/
def positional (e : Int) : Bool := -4 ≤ e && e < 6

def ofScaled (negative : Bool) (d : Scaled) : Numeral :=
  if d.digits = 0 then ⟨negative, ['0'], [], none⟩ else
    let ds := Nat.toDigits 10 d.digits
    let point : Int := ds.length + d.exponent
    if positional (point - 1) then
      if point ≤ 0 then
        ⟨negative, ['0'], List.replicate (-point).toNat '0' ++ ds, none⟩
      else
        let n := point.toNat
        ⟨negative, ds.take n ++ List.replicate (n - ds.length) '0', ds.drop n, none⟩
    else
      ⟨negative, ds.take 1, ds.drop 1, some (point - 1)⟩

def signText (negative : Bool) : String := if negative then "-" else ""

def exponentText : Option Int → String
  | none => ""
  | some e =>
    let ds := Nat.toDigits 10 e.natAbs
    let padded := List.replicate (2 - ds.length) '0' ++ ds
    (if e < 0 then "e-" else "e+") ++ String.ofList padded

def plain (n : Numeral) : String :=
  signText n.negative ++ String.ofList n.whole ++
    (if n.fraction.isEmpty then "" else "." ++ String.ofList n.fraction) ++
    exponentText n.exponent

def pointed (n : Numeral) : String :=
  signText n.negative ++ String.ofList n.whole ++ "." ++
    String.ofList (if n.fraction.isEmpty then ['0'] else n.fraction) ++ exponentText n.exponent

end Numeral

def Reading.text (finite : Numeral → String) : Reading → String
  | .nan => "NaN"
  | .infinity negative => if negative then "-Inf" else "+Inf"
  | .finite negative b => finite (.ofScaled negative b.shortest)

def singleText (x : Float32) : String := (readSingle x).text Numeral.plain

def doubleText (x : Float) : String := (readDouble x).text Numeral.plain

end ShaderGraph.Decimal
