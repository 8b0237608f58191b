import ShaderGraph.Decimal.Fixed
import ShaderGraph.Decimal.Numeral

/-!
# Float literals

A literal has the fewest digits that read back as the value, with a point and at least one
digit after it, so that GLSL reads it as a float. `identifierText` writes a value with nine
decimal places and freely chosen marks, for use inside identifiers.
-/

namespace ShaderGraph.Glsl

def literal (v : Float32) : String := (Decimal.readSingle v).text Decimal.Numeral.pointed

def literals (vs : List Float32) : String := ",".intercalate (vs.map literal)

def identifierPlaces : Nat := 9

def dropTrailing (c : Char) (cs : List Char) : List Char :=
  (cs.reverse.dropWhile (· == c)).reverse

def padded (width n : Nat) : List Char :=
  let ds := Nat.toDigits 10 n
  List.replicate (width - ds.length) '0' ++ ds

/-- The decimal text of `v` with trailing zeros of the fraction dropped, `minus` for a minus sign
and `point` for the point, which is always written. -/
def identifierText (minus point : Char) (v : Float32) : String :=
  match Decimal.readSingle v with
  | .nan => "NaN"
  | .infinity negative => if negative then minus.toString ++ "Inf" else "+Inf"
  | .finite negative b =>
    let n := b.fixed identifierPlaces
    let scale := Nat.pow 10 identifierPlaces
    String.ofList <|
      (if negative then [minus] else []) ++ Nat.toDigits 10 (n / scale) ++ point ::
        dropTrailing '0' (padded identifierPlaces (n % scale))

/-! ## Bytes -/

def bytes (s : String) : List UInt8 := s.toList.map Char.toUInt8

/-- Gives the number that the bytes end with from `start` on a point, before its exponent. -/
def withPoint (start : Nat) (b : List UInt8) : List UInt8 :=
  let text := b.drop start
  if !text.any (bytes ".eEnN").contains then b ++ bytes ".0" else
    match text.findIdx? (bytes "eE").contains with
    | none => b
    | some i =>
      if (text.take i).contains '.'.toUInt8 then b
      else b.take (start + i) ++ bytes ".0" ++ b.drop (start + i)

def appendLiteral (b : List UInt8) (v : Float32) : List UInt8 :=
  withPoint b.length (b ++ bytes (Decimal.singleText v))

def appendLiterals (b : List UInt8) : List Float32 → List UInt8
  | [] => b
  | v :: vs => vs.foldl (fun b v => appendLiteral (b ++ bytes ",") v) (appendLiteral b v)

end ShaderGraph.Glsl
