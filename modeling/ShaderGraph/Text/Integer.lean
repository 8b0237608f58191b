import ShaderGraph.Number.Word

/-!
# Integers in words of 64 bits

`readInteger` takes a base prefix and underscores between digits; `readDecimal` takes neither.
A number too large for its digits to be counted is reported before what follows it is looked at.
-/

namespace ShaderGraph.Text

inductive IntegerError where
  | malformed
  | outOfRange
deriving DecidableEq, Repr

def IntegerError.message : IntegerError → String
  | .malformed => "invalid syntax"
  | .outOfRange => "value out of range"

def digitValue? (c : Char) : Option Nat :=
  if c.isDigit then some (c.toNat - '0'.toNat)
  else if c.isLower then some (c.toNat - 'a'.toNat + 10)
  else if c.isUpper then some (c.toNat - 'A'.toNat + 10)
  else none

/-- Reads on from `n`; underscores are skipped when `separated`. -/
def readDigits (base : Nat) (separated : Bool) : List Char → Nat → Except IntegerError Nat
  | [], n => .ok n
  | c :: cs, n =>
    if separated && c == '_' then readDigits base separated cs n
    else match digitValue? c with
      | none => .error .malformed
      | some d =>
        if base ≤ d then .error .malformed
        else if Word.count ≤ n * base + d then .error .outOfRange
        else readDigits base separated cs (n * base + d)

/-- Whether every underscore stands between digits, `afterDigit` telling what came before. -/
def separatorsOk (afterDigit : Bool) : List Char → Bool
  | [] => true
  | ['_'] => false
  | '_' :: cs => afterDigit && cs.head? ≠ some '_' && separatorsOk false cs
  | _ :: cs => separatorsOk true cs

/-- The base that a prefix gives, the digits after it, and whether the prefix counts as one. -/
def splitBase : List Char → Nat × List Char × Bool
  | '0' :: c :: d :: cs =>
    if c == 'x' || c == 'X' then (16, d :: cs, true)
    else if c == 'o' || c == 'O' then (8, d :: cs, true)
    else if c == 'b' || c == 'B' then (2, d :: cs, true)
    else (8, c :: d :: cs, true)
  | '0' :: cs => (8, cs, true)
  | cs => (10, cs, false)

def signed (negative : Bool) (n : Nat) : Except IntegerError Int :=
  if negative then if Word.limit < n then .error .outOfRange else .ok (-n)
  else if Word.limit ≤ n then .error .outOfRange else .ok n

def splitSign : List Char → Bool × List Char
  | '-' :: cs => (true, cs)
  | '+' :: cs => (false, cs)
  | cs => (false, cs)

def readDecimal (s : String) : Except IntegerError Int := do
  let (negative, cs) := splitSign s.toList
  if cs.isEmpty then throw .malformed
  signed negative (← readDigits 10 false cs 0)

/-- Decimal, or after `0x`, `0o`, `0` or `0b` in the base that these stand for. -/
def readInteger (s : String) : Except IntegerError Int := do
  let (negative, cs) := splitSign s.toList
  if cs.isEmpty then throw .malformed
  let (base, digits, prefixed) := splitBase cs
  let n ← readDigits base true digits 0
  if !separatorsOk prefixed digits then throw .malformed
  signed negative n

end ShaderGraph.Text
