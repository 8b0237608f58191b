import ShaderGraph.Toml.Scan

/-!
# Numbers and dates in TOML

The scanner takes the characters of a number or date; what they stand for is decided when the
value is needed. So a key that nobody reads may have an impossible date.
-/

namespace ShaderGraph.Toml

inductive MomentKind where
  | date
  | time
  | dateTime
  | instant
deriving DecidableEq, Repr

inductive Numeric where
  | integer (text : List Char)
  | float (text : List Char)
  | moment (kind : MomentKind) (text : List Char)
deriving DecidableEq, Repr

/-! ## Scanning -/

structure MomentParts where
  date : Bool := false
  time : Bool := false
  zone : Bool := false
  spaced : Bool := false

def MomentParts.kind (p : MomentParts) : MomentKind :=
  if !p.time then .date
  else if !p.date then .time
  else if p.zone then .instant else .dateTime

/-- Takes the characters of a date or time, from place `i` on. One blank may divide date and time
where a digit follows; the character after that digit is taken as it is. -/
def momentChars (i : Nat) (p : MomentParts) : List Char → MomentParts × List Char × List Char
  | [] => (p, [], [])
  | ' ' :: d :: rest =>
    if !p.spaced && d.isDigit then
      let p := { p with spaced := true, time := true }
      match rest with
      | [] => (p, [' ', d], [])
      | x :: rest =>
        let (p, t, r) := momentChars (i + 3) p rest
        (p, ' ' :: d :: x :: t, r)
    else (p, [], ' ' :: d :: rest)
  | c :: cs =>
    let on (p : MomentParts) :=
      let (p, t, r) := momentChars (i + 1) p cs
      (p, c :: t, r)
    if c.isDigit then on p
    else if c == '-' then on { p with date := true, zone := p.zone || 8 ≤ i }
    else if c == 'T' || c == 't' || c == ':' || c == '.' then on { p with time := true }
    else if c == '+' || c == 'Z' || c == 'z' then on { p with zone := true }
    else (p, [], c :: cs)

/-- A date starts with four digits and a hyphen, a time with two digits and a colon. -/
def startsMoment (cs : List Char) : Bool :=
  let digits := (cs.take 5).takeWhile Char.isDigit
  (digits.length == 2 && cs[2]? == some ':') || (digits.length == 4 && cs[4]? == some '-')

/-- Takes the characters of a number; answers also whether it is a float. -/
def numberChars : List Char → Except Fault (Bool × List Char × List Char)
  | [] => .ok (false, [], [])
  | c :: cs =>
    if c.isDigit || c == '+' || c == '-' || c == '_' then do
      let (f, t, r) ← numberChars cs
      pure (f, c :: t, r)
    else if c == '.' || c == 'e' || c == 'E' then do
      let (_, t, r) ← numberChars cs
      pure (true, c :: t, r)
    else if c == 'i' || c == 'n' then
      let word := (c :: cs).take 3
      if word = ['i', 'n', 'f'] || word = ['n', 'a', 'n'] then .ok (true, word, cs.drop 2)
      else failForm (.numberCharacter c) (c :: cs)
    else .ok (false, [], c :: cs)

def baseDigit? (c : Char) : Option (Char → Bool) :=
  let below (n : Nat) (d : Char) := d == '_' || (Text.digitValue? d).any (· < n)
  match c with
  | 'x' => some (below 16)
  | 'o' => some (below 8)
  | 'b' => some (below 2)
  | _ => none

def number : Scan Numeric := fun cs =>
  let general : Except Fault (Numeric × List Char) := do
    let (float, t, r) ← numberChars cs
    if t.isEmpty then failForm .numberIncomplete cs
    else pure (if float then .float t else .integer t, r)
  match cs with
  | '0' :: c :: d :: rest =>
    if c == '.' || c == 'e' || c == 'E' then general
    else match baseDigit? c with
      | none => .ok (.integer ['0'], c :: d :: rest)
      | some ok =>
        let digits := (d :: rest).takeWhile ok
        .ok (.integer ('0' :: c :: digits), (d :: rest).drop digits.length)
  | _ => general

def numberWord (word : String) : Scan Numeric := fun cs =>
  if cs.take 3 = word.toList then .ok (.float (cs.take 3), cs.drop 3)
  else failForm (.wordExpected word) cs

def numeric : Scan Numeric := fun cs =>
  match cs with
  | 'i' :: _ => numberWord "inf" cs
  | 'n' :: _ => numberWord "nan" cs
  | _ =>
    if startsMoment cs then
      let (p, t, r) := momentChars 0 {} cs
      .ok (.moment p.kind t, r)
    else number cs

/-! ## Integers -/

/-- What a text stands for, or what is wrong with it and at which of its characters. -/
abbrev Meaning (α : Type) := Except (Problem × Nat) α

def noNumber {α : Type} (p : NumberProblem) (i : Nat) : Meaning α := .error (.number p, i)

def noMoment {α : Type} (p : MomentProblem) (i : Nat) : Meaning α := .error (.moment p, i)

def shifted {α : Type} (n : Nat) (m : Meaning α) : Meaning α := m.mapError fun (p, i) => (p, n + i)

def doubled? (cs : List Char) : Option Nat :=
  (cs.zip (cs.drop 1)).findIdx? fun (a, b) => a == '_' && b == '_'

def signOf : List Char → List Char × List Char
  | '+' :: cs => (['+'], cs)
  | '-' :: cs => (['-'], cs)
  | cs => ([], cs)

/-- Removes underscores that stand between other characters. -/
def joined (cs : List Char) : Meaning (List Char) :=
  let (sign, digits) := signOf cs
  if digits.head? = some '_' then noNumber .underscoreAtStart sign.length
  else if digits.getLast? = some '_' then noNumber .underscoreAtEnd (cs.length - 1)
  else match doubled? cs with
    | some i => noNumber .underscores i
    | none => .ok (cs.filter (· ≠ '_'))

/-- An integer in a base, of which `skip` characters are the mark. -/
def basedInteger (base skip : Nat) (name : String) (digits : List Char) : Meaning Int := do
  let ds ← shifted skip (joined digits)
  let n := do Text.signed false (← Text.readDigits base false ds 0)
  n.mapError fun e => (.number (.malformedInteger name (String.ofList ds) e), 0)

def integer : List Char → Meaning Int
  | '0' :: 'x' :: d :: ds => basedInteger 16 2 "hexadecimal" (d :: ds)
  | '0' :: 'o' :: d :: ds => basedInteger 8 2 "octal" (d :: ds)
  | '0' :: 'b' :: d :: ds => basedInteger 2 2 "binary" (d :: ds)
  | cs => do
    let ds ← joined cs
    let digits := (signOf ds).2
    if 1 < digits.length ∧ digits.head? = some '0' then noNumber .leadingZero 0
    let s := String.ofList ds
    (Text.readDecimal s).mapError fun e => (.number (.malformedInteger "decimal" s e), 0)

/-! ## Floats -/

/-- What is wrong with the underscores of a float, from place `i` on. `spaced` tells whether a
digit came since the last underscore or sign. -/
def floatUnderscores (i : Nat) (spaced : Bool) (before : Option Char) : List Char → Meaning Unit
  | [] => .ok ()
  | c :: cs =>
    let next := cs.head?
    let on (spaced : Bool) := floatUnderscores (i + 1) spaced (some c) cs
    if c == '_' then
      if !spaced then noNumber .underscores (i - 1)
      else if next = some 'e' || next = some 'E' then noNumber .underscoreBeforeExponent (i + 1)
      else on false
    else if c == '+' || c == '-' then on false
    else if c == 'e' || c == 'E' then
      if next = some '_' then noNumber .underscoreAfterExponent (i + 1) else on spaced
    else if c == '.' then
      if next = some '_' then noNumber .underscoreAfterPoint (i + 1)
      else if before = some '_' then noNumber .underscoreBeforePoint (i - 1)
      else on spaced
    else on true

def joinedFloat (cs : List Char) : Meaning (List Char) := do
  if cs.head? = some '_' then noNumber .underscoreAtStart 0
  if cs.getLast? = some '_' then noNumber .underscoreAtEnd (cs.length - 1)
  if cs.contains '_' then floatUnderscores 0 false none cs
  pure (cs.filter (· ≠ '_'))

/-- Checks that there is one point at most and that it stands between digits. -/
def checkPoint (i : Nat) (seen : Bool) (before : Option Char) : List Char → Meaning Unit
  | [] => .ok ()
  | c :: cs =>
    if c == '.' then
      if seen then noNumber .secondPoint i
      else if !before.any (·.isDigit) then noNumber .noDigitBeforePoint (i - 1)
      else if !cs.head?.any (·.isDigit) then noNumber .noDigitAfterPoint i
      else checkPoint (i + 1) true (some c) cs
    else checkPoint (i + 1) seen (some c) cs

/-- Exponents of ten past which a float overflows, whatever its digits. -/
def greatestPower : Int := 310

/-- And below which it is zero. -/
def leastPower : Int := -330

def nearestFloat (m : Nat) (e : Int) : Except Text.IntegerError Float :=
  let top := (Nat.toDigits 10 m).length + e
  if m = 0 || top < leastPower then .ok 0
  else if greatestPower < top then .error .outOfRange
  else
    let x := Float.ofScientific m (e < 0) e.natAbs
    if x.isInf then .error .outOfRange else .ok x

def natOf (ds : List Char) : Nat := ds.foldl (fun n c => 10 * n + (c.toNat - '0'.toNat)) 0

def decimal (cs : List Char) : Except Text.IntegerError Float := do
  let whole := cs.takeWhile Char.isDigit
  let rest := cs.drop whole.length
  let (fraction, rest) := match rest with
    | '.' :: r => (r.takeWhile Char.isDigit, r.dropWhile Char.isDigit)
    | r => ([], r)
  if whole.isEmpty && fraction.isEmpty then throw .malformed
  let exponent ← match rest with
    | [] => pure (0 : Int)
    | c :: r =>
      let (sign, ds) := signOf r
      if (c == 'e' || c == 'E') && !ds.isEmpty && ds.all Char.isDigit then
        pure (if sign = ['-'] then -natOf ds else natOf ds)
      else throw .malformed
  nearestFloat (natOf (whole ++ fraction)) (exponent - fraction.length)

def float (cs : List Char) : Meaning Float := do
  let cs ← joinedFloat cs
  let (sign, digits) := signOf cs
  let negated (x : Float) := if sign = ['-'] then -x else x
  if digits = ['n', 'a', 'n'] then pure (0 / 0)
  else if digits = ['i', 'n', 'f'] then pure (negated (1 / 0))
  else
    if cs.head? = some '.' then noNumber .pointAtStart 0
    if cs.getLast? = some '.' then noNumber .pointAtEnd 0
    checkPoint 0 false none cs
    if digits.head? = some '0' && (digits.drop 1).head?.any (·.isDigit) then
      noNumber .leadingZeroes 0
    (decimal digits).mapError (fun e => (.number (.malformedFloat (String.ofList cs) e), 0))
      |>.map negated

/-! ## Dates -/

def leap (year : Nat) : Bool := year % 4 = 0 && (year % 100 ≠ 0 || year % 400 = 0)

def daysIn (year month : Nat) : Nat :=
  if month = 2 then if leap year then 29 else 28
  else if month = 4 || month = 6 || month = 9 || month = 11 then 30
  else 31

def digits (cs : List Char) (i count : Nat) : Meaning Nat :=
  let ds := (cs.drop i).take count
  match ds.findIdx? (!·.isDigit) with
  | some k => noMoment .digitExpected (i + k)
  | none => .ok (natOf ds)

def checkDate (cs : List Char) : Meaning Unit := do
  if cs.length ≠ 10 || cs[4]? ≠ some '-' || cs[7]? ≠ some '-' then noMoment .dateForm 0
  let y ← digits cs 0 4
  let m ← digits cs 5 2
  let d ← digits cs 8 2
  if !(1 ≤ m && m ≤ 12 && 1 ≤ d && d ≤ daysIn y m) then noMoment .impossibleDate 0

def timeEnd (cs : List Char) : Meaning Nat := do
  if cs.length < 8 then noMoment .timeForm 0
  if 23 < (← digits cs 0 2) then noMoment .hour 0
  if cs[2]? ≠ some ':' then noMoment .hourColon 2
  if 59 < (← digits cs 3 2) then noMoment .minute 3
  if cs[5]? ≠ some ':' then noMoment .minuteColon 5
  if 60 < (← digits cs 6 2) then noMoment .second 6
  match cs.drop 8 with
  | ['.'] => noMoment .fractionAtEnd 8
  | '.' :: r =>
    let n := (r.takeWhile Char.isDigit).length
    if n = 0 then noMoment .fraction 8 else pure (9 + n)
  | _ => pure 8

def dateTimeEnd (cs : List Char) : Meaning Nat := do
  if cs.length < 11 then noMoment .dateTimeForm 0
  checkDate (cs.take 10)
  if !(cs[10]?.any fun c => c == 'T' || c == 't' || c == ' ') then noMoment .separator 10
  pure (11 + (← shifted 11 (timeEnd (cs.drop 11))))

def checkZone : List Char → Meaning Unit
  | [] => noMoment .zoneForm 0
  | c :: cs => do
    if c == 'Z' || c == 'z' then
      if !cs.isEmpty then noMoment .afterZone 1
    else
      if cs.length ≠ 5 then noMoment .zoneForm 0
      if c ≠ '+' && c ≠ '-' then noMoment .zoneSign 0
      if cs[2]? ≠ some ':' then noMoment .zoneColon 3
      if 23 < (← digits (c :: cs) 1 2) then noMoment .zoneHours 0
      if 59 < (← digits (c :: cs) 4 2) then noMoment .zoneMinutes 0

def checkMoment (kind : MomentKind) (cs : List Char) : Meaning Unit := do
  match kind with
  | .date => checkDate cs
  | .time =>
    let n ← timeEnd cs
    if n ≠ cs.length then noMoment .afterTime n
  | .dateTime =>
    let n ← dateTimeEnd cs
    if n ≠ cs.length then noMoment .afterDateTime n
  | .instant =>
    let n ← dateTimeEnd cs
    shifted n (checkZone (cs.drop n))

end ShaderGraph.Toml
