import ShaderGraph.Text.Integer
import ShaderGraph.Text.Quoted

/-!
# What is wrong with a TOML document

Problems by their cause, with their texts, and faults: problems at a place in the document.
-/

namespace ShaderGraph.Toml

/-- A string without escapes, between apostrophes, or one with escapes, between quotes. -/
inductive StringKind where
  | literal
  | basic
deriving DecidableEq, Repr

def StringKind.name : StringKind → String
  | .literal => "literal"
  | .basic => "basic"

def StringKind.quote : StringKind → Char
  | .literal => '\''
  | .basic => '"'

def StringKind.quotes (k : StringKind) : String := String.ofList [k.quote, k.quote, k.quote]

inductive KeyKind where
  | value
  | table
  | arrayTable
deriving DecidableEq, Repr

def KeyKind.name : KeyKind → String
  | .value => "value"
  | .table => "table"
  | .arrayTable => "array table"

inductive FormProblem where
  | newlineExpected (found : Char)
  | returnAtEnd
  | loneReturn
  | expected (c : Char)
  | expectedAtEnd (c : Char)
  | equalsAtEnd
  | keyAtEnd
  | keyStart (found : Char)
  | valueAtEnd
  | wordExpected (word : String)
  | commentCharacter
  | arrayIncomplete
  | arrayStartsWithComma
  | arrayWithoutComma
  | tableIncomplete
  | numberCharacter (found : Char)
  | numberIncomplete
deriving DecidableEq, Repr

inductive StringProblem where
  | newline (k : StringKind)
  | unterminated (k : StringKind)
  | unterminatedLines (k : StringKind)
  | tooManyQuotes (k : StringKind)
  | loneReturn
  | inLiteral
  | inPlain
  | inEscaped (found : Char)
  | escapeAtEnd
  | unknownEscape (found : Char)
  | shortCodePoint (want have_ : Nat)
  | notHex
  | noCodePoint
deriving DecidableEq, Repr

inductive KeyProblem where
  | notTable (key : String) (kind : KeyKind)
  | notTableHeader (key : String) (kind : KeyKind)
  | notArrayHeader (key : String) (kind : KeyKind)
  | tableExists (key : String)
  | tableClosed (key : String)
  | keyExists (key : String)
deriving DecidableEq, Repr

inductive NumberProblem where
  | underscoreAtStart
  | underscoreAtEnd
  | underscores
  | underscoreBeforeExponent
  | underscoreAfterExponent
  | underscoreBeforePoint
  | underscoreAfterPoint
  | leadingZero
  | malformedInteger (base : String) (text : String) (e : Text.IntegerError)
  | pointAtStart
  | pointAtEnd
  | secondPoint
  | noDigitBeforePoint
  | noDigitAfterPoint
  | leadingZeroes
  | malformedFloat (text : String) (e : Text.IntegerError)
deriving DecidableEq, Repr

inductive MomentProblem where
  | dateForm
  | impossibleDate
  | digitExpected
  | dateTimeForm
  | separator
  | timeForm
  | hour
  | hourColon
  | minute
  | minuteColon
  | second
  | fraction
  | fractionAtEnd
  | zoneForm
  | zoneSign
  | zoneColon
  | zoneHours
  | zoneMinutes
  | afterZone
  | afterDateTime
  | afterTime
deriving DecidableEq, Repr

inductive Problem where
  | form (p : FormProblem)
  | string (p : StringProblem)
  | key (p : KeyProblem)
  | number (p : NumberProblem)
  | moment (p : MomentProblem)
deriving DecidableEq, Repr

/-! ## Texts -/

def codeText (c : Char) : String :=
  let digits := (Nat.toDigits 16 c.toNat).map Char.toUpper
  "U+" ++ "".pushn '0' (4 - digits.length) ++ String.ofList digits ++
    if Text.isPrintable c then " '" ++ String.singleton c ++ "'" else ""

def FormProblem.message : FormProblem → String
  | newlineExpected c => "expected newline but got " ++ codeText c
  | returnAtEnd => "windows new line expected"
  | loneReturn => "windows new line should be \\r\\n"
  | expected c => "expected character " ++ String.singleton c
  | expectedAtEnd c =>
    "expected character " ++ String.singleton c ++ " but the document ended here"
  | equalsAtEnd => "expected = after a key, but the document ends there"
  | keyAtEnd => "expected key but found none"
  | keyStart c => "invalid character at start of key: " ++ String.singleton c
  | valueAtEnd => "expected value, not eof"
  | wordExpected w => "expected '" ++ w ++ "'"
  | commentCharacter => "invalid character in comment"
  | arrayIncomplete => "array is incomplete"
  | arrayStartsWithComma => "array cannot start with comma"
  | arrayWithoutComma => "array elements must be separated by commas"
  | tableIncomplete => "inline table is incomplete"
  | numberCharacter c =>
    "unexpected character '" ++ String.singleton c ++ "' while scanning for a number"
  | numberIncomplete => "incomplete number"

def StringProblem.message : StringProblem → String
  | newline k => k.name ++ " strings cannot have new lines"
  | unterminated .literal => "unterminated literal string"
  | unterminated .basic => "basic string not terminated by \""
  | unterminatedLines k => "multiline " ++ k.name ++ " string not terminated by " ++ k.quotes
  | tooManyQuotes k => k.quotes ++ " not allowed in multiline " ++ k.name ++ " string"
  | loneReturn => "need a \\n after \\r"
  | inLiteral => "invalid character"
  | inPlain => "invalid UTF-8"
  | inEscaped c => "invalid character " ++ codeText c
  | escapeAtEnd => "need a character after \\"
  | unknownEscape c => "invalid escaped character " ++ codeText c
  | shortCodePoint want have_ =>
    "unicode point needs " ++ toString want ++ " character, not " ++ toString have_
  | notHex => "non-hex character"
  | noCodePoint => "escape sequence is invalid Unicode code point"

def KeyProblem.message : KeyProblem → String
  | notTable key kind => "expected " ++ key ++ " to be a table, not a " ++ kind.name
  | notTableHeader key kind => "key " ++ key ++ " should be a table, not a " ++ kind.name
  | notArrayHeader key kind =>
    "key " ++ kind.name ++ " already exists as a " ++ key ++ ",  but should be an array table"
  | tableExists key => "table " ++ key ++ " already exists"
  | tableClosed key =>
    "cannot redefine table " ++ key ++ " that has already been explicitly defined"
  | keyExists key => "key " ++ key ++ " is already defined"

def NumberProblem.message : NumberProblem → String
  | underscoreAtStart => "number cannot start with underscore"
  | underscoreAtEnd => "number cannot end with underscore"
  | underscores => "number must have at least one digit between underscores"
  | underscoreBeforeExponent => "cannot have underscore before exponent"
  | underscoreAfterExponent => "cannot have underscore after exponent"
  | underscoreBeforePoint => "cannot have underscore before decimal point"
  | underscoreAfterPoint => "cannot have underscore after decimal point"
  | leadingZero => "leading zero not allowed on decimal number"
  | malformedInteger base text e =>
    "couldn't parse " ++ base ++ " number: strconv.ParseInt: parsing " ++ Text.quoted text ++
      ": " ++ e.message
  | pointAtStart => "float cannot start with a dot"
  | pointAtEnd => "float cannot end with a dot"
  | secondPoint => "float can have at most one decimal point"
  | noDigitBeforePoint => "float decimal point must be preceded by a digit"
  | noDigitAfterPoint => "float decimal point must be followed by a digit"
  | leadingZeroes => "float integer part cannot have leading zeroes"
  | malformedFloat text e =>
    "unable to parse float: strconv.ParseFloat: parsing " ++ Text.quoted text ++ ": " ++ e.message

def MomentProblem.message : MomentProblem → String
  | dateForm => "dates are expected to have the format YYYY-MM-DD"
  | impossibleDate => "impossible date"
  | digitExpected => "expected digit (0-9)"
  | dateTimeForm =>
    "local datetimes are expected to have the format YYYY-MM-DDTHH:MM:SS[.NNNNNNNNN]"
  | separator => "datetime separator is expected to be T or a space"
  | timeForm => "times are expected to have the format HH:MM:SS[.NNNNNN]"
  | hour => "hour cannot be greater 23"
  | hourColon => "expecting colon between hours and minutes"
  | minute => "minutes cannot be greater 59"
  | minuteColon => "expecting colon between minutes and seconds"
  | second => "seconds cannot be greater 60"
  | fraction => "need at least one digit after fraction point"
  | fractionAtEnd => "nanoseconds need at least one digit"
  | zoneForm => "invalid date-time timezone"
  | zoneSign => "invalid timezone offset character"
  | zoneColon => "expected a : separator"
  | zoneHours => "invalid timezone offset hours"
  | zoneMinutes => "invalid timezone offset minutes"
  | afterZone => "extra bytes at the end of the timezone"
  | afterDateTime => "extra characters at the end of a local date time"
  | afterTime => "extra characters at the end of a local time"

def Problem.message : Problem → String
  | form p => p.message
  | string p => p.message
  | key p => p.message
  | number p => p.message
  | moment p => p.message

/-! ## Faults -/

structure Fault where
  problem : Problem
  /-- How many bytes of the document are left there; nothing if the place is not known. -/
  left : Option Nat
deriving DecidableEq, Repr

/-- A line and a column, counted from one, the column in bytes. -/
structure Position where
  row : Nat := 1
  column : Nat := 1
deriving DecidableEq, Repr

def Position.after (p : Position) (b : UInt8) : Position :=
  if b = 10 then ⟨p.row + 1, 1⟩ else ⟨p.row, p.column + 1⟩

def Position.ofLeft (document : String) (left : Nat) : Position :=
  let bytes := document.toUTF8.toList
  (bytes.take (bytes.length - left)).foldl Position.after {}

end ShaderGraph.Toml
