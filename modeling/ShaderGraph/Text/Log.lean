import ShaderGraph.Text.Quoted

/-!
# Log records

Records with a level, a message and named values. `Record.line` writes a record as one line of
`key=value` pairs; `Record.plain` leaves out the keys of level and message and never quotes.
Measured times and rates are written as a star. In a plain record the text of an error in a
document is left out.
-/

namespace ShaderGraph.Log

inductive Level where
  | debug
  | info
  | warn
  | error
deriving DecidableEq, Repr

def Level.number : Level → Int
  | .debug => -4
  | .info => 0
  | .warn => 4
  | .error => 8

def Level.name : Level → String
  | .debug => "DEBUG"
  | .info => "INFO"
  | .warn => "WARN"
  | .error => "ERROR"

inductive Value where
  | text (s : String)
  | number (n : Int)
  | measured
deriving DecidableEq, Repr

def Value.written : Value → String
  | .text s => s
  | .number n => toString n
  | .measured => "*"

structure Record where
  level : Level
  message : String
  fields : List (String × Value) := []
deriving DecidableEq, Repr

/-- Whether a value has to be quoted to be read back: it is empty or has a space, a quote, an
equals sign, the replacement character or one that is not printable. A delete character is taken
as it is. -/
def needsQuotes (s : String) : Bool :=
  s.isEmpty || s.toList.any fun c =>
    c = ' ' || c = '"' || c = '=' || c.toNat = 0xfffd || (!Text.isPrintable c && c.toNat ≠ 0x7f)

def word (s : String) : String := if needsQuotes s then Text.quoted s else s

def Record.line (r : Record) : String :=
  " ".intercalate (("level=" ++ r.level.name) :: ("msg=" ++ word r.message) ::
    r.fields.map fun (k, v) => k ++ "=" ++ word v.written) ++ "\n"

def documentMark : String := "toml: "

def Value.plain (v : Value) : String :=
  if v.written.startsWith documentMark then "toml" else v.written

def Record.plain (r : Record) : String :=
  " ".intercalate (r.level.name :: r.message :: r.fields.map fun (k, v) => k ++ "=" ++ v.plain)

end ShaderGraph.Log
