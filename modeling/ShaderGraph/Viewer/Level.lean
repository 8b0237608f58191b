import ShaderGraph.Text.Integer
import ShaderGraph.Text.Log

/-!
# Log levels

A level is written as a name, regardless of case, and an offset: `debug`, `INFO+2`, `error-1`.
-/

namespace ShaderGraph.Viewer

inductive LevelError where
  | unknownName (text : String)
  | badOffset (text offset : String) (e : Text.IntegerError)
deriving DecidableEq, Repr

def LevelError.message : LevelError → String
  | .unknownName s => "log level: slog: level string " ++ Text.quoted s ++ ": unknown name"
  | .badOffset s offset e =>
    "log level: slog: level string " ++ Text.quoted s ++ ": strconv.Atoi: parsing " ++
      Text.quoted offset ++ ": " ++ e.message

/-- The capital of a letter, where that is in the alphabet: the dotless letter has one as well. -/
def capital (c : Char) : Char := if c = 'ı' then 'I' else if c = 'ſ' then 'S' else c.toUpper

def namedLevel? (name : List Char) : Option Log.Level :=
  let name := String.ofList (name.map capital)
  [.debug, .info, .warn, .error].find? (·.name = name)

def readLevel (s : String) : Except LevelError Int := do
  let isSign (c : Char) : Bool := c = '+' || c = '-'
  let name := s.toList.takeWhile (!isSign ·)
  let offset := s.toList.dropWhile (!isSign ·)
  let n : Int ← if offset.isEmpty then pure 0 else
    match Text.readDecimal (String.ofList offset) with
    | .ok n => pure n
    | .error e => throw (.badOffset s (String.ofList offset) e)
  match namedLevel? name with
  | none => throw (.unknownName s)
  | some l => pure (Word.wrap (l.number + n))

end ShaderGraph.Viewer
