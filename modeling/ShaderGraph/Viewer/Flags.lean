import ShaderGraph.Text.Integer
import ShaderGraph.Text.Quoted

/-!
# Flags

Arguments that start with one or two hyphens set flags, up to the first that does not or to two
hyphens alone. A value follows an equals sign or is the next argument; a switch has one only
after an equals sign.
-/

namespace ShaderGraph.Viewer

/-- What can be set by flag, and all but the list also in a configuration file. -/
inductive Setting where
  | demo
  | fps
  | height
  | list
  | log
  | noui
  | params
  | print
  | snapshot
  | style
  | width
deriving DecidableEq, Repr

inductive SettingKind where
  | text
  | integer
  | switch
deriving DecidableEq, Repr

inductive SettingValue where
  | text (s : String)
  | integer (n : Int)
  | switch (b : Bool)
deriving DecidableEq, Repr

namespace Setting

def all : List Setting :=
  [demo, fps, height, list, log, noui, params, print, snapshot, style, width]

def name : Setting → String
  | demo => "demo"
  | fps => "fps"
  | height => "height"
  | list => "list"
  | log => "log"
  | noui => "noui"
  | params => "params"
  | print => "print"
  | snapshot => "snapshot"
  | style => "style"
  | width => "width"

def kind : Setting → SettingKind
  | fps | height | width => .integer
  | list | noui | print => .switch
  | demo | log | params | snapshot | style => .text

def help : Setting → String
  | demo => "demo to run, see -list"
  | fps => "frame rate limit, 0 for no limit"
  | height => "window height"
  | list => "list demos and exit"
  | log => "log level: debug, info, warn or error"
  | noui => "do not open a window"
  | params => "TOML file of uniform values watched for changes"
  | print => "print the generated GLSL"
  | snapshot => "save the last frame as PNG to this file on exit"
  | style => "highlighting style of printed GLSL"
  | width => "window width"

end Setting

inductive Flag where
  | config
  | setting (s : Setting)
deriving DecidableEq, Repr

namespace Flag

def all : List Flag := config :: Setting.all.map setting

def name : Flag → String
  | config => "config"
  | setting s => s.name

def kind : Flag → SettingKind
  | config => .text
  | setting s => s.kind

def help : Flag → String
  | config => "TOML configuration file"
  | setting s => s.help

def ofName? (name : String) : Option Flag := all.find? (·.name = name)

def kindText : SettingKind → String
  | .text => " string"
  | .integer => " int"
  | .switch => ""

def usage : String :=
  "Usage of zenview:\n" ++
    String.join (all.map fun f =>
      "  -" ++ f.name ++ kindText f.kind ++ "\n    \t" ++ f.help ++ "\n")

end Flag

inductive FlagError where
  | help
  | malformed (argument : String)
  | undefined (name : String)
  | noValue (flag : Flag)
  | badValue (flag : Flag) (value : String) (outOfRange : Bool)
deriving DecidableEq, Repr

def FlagError.message? : FlagError → Option String
  | .help => none
  | .malformed a => some ("bad flag syntax: " ++ a)
  | .undefined n => some ("flag provided but not defined: -" ++ n)
  | .noValue f => some ("flag needs an argument: -" ++ f.name)
  | .badValue f v outOfRange =>
    let reason := if outOfRange then "value out of range" else "parse error"
    match f.kind with
    | .switch =>
      some ("invalid boolean value " ++ Text.quoted v ++ " for -" ++ f.name ++ ": " ++ reason)
    | _ => some ("invalid value " ++ Text.quoted v ++ " for flag -" ++ f.name ++ ": " ++ reason)

def FlagError.output (e : FlagError) : String :=
  (e.message?.map (· ++ "\n")).getD "" ++ Flag.usage

def switchValue? (s : String) : Option Bool :=
  if ["1", "t", "T", "TRUE", "true", "True"].contains s then some true
  else if ["0", "f", "F", "FALSE", "false", "False"].contains s then some false
  else none

def Flag.read (f : Flag) (s : String) : Except FlagError SettingValue :=
  match f.kind with
  | .text => .ok (.text s)
  | .integer =>
    match Text.readInteger s with
    | .ok n => .ok (.integer n)
    | .error e => .error (.badValue f s (e = .outOfRange))
  | .switch =>
    match switchValue? s with
    | some b => .ok (.switch b)
    | none => .error (.badValue f s false)

inductive Argument where
  | other
  | terminator
  | malformed
  | flag (name : String) (value : Option String)

def Argument.named (cs : List Char) : Argument :=
  match cs with
  | [] | '-' :: _ | '=' :: _ => .malformed
  | c :: cs =>
    let name := String.ofList (c :: cs.takeWhile (· ≠ '='))
    match cs.dropWhile (· ≠ '=') with
    | [] => .flag name none
    | _ :: value => .flag name (some (String.ofList value))

def Argument.ofString (s : String) : Argument :=
  match s.toList with
  | ['-', '-'] => .terminator
  | '-' :: '-' :: cs => .named cs
  | ['-'] => .other
  | '-' :: cs => .named cs
  | _ => .other

/-- The flags set, in order, and the arguments after them. `pending` is a flag that waits for its
value. -/
def parseFlags (pending : Option Flag) :
    List String → Except FlagError (List (Flag × SettingValue) × List String)
  | [] =>
    match pending with
    | some f => .error (.noValue f)
    | none => .ok ([], [])
  | s :: rest => do
    match pending with
    | some f =>
      let v ← f.read s
      let (set, others) ← parseFlags none rest
      pure ((f, v) :: set, others)
    | none =>
      match Argument.ofString s with
      | .other => pure ([], s :: rest)
      | .terminator => pure ([], rest)
      | .malformed => throw (.malformed s)
      | .flag name value =>
        match Flag.ofName? name with
        | none => throw (if name = "help" ∨ name = "h" then .help else .undefined name)
        | some f =>
          match value, f.kind with
          | none, .switch =>
            let (set, others) ← parseFlags none rest
            pure ((f, .switch true) :: set, others)
          | none, _ => parseFlags (some f) rest
          | some v, _ =>
            let v ← f.read v
            let (set, others) ← parseFlags none rest
            pure ((f, v) :: set, others)

end ShaderGraph.Viewer
