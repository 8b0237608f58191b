import ShaderGraph.Files.Directory
import ShaderGraph.Text.LowerCase
import ShaderGraph.Toml.Value
import ShaderGraph.Viewer.Flags
import ShaderGraph.Viewer.Level

/-!
# Configuration

Defaults, replaced by the values of a configuration file, replaced by flags. A file may set
nothing else; its keys match settings regardless of case.
-/

namespace ShaderGraph.Viewer

structure Config where
  width : Int := 800
  height : Int := 600
  fps : Int := 60
  demo : String := "sdf"
  log : String := "info"
  params : String := ""
  style : String := "monokai"
  print : Bool := false
  noui : Bool := false
  snapshot : String := ""
  list : Bool := false
deriving DecidableEq, Repr

def Config.set (c : Config) : Setting → SettingValue → Config
  | .width, .integer n => { c with width := n }
  | .height, .integer n => { c with height := n }
  | .fps, .integer n => { c with fps := n }
  | .demo, .text s => { c with demo := s }
  | .log, .text s => { c with log := s }
  | .params, .text s => { c with params := s }
  | .style, .text s => { c with style := s }
  | .snapshot, .text s => { c with snapshot := s }
  | .print, .switch b => { c with print := b }
  | .noui, .switch b => { c with noui := b }
  | .list, .switch b => { c with list := b }
  | _, _ => c

def SettingKind.typeName : SettingKind → String
  | .text => "string"
  | .integer => "int"
  | .switch => "bool"

def momentType : Toml.MomentKind → String
  | .date => "toml.LocalDate"
  | .time => "toml.LocalTime"
  | .dateTime => "toml.LocalDateTime"
  | .instant => "time.Time"

def Setting.field : Setting → String
  | .fps => "FPS"
  | .noui => "NoUI"
  | s => s.name.capitalize

inductive MisplacedValue where
  | string
  | integer
  | float
  | bool (b : Bool)
  | array
  | table
  | arrayTable
deriving DecidableEq, Repr

inductive DocumentProblem where
  | malformed (p : Toml.Problem)
  | misplaced (v : MisplacedValue) (s : Setting)
deriving DecidableEq, Repr

def DocumentProblem.message : DocumentProblem → String
  | .malformed p => p.message
  | .misplaced v s =>
    let type := s.kind.typeName
    let decoded (what : String) :=
      "cannot decode TOML " ++ what ++ " into struct field main.config." ++ s.field ++
        " of type " ++ type
    match v with
    | .string => decoded "string"
    | .integer => decoded "integer"
    | .array => decoded "array"
    | .arrayTable => decoded "array table"
    | .float => "float cannot be assigned to " ++ type
    | .bool b => "cannot assign boolean to a " ++ toString b
    | .table => "cannot store inline table in Go type " ++ type

inductive ConfigError where
  | flag (e : FlagError)
  | arguments (rest : List String)
  | file (e : FileError)
  | document (path : String) (place : Option Toml.Position) (p : DocumentProblem)
  | unknownKeys (path : String)
  | pairBelow (path : String) (kind : SettingKind)
  | tableBelow (kind : SettingKind)
  | dateValue (moment : Toml.MomentKind) (kind : SettingKind)
  | windowSize (width height : Int)
  | frameRate (fps : Int)
  | level (e : LevelError)
deriving DecidableEq, Repr

def ConfigError.message : ConfigError → String
  | .flag e => e.message?.getD "flag: help requested"
  | .arguments rest => "unexpected arguments: [" ++ " ".intercalate (rest.map Text.quoted) ++ "]"
  | .file e =>
    if e.fault = .isDirectory then e.path ++ ": toml: " ++ e.readMessage else e.readMessage
  | .document path place p =>
    let place := place.elim "" fun p => ":" ++ toString p.row ++ ":" ++ toString p.column
    path ++ place ++ ": toml: " ++ p.message
  | .unknownKeys path =>
    path ++ ": strict mode: fields in the document are missing in the target struct"
  | .pairBelow path k => path ++ ": unhandled kv part: " ++ k.typeName
  | .tableBelow k => "unhandled part: " ++ k.typeName
  | .dateValue m k =>
    "reflect.Set: value of type " ++ momentType m ++ " is not assignable to type " ++ k.typeName
  | .windowSize w h => "invalid window size " ++ toString w ++ "x" ++ toString h
  | .frameRate fps => "invalid fps " ++ toString fps
  | .level e => e.message

/-! ## Files -/

def Setting.ofKey? (key : String) : Option Setting :=
  (Setting.all.filter (· ≠ .list)).find? (·.name = Text.lower key)

inductive Section where
  | top
  | setting (s : Setting)
  | unknown
deriving DecidableEq, Repr

structure ConfigReading where
  config : Config := {}
  keys : Toml.Keys := {}
  where_ : Section := .top
  unknown : Bool := false

structure ConfigFile where
  path : String
  text : String

def ConfigFile.error (f : ConfigFile) (p : DocumentProblem) (left : Option Nat) : ConfigError :=
  .document f.path (left.map (Toml.Position.ofLeft f.text)) p

def ConfigFile.fault (f : ConfigFile) (e : Toml.Fault) : ConfigError :=
  f.error (.malformed e.problem) e.left

def settingValue (f : ConfigFile) (s : Setting) (v : Toml.Written) :
    Except ConfigError SettingValue := do
  let misplaced (v : MisplacedValue) (left : Option Nat) : Except ConfigError SettingValue :=
    throw (f.error (.misplaced v s) left)
  match v with
  | .string left t => if s.kind = .text then pure (.text t) else misplaced .string left
  | .bool left b => if s.kind = .switch then pure (.switch b) else misplaced (.bool b) left
  | .array _ => misplaced .array none
  | .table left _ => misplaced .table left
  | .numeric left n =>
    match (← (n.value left).mapError f.fault), s.kind with
    | .integer n, .integer => pure (.integer n)
    | .moment m, k => throw (.dateValue m k)
    | .float _, _ => misplaced .float left
    | _, _ => misplaced .integer left

/-- Reads an expression. The keys of an unknown table are not looked at. -/
def ConfigReading.step (f : ConfigFile) (r : ConfigReading) (e : Toml.Expression) :
    Except ConfigError ConfigReading := do
  let keys ← match r.where_, e with
    | .unknown, .pair _ _ => pure r.keys
    | _, e => (r.keys.step e).mapError f.fault
  let r := { r with keys }
  let find (key : List String) : Option Setting := key.head?.bind Setting.ofKey?
  match e with
  | .pair key v =>
    match r.where_ with
    | .unknown => pure r
    | .setting s => throw (.pairBelow f.path s.kind)
    | .top =>
      match find key with
      | none => pure { r with unknown := true }
      | some s =>
        if key.length = 1 then
          let x ← settingValue f s v
          pure { r with config := r.config.set s x }
        else throw (.pairBelow f.path s.kind)
  | .table key =>
    match find key with
    | none => pure { r with where_ := .unknown, unknown := true }
    | some s =>
      if key.length = 1 then pure { r with where_ := .setting s } else throw (.tableBelow s.kind)
  | .arrayTable key =>
    match find key with
    | none => pure { r with where_ := .unknown, unknown := true }
    | some s =>
      throw (if key.length = 1 then f.error (.misplaced .arrayTable s) none
        else .tableBelow s.kind)

/-- The configuration in a file. Settings are read up to the first fault of the document. -/
def readConfig (f : ConfigFile) : Except ConfigError Config := do
  let d := Toml.document f.text
  let r ← d.expressions.foldlM (ConfigReading.step f) {}
  if let some e := d.fault then throw (f.fault e)
  if r.unknown then throw (.unknownKeys f.path)
  pure r.config

/-! ## All together -/

def Config.level (c : Config) : Except LevelError Int := readLevel c.log

def Config.validate (c : Config) : Except ConfigError Unit :=
  if c.width ≤ 0 ∨ c.height ≤ 0 then .error (.windowSize c.width c.height)
  else if c.fps < 0 then .error (.frameRate c.fps)
  else match c.level with
    | .error e => .error (.level e)
    | .ok _ => .ok ()

def configPath (set : List (Flag × SettingValue)) : String :=
  set.foldl (fun p e => match e with
    | (.config, .text s) => s
    | _ => p) ""

def Config.setAll (c : Config) (set : List (Flag × SettingValue)) : Config :=
  set.foldl (fun c e => match e with
    | (.setting s, v) => c.set s v
    | _ => c) c

def loadConfig (d : Directory) (path : String) : Except ConfigError Config :=
  if path.isEmpty then .ok {}
  else match d.read path with
    | .error e => .error (.file e)
    | .ok text => readConfig { path, text }

def parseConfig (d : Directory) (args : List String) : Except ConfigError Config := do
  match parseFlags none args with
  | .error e => throw (.flag e)
  | .ok (set, rest) =>
    if !rest.isEmpty then throw (.arguments rest)
    let c ← loadConfig d (configPath set)
    let c := c.setAll set
    c.validate
    pure c

def ConfigError.output : ConfigError → String
  | .flag e => e.output
  | _ => ""

end ShaderGraph.Viewer
