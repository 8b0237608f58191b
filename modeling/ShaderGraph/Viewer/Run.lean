import ShaderGraph.Render.FrameLoop
import ShaderGraph.Viewer.Demo
import ShaderGraph.Viewer.Print
import ShaderGraph.Viewer.Watch

/-!
# The viewer

From arguments to what is printed, logged and drawn. The window, the device behind it and the
working directory are given.
-/

namespace ShaderGraph.Viewer

inductive RunError where
  | config (e : ConfigError)
  | demo (e : DemoError)
  | writerFull
  | watch (e : FileFault)
  | loop (es : List LoopError)

def RunError.message : RunError → String
  | .config e => e.message
  | .demo e => e.message
  | .writerFull => Text.Sink.fullMessage
  | .watch e => "watching params: " ++ e.message
  | .loop es => "\n".intercalate (es.map (·.message))

def RunError.isHelp : RunError → Bool
  | .config (.flag .help) => true
  | _ => false

structure Surroundings where
  directory : Directory
  window : Window := .unavailable
  device : Device := {}

structure RunResult where
  stdout : Text.Sink
  usage : String := ""
  log : List Log.Record := []
  level : Int := 0
  error : Option RunError := none
  calls : List DeviceCall := []
  saved : Option (Place × SavedFile) := none

def RunResult.stderr (r : RunResult) : String :=
  r.usage ++ String.join ((r.log.filter (r.level ≤ ·.level.number)).map (·.line))

def listing : List String :=
  (Recipe.names recipes).filterMap fun name => (recipes.find? (·.name = name)).map fun r =>
    r.name ++ "".pushn ' ' (10 - r.name.length) ++ " " ++ r.description ++ "\n"

def applyPending (params : Params) (frame : Nat) (work : Workspace)
    (mailbox : Mailbox (List ParamUpdate)) : FrameUpdate (Mailbox (List ParamUpdate)) :=
  match mailbox.take with
  | (none, mailbox) => { work, host := mailbox }
  | (some updates, mailbox) =>
    let a := params.apply updates work
    { work := a.work
      host := mailbox
      log := a.log ++
        [⟨.info, "params applied", [("count", .number a.applied), ("frame", .number frame)]⟩] }

def loopConfig (c : Config) (d : Demo) : LoopConfig (Mailbox (List ParamUpdate)) :=
  { title := "zenview: " ++ c.demo
    width := c.width
    height := c.height
    resizable := true
    time := some d.time
    snapshot := c.snapshot
    onFrame := some fun frame _ work mailbox => applyPending d.params frame work mailbox }

def showDemo (s : Surroundings) (c : Config) (d : Demo) (work : Workspace) (r : RunResult) :
    RunResult :=
  let watch := if c.params.isEmpty then .ok none else (Watch.start s.directory c.params).map some
  match watch with
  | .error e => { r with error := some (.watch e) }
  | .ok watch =>
    let log := r.log ++ (watch.map (·.log)).getD []
    let mailbox := (watch.map (·.mailbox)).getD {}
    let ((es, saved), state) :=
      StateT.run (FrameLoop.run s.directory s.window (loopConfig c d) (d.jobs.map some))
        { rig := { device := s.device, log }, work, host := mailbox }
    { r with
      log := state.rig.log
      calls := state.rig.device.calls.filter (!·.isFrame)
      error := if es.isEmpty then none else some (.loop es)
      saved }

def present (s : Surroundings) (c : Config) (d : Demo) (work : Workspace) (r : RunResult) :
    RunResult :=
  let names := d.params.names
  let r := if names.isEmpty then r else
    { r with log := r.log ++ [⟨.info, "demo params",
        [("demo", .text c.demo), ("names", .text (",".intercalate names))]⟩] }
  let (taken, stdout) := if c.print then printAll .ascii r.stdout (d.jobs.filterMap (work.jobs[·]?))
    else (true, r.stdout)
  let r := { r with stdout }
  if !taken then { r with error := some .writerFull }
  else if c.noui then r
  else showDemo s c d work r

def run (s : Surroundings) (args : List String) (stdout : Text.Sink) : RunResult :=
  match parseConfig s.directory args with
  | .error e => { stdout, usage := e.output, error := some (.config e) }
  | .ok c =>
    let level := c.level.toOption.getD 0
    if c.list then { stdout := listing.foldl (fun s l => (s.writeText l).2) stdout, level }
    else
      match (newDemo recipes c.demo).run {} with
      | (.error e, _) => { stdout, level, error := some (.demo e) }
      | (.ok d, work) => present s c d work { stdout, level }

def RunResult.exit (r : RunResult) : String × Nat :=
  match r.error with
  | none => (r.stderr, 0)
  | some e =>
    if e.isHelp then (r.stderr, 0) else (r.stderr ++ "zenview: " ++ e.message ++ "\n", 1)

end ShaderGraph.Viewer
