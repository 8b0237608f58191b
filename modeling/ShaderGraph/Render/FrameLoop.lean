import ShaderGraph.Files.Directory
import ShaderGraph.Image.Png
import ShaderGraph.Render.Snapshot
import ShaderGraph.Render.Window

/-!
# The frame loop

Opens a window, mounts jobs and draws frames until the window closes or the loop is stopped.
Every frame stages the time, lets the caller change the workspace, draws and presents. On the
way out the last frame is saved if asked for, everything is disposed of and the window closed.
-/

namespace ShaderGraph

inductive Stop where
  | cancelled
  | deadline
deriving DecidableEq, Repr

inductive SavedFile where
  | empty
  | picture (p : Png.Picture)

inductive SaveError where
  | file (e : FileError)
  | snapshot (e : SnapshotError)
  | notKept (path : String)

def SaveError.message : SaveError → String
  | .file e => e.message
  | .snapshot e => e.message
  | .notKept path => "sync " ++ path ++ ": " ++ FileFault.invalid.message

/-- Saves the last frame. The file is created before the frame is read. -/
def Render.savePicture (d : Directory) (path : String) :
    Render (Option SaveError × Option (Place × SavedFile)) := do
  match d.create path with
  | .error e => pure (some (.file e), none)
  | .ok p =>
    match ← snapshot none with
    | .error e => pure (some (.snapshot e), some (p, .empty))
    | .ok image =>
      if p = Directory.nullDevice then pure (some (.notKept path), some (p, .empty))
      else pure (none, some (p, .picture (Png.picture image)))

inductive LoopError where
  | timeType (t : GlType)
  | window (reason : String)
  | mount (e : MountError)
  | deadline
  | save (e : SaveError)

def LoopError.message : LoopError → String
  | .timeType t => "time uniform must be float, got " ++ t.name
  | .window reason => reason
  | .mount e => e.message
  | .deadline => "context deadline exceeded"
  | .save e => e.message

structure FrameUpdate (τ : Type) where
  work : Workspace
  host : τ
  cancel : Bool := false
  log : List Log.Record := []

structure LoopConfig (τ : Type) where
  title : String := ""
  width : Int := 0
  height : Int := 0
  resizable : Bool := false
  time : Option Uniform := none
  snapshot : String := ""
  stop : Nat → Option Stop := fun _ => none
  onFrame : Option (Nat → Float → Workspace → τ → FrameUpdate τ) := none

structure LoopState (τ : Type) where
  rig : Rig
  work : Workspace
  host : τ
  cancelled : Bool := false

abbrev FrameLoop (τ : Type) := StateM (LoopState τ)

namespace FrameLoop

variable {τ : Type}

def render {α : Type} (m : Render α) : FrameLoop τ α :=
  modifyGet fun s => let (a, rig) := m.run s.rig; (a, { s with rig })

def issue (c : DeviceCall) : FrameLoop τ Unit := render (Render.issue c)

def say (level : Log.Level) (message : String) (fields : List (String × Log.Value)) :
    FrameLoop τ Unit :=
  modify fun s => { s with rig := { s.rig with log := s.rig.log ++ [⟨level, message, fields⟩] } }

def stageTime (c : LoopConfig τ) (seconds : Float) : FrameLoop τ Unit :=
  match c.time with
  | none => pure ()
  | some u => modify fun s =>
    match u.stage [seconds.toFloat32] s.work with
    | .ok work => { s with work }
    | .error _ => s

def prepare (c : LoopConfig τ) (seconds : Float) : FrameLoop τ Unit :=
  match c.onFrame with
  | none => pure ()
  | some f => do
    let frame := (← get).rig.renderer.frame
    issue (.onFrame frame seconds)
    modify fun s =>
      let u := f frame seconds s.work s.host
      { s with
        work := u.work
        host := u.host
        cancelled := s.cancelled || u.cancel
        rig := { s.rig with log := s.rig.log ++ u.log } }

def draw (w : Window) (call : Nat) : FrameLoop τ Unit := do
  issue .framebufferSize
  let (width, height) := w.size call
  render (Render.frame (← get).work width height)

def iteration (w : Window) (c : LoopConfig τ) (i : Nat) : FrameLoop τ Unit := do
  issue .time
  stageTime c (w.time i)
  prepare c (w.time i)
  draw w i
  issue .present

/-- Runs iterations from number `i` on, at most as many as the window stays open. Answers why it
was stopped, if so, and the number of iterations run. -/
def iterations (w : Window) (c : LoopConfig τ) : (left i : Nat) → FrameLoop τ (Option Stop × Nat)
  | 0, i => pure (none, i)
  | left + 1, i => do
    let stop := if (← get).cancelled then some .cancelled else c.stop i
    match stop with
    | some s => pure (some s, i)
    | none =>
      iteration w c i
      iterations w c left (i + 1)

/-- Saves the last frame if asked for. It is drawn again, as presenting a frame gives its pixels
away. -/
def save (d : Directory) (w : Window) (c : LoopConfig τ) (call : Nat) :
    FrameLoop τ (Option SaveError × Option (Place × SavedFile)) := do
  if c.snapshot.isEmpty ∨ (← get).rig.renderer.frame = 0 then pure (none, none)
  else
    draw w call
    render (Render.savePicture d c.snapshot)

/-- The errors of a loop that ran. A cancelled loop has none. -/
def outcome (stop : Option Stop) (saved : Option SaveError) : List LoopError :=
  match stop with
  | some .cancelled => []
  | some .deadline => .deadline :: (saved.map .save).toList
  | none => (saved.map .save).toList

def mounted (d : Directory) (w : Window) (c : LoopConfig τ) :
    FrameLoop τ (List LoopError × Option (Place × SavedFile)) := do
  let r := (← get).rig.renderer
  match r.error? with
  | some e => say .warn "some jobs failed to link" [("err", .text e)]
  | none => pure ()
  say .info "mounted" [("jobs", .number r.jobs.length), ("elapsed", .measured)]
  let (stop, count) ← iterations w c w.frames 0
  let frames := (← get).rig.renderer.frame
  if 0 < frames then say .info "frame loop done" [("frames", .number frames), ("fps", .measured)]
  let (failure, file) ← save d w c count
  render Render.dispose
  pure (outcome stop failure, file)

/-- Opens a window and runs the loop. Answers the errors, none if it went well, and the file that
was saved. -/
def run (d : Directory) (w : Window) (c : LoopConfig τ) (jobs : List (Option Nat)) :
    FrameLoop τ (List LoopError × Option (Place × SavedFile)) := do
  match c.time.filter (·.type ≠ .float) with
  | some u => pure ([.timeType u.type], none)
  | none =>
    issue (.newWindow c.title c.width c.height c.resizable 1)
    match w.openError with
    | some reason => pure ([.window reason], none)
    | none =>
      issue .openDevice
      let result ← match ← render (Render.mount (← get).work w.surface jobs) with
        | .error e => pure ([.mount e], none)
        | .ok () => mounted d w c
      issue .close
      pure result

end FrameLoop

end ShaderGraph
