import ShaderGraph.Files.Mailbox
import ShaderGraph.Viewer.Params

/-!
# Watching a parameter file

The file is read once and again whenever it is written or replaced. Only the newest values wait
to be taken; a file that cannot be read or parsed leaves them as they are.
-/

namespace ShaderGraph.Viewer

structure Watch where
  directory : Directory
  place : Place
  mailbox : Mailbox (List ParamUpdate) := {}
  log : List Log.Record := []

namespace Watch

def say (w : Watch) (level : Log.Level) (message : String) (fields : List (String × Log.Value)) :
    Watch :=
  { w with log := w.log ++ [⟨level, message, fields⟩] }

def path (w : Watch) : String := w.place.path w.directory.path

def reload (w : Watch) : Watch :=
  match w.directory.readAt w.place with
  | .error fault =>
    let e : FileError := { path := w.path, fault }
    w.say .warn "reading params" [("err", .text e.readMessage)]
  | .ok text =>
    match parseParams text with
    | .error e => w.say .warn "parsing params" [("file", .text w.path), ("err", .text e.message)]
    | .ok updates => { w with mailbox := w.mailbox.send updates }

def start (d : Directory) (path : String) : Except FileFault Watch := do
  let place := Place.ofPath path
  if let some fault := Directory.pathFault? (place.parent.path d.path) then throw fault
  let _ ← d.walk place.parent
  pure (reload { directory := d, place })

def replaced (w : Watch) (text : String) : Watch :=
  let w := { w with directory := w.directory.setFile w.place (some text) }
  (w.say .debug "params changed" [("op", .text "CREATE")]).reload

def removed (w : Watch) : Watch := { w with directory := w.directory.setFile w.place none }

def take (w : Watch) : (Option (List ParamUpdate) × List Log.Record) × Watch :=
  let (updates, mailbox) := w.mailbox.take
  ((updates, w.log), { w with mailbox, log := [] })

end Watch

end ShaderGraph.Viewer
