import ShaderGraph.Viewer.Run

/-!
# The command

Reads the files that the arguments name, runs the viewer and writes what it has to say.
-/

namespace ShaderGraph.Viewer

def loadFile (d : Directory) (path : String) : IO Directory := do
  try
    let text ← IO.FS.readFile path
    pure (d.setFile (Place.ofPath path) (some text))
  catch _ => pure d

def loadFiles (args : List String) : IO Directory := do
  let d : Directory := { path := (← IO.currentDir).toString }
  let d ← match parseFlags none args with
    | .ok (set, _) => loadFile d (configPath set)
    | .error _ => pure d
  match parseConfig d args with
  | .ok c => loadFile d c.params
  | .error _ => pure d

end ShaderGraph.Viewer

def main (args : List String) : IO UInt32 := do
  let directory ← ShaderGraph.Viewer.loadFiles args
  let result := ShaderGraph.Viewer.run { directory } args {}
  let (errors, code) := result.exit
  (← IO.getStdout).write ⟨result.stdout.written.toArray⟩
  (← IO.getStderr).putStr errors
  pure code.toUInt32
