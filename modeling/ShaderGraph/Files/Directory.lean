import ShaderGraph.Files.Place

/-!
# The working directory

Files by their place, and the errors of reaching for others. A path is walked name by name, and
every name but the last has to lead to a folder.
-/

namespace ShaderGraph

inductive FileFault where
  | missing
  | isDirectory
  | notDirectory
  | nameTooLong
  | invalid
deriving DecidableEq, Repr

def FileFault.message : FileFault → String
  | .missing => "no such file or directory"
  | .isDirectory => "is a directory"
  | .notDirectory => "not a directory"
  | .nameTooLong => "file name too long"
  | .invalid => "invalid argument"

structure FileError where
  path : String
  fault : FileFault
deriving DecidableEq, Repr

def FileError.message (e : FileError) : String := "open " ++ e.path ++ ": " ++ e.fault.message

/-- The message when a file is read, which opens a directory and only then fails. -/
def FileError.readMessage (e : FileError) : String :=
  if e.fault = .isDirectory then "read " ++ e.path ++ ": " ++ e.fault.message else e.message

structure Directory where
  path : String
  files : List (Place × String) := []

namespace Directory

def rootFolders : List String :=
  ["bin", "boot", "dev", "etc", "home", "lib", "lib64", "media", "mnt", "opt", "proc", "root",
    "run", "sbin", "srv", "sys", "tmp", "usr", "var"]

/-- A file that is always empty, whatever is written to it. -/
def nullDevice : Place := .absolute ["dev", "null"]

def maxName : Nat := 255

def maxPath : Nat := 4095

def text? (d : Directory) (p : Place) : Option String :=
  if p = nullDevice then some "" else d.files.lookup p

def isFolder (d : Directory) (p : Place) : Bool :=
  match p with
  | .relative _ [] | .absolute [] => true
  | .absolute [name] => rootFolders.contains name
  | p => d.files.any fun f => f.1.isBelow p

def enter (d : Directory) (p : Place) (name : String) : Except FileFault Place :=
  if name.contains '\x00' then .error .invalid
  else if !d.isFolder p then .error .notDirectory
  else if maxName < name.utf8ByteSize then .error .nameTooLong
  else if d.isFolder (p.step name) || (d.text? (p.step name)).isSome then .ok (p.step name)
  else .error .missing

def walk (d : Directory) (p : Place) : Except FileFault Place :=
  p.names.foldlM d.enter p.base

def readAt (d : Directory) (p : Place) : Except FileFault String := do
  match d.text? (← d.walk p) with
  | some text => pure text
  | none => throw .isDirectory

def pathFault? (path : String) : Option FileFault :=
  if path.contains '\x00' then some .invalid
  else if path.isEmpty then some .missing
  else if maxPath < path.utf8ByteSize then some .nameTooLong
  else none

def read (d : Directory) (path : String) : Except FileError String :=
  let text : Except FileFault String := do
    match pathFault? path with
    | some e => throw e
    | none =>
      match d.text? (← (path.splitOn "/").foldlM d.enter (.start path)) with
      | some text => pure text
      | none => throw .isDirectory
  text.mapError fun fault => { path, fault }

/-- The names of a path that lead to the folder of a new file, and those from its own on. -/
def splitLast (path : String) : List String × List String :=
  let names := path.splitOn "/"
  let slashes := (names.reverse.takeWhile (·.isEmpty)).length
  let count := names.length - slashes - 1
  (names.take count, names.drop count)

/-- Where a file is created or overwritten. A slash at the end is the mark of a folder. -/
def create (d : Directory) (path : String) : Except FileError Place :=
  let place : Except FileFault Place := do
    match pathFault? path with
    | some e => throw e
    | none =>
      let (above, last) := splitLast path
      let folder ← above.foldlM d.enter (.start path)
      if !d.isFolder folder then throw .notDirectory
      match last with
      | [name] =>
        if d.isFolder (folder.step name) then throw .isDirectory
        else if maxName < name.utf8ByteSize then throw .nameTooLong
        else pure (folder.step name)
      | _ => throw .isDirectory
  place.mapError fun fault => { path, fault }

def setFile (d : Directory) (p : Place) (text : Option String) : Directory :=
  { d with files := (text.toList.map (p, ·)) ++ d.files.filter (·.1 ≠ p) }

end Directory

end ShaderGraph
