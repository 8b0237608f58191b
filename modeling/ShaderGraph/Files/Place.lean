/-!
# Places in a tree of files

A place is reached from the working directory or from the root. Above the working directory
folders have no known name, and the folder above the root is the root.
-/

namespace ShaderGraph

inductive Place where
  /-- So many folders up from the working directory, then down by names. -/
  | relative (ups : Nat) (names : List String)
  | absolute (names : List String)
deriving DecidableEq, Repr

namespace Place

def base : Place → Place
  | relative ups _ => relative ups []
  | absolute _ => absolute []

def names : Place → List String
  | relative _ names => names
  | absolute names => names

def parent : Place → Place
  | relative ups [] => relative (ups + 1) []
  | relative ups names => relative ups names.dropLast
  | absolute names => absolute names.dropLast

def child (name : String) : Place → Place
  | relative ups names => relative ups (names ++ [name])
  | absolute names => absolute (names ++ [name])

def isBelow : Place → Place → Bool
  | relative i ps, relative j qs => i = j && ps ≠ qs && qs.isPrefixOf ps
  | absolute ps, absolute qs => ps ≠ qs && qs.isPrefixOf ps
  | _, _ => false

/-- Where one name of a path leads. Dots and doubled slashes stay. -/
def step (p : Place) (name : String) : Place :=
  if name = "" ∨ name = "." then p else if name = ".." then p.parent else p.child name

def start (path : String) : Place := if path.startsWith "/" then absolute [] else relative 0 []

def ofPath (path : String) : Place := (path.splitOn "/").foldl step (start path)

def path (directory : String) : Place → String
  | absolute names => "/" ++ "/".intercalate names
  | relative 0 names => "/".intercalate (directory :: names)
  | relative ups names =>
    let above := (directory.splitOn "/").filter (· ≠ "")
    "/" ++ "/".intercalate (above.take (above.length - ups) ++ names)

end Place

end ShaderGraph
