import ShaderGraph.Toml.Expression

/-!
# Keys are defined once

What a document has defined so far, by path. A value is defined once; a table may be opened by
headers of its parts, but has one header of its own, and none if dotted keys made it; the tables
of an array start over with every header.
-/

namespace ShaderGraph.Toml

structure Mark where
  kind : KeyKind
  closed : Bool := false
  byPair : Bool := false
deriving DecidableEq, Repr

structure Keys where
  marks : List (List String × Mark) := []
  current : List String := []

namespace Keys

def find? (k : Keys) (path : List String) : Option Mark := k.marks.lookup path

def set (k : Keys) (path : List String) (m : Mark) : Keys :=
  { k with marks := (path, m) :: k.marks.filter (·.1 ≠ path) }

def isBelow (path other : List String) : Bool := path.isPrefixOf other && path ≠ other

/-- Leaves the open table: what its pairs made is closed. -/
def leave (k : Keys) : Keys :=
  { k with marks := k.marks.map fun (p, m) =>
      (p, if isBelow k.current p && m.byPair then { m with closed := true, byPair := false }
        else m) }

def descend (k : Keys) (parent : List String) : List String → Except KeyProblem Keys
  | [] => .ok k
  | part :: parts =>
    let path := parent ++ [part]
    match k.find? path with
    | none => (k.set path { kind := .table }).descend path parts
    | some m =>
      if m.kind = .value then .error (.notTable part m.kind) else k.descend path parts

def openTable (k : Keys) (path : List String) : Except KeyProblem Keys := do
  let k ← k.leave.descend [] path.dropLast
  let name := path.getLast?.getD ""
  let k ← match k.find? path with
    | none => pure (k.set path { kind := .table, closed := true })
    | some m =>
      if m.kind ≠ .table then throw (.notTableHeader name m.kind)
      else if m.closed then throw (.tableExists name)
      else pure (k.set path { m with closed := true })
  pure { k with current := path }

def openArrayTable (k : Keys) (path : List String) : Except KeyProblem Keys := do
  let k ← k.leave.descend [] path.dropLast
  let k ← match k.find? path with
    | none => pure (k.set path { kind := .arrayTable, closed := true })
    | some m =>
      if m.kind ≠ .arrayTable then throw (.notArrayHeader (path.getLast?.getD "") m.kind)
      else pure { k with marks := k.marks.filter fun e => !isBelow path e.1 }
  pure { k with current := path }

def define (k : Keys) (parent : List String) : List String → Except KeyProblem Keys
  | [] => .ok k
  | [part] =>
    let path := parent ++ [part]
    match k.find? path with
    | none => .ok (k.set path { kind := .value, byPair := true })
    | some _ => .error (.keyExists part)
  | part :: parts =>
    let path := parent ++ [part]
    match k.find? path with
    | none => (k.set path { kind := .table, byPair := true }).define path parts
    | some m =>
      if m.kind ≠ .table then .error (.notTable part m.kind)
      else if m.closed then .error (.tableClosed part)
      else k.define path parts

end Keys

mutual

/-- Checks that the inline tables of a value define every key once. -/
def Written.checkKeys : Written → Except KeyProblem Unit
  | .array vs => Written.checkAll vs
  | .table _ es => Written.checkEntries {} es
  | _ => .ok ()

def Written.checkAll : List Written → Except KeyProblem Unit
  | [] => .ok ()
  | v :: vs => do
    v.checkKeys
    Written.checkAll vs

def Written.checkEntries (k : Keys) : List (List String × Written) → Except KeyProblem Unit
  | [] => .ok ()
  | (key, v) :: es => do
    let k ← k.define [] key
    v.checkKeys
    Written.checkEntries k es

end

def Keys.step (k : Keys) (e : Expression) : Except Fault Keys :=
  let keys : Except KeyProblem Keys := match e with
    | .pair key v => do
      let k ← k.define k.current key
      v.checkKeys
      pure k
    | .table key => k.openTable key
    | .arrayTable key => k.openArrayTable key
  keys.mapError fun p => ⟨.key p, none⟩

end ShaderGraph.Toml
