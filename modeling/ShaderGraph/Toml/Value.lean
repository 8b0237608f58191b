import ShaderGraph.Toml.Keys

/-!
# TOML values

The values of the keys at the top of a document. Of a table only that it is one is kept, but
what it holds has to be well formed.
-/

namespace ShaderGraph.Toml

inductive Value where
  | string (s : String)
  | integer (n : Int)
  | float (x : Float)
  | bool (b : Bool)
  | moment (kind : MomentKind)
  | array (elements : List Value)
  | table

def Numeric.value (left : Nat) (n : Numeric) : Except Fault Value :=
  let v : Meaning Value := match n with
    | .integer t => (Toml.integer t).map .integer
    | .float t => (Toml.float t).map .float
    | .moment kind t => (checkMoment kind t).map fun _ => .moment kind
  v.mapError fun (p, i) => ⟨p, some (left - i)⟩

mutual

def Written.value : Written → Except Fault Value
  | .string _ s => .ok (.string s)
  | .bool _ b => .ok (.bool b)
  | .numeric left n => n.value left
  | .array vs => (Written.values vs).map .array
  | .table _ es => (Written.checkValues es).map fun _ => .table

def Written.values : List Written → Except Fault (List Value)
  | [] => .ok []
  | v :: vs => do
    let x ← v.value
    let xs ← Written.values vs
    pure (x :: xs)

def Written.checkValues : List (List String × Written) → Except Fault Unit
  | [] => .ok ()
  | (_, v) :: es => do
    let _ ← v.value
    Written.checkValues es

end

/-- The keys at the top of a document, in the order in which they appear. -/
abbrev Table := List (String × Value)

def Table.add (t : Table) (key : String) (v : Value) : Table :=
  if (t.lookup key).isSome then t else t ++ [(key, v)]

structure Reading where
  keys : Keys := {}
  table : Table := []

def Reading.step (r : Reading) (e : Expression) : Except Fault Reading := do
  let keys ← r.keys.step e
  match e with
  | .pair key v =>
    let x ← v.value
    let table := match r.keys.current ++ key with
      | [name] => r.table.add name x
      | name :: _ => r.table.add name .table
      | [] => r.table
    pure { keys, table }
  | .table key => pure { keys, table := (key.head?.map fun k => r.table.add k .table).getD r.table }
  | .arrayTable key =>
    let v : Value := if key.length = 1 then .array [.table] else .table
    pure { keys, table := (key.head?.map fun k => r.table.add k v).getD r.table }

def read (s : String) : Except Fault Table := do
  let d := document s
  let r ← d.expressions.foldlM Reading.step {}
  match d.fault with
  | some e => throw e
  | none => pure r.table

end ShaderGraph.Toml
