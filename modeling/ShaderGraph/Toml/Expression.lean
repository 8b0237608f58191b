import ShaderGraph.Toml.Number

/-!
# TOML expressions

A document is a list of expressions: pairs of a key and a value, and headers of tables and of
tables in arrays. Values are kept as they are written; see `Toml.Numeric`.
-/

namespace ShaderGraph.Toml

/-- A value as it is written, some with how many bytes are left where they start. -/
inductive Written where
  | string (left : Nat) (s : String)
  | bool (left : Nat) (b : Bool)
  | numeric (left : Nat) (n : Numeric)
  | array (elements : List Written)
  | table (left : Nat) (entries : List (List String × Written))

inductive Expression where
  | pair (key : List String) (value : Written)
  | table (key : List String)
  | arrayTable (key : List String)

def boolWord (b : Bool) : Scan Written := fun cs =>
  let word := toString b
  if cs.take word.length = word.toList then .ok (.bool cs.length b, cs.drop word.length)
  else failForm (.wordExpected word) cs

def scalar : Scan Written := fun cs =>
  match cs with
  | [] => failForm .valueAtEnd []
  | '"' :: _ | '\'' :: _ => (string cs).map fun (s, r) => (.string cs.length s, r)
  | 't' :: _ => boolWord true cs
  | 'f' :: _ => boolWord false cs
  | _ => (numeric cs).map fun (n, r) => (.numeric cs.length n, r)

mutual

def value : Nat → Scan Written
  | 0, cs => failForm .valueAtEnd cs
  | n + 1, '[' :: cs => (elements n ('[' :: cs) true cs).map fun (vs, r) => (.array vs, r)
  | n + 1, '\x7b' :: cs =>
    (entries n true cs).map fun (es, r) => (.table (cs.length + 1) es, r)
  | _ + 1, cs => scalar cs

/-- The elements of an array, which starts at `start`, from one on, `first` or not. A comma may
follow the last one. -/
def elements : Nat → List Char → Bool → Scan (List Written)
  | 0, start, _, _ => failForm .arrayIncomplete start
  | _ + 1, _, _, [] => failForm (.expectedAtEnd ']') []
  | n + 1, start, first, c :: cs => do
    let element (cs : List Char) : Except Fault (List Written × List Char) := do
      let (v, cs) ← value n cs
      let (vs, cs) ← elements n start false (← skipLines false cs)
      pure (v :: vs, cs)
    match ← skipLines false (c :: cs) with
    | [] => failForm .arrayIncomplete start
    | ']' :: cs => pure ([], cs)
    | ',' :: cs =>
      if first then failForm .arrayStartsWithComma (',' :: cs)
      else match ← skipLines false cs with
        | ']' :: cs => pure ([], cs)
        | cs => element cs
    | cs => if first then element cs else failForm .arrayWithoutComma cs

def entries : Nat → Bool → Scan (List (List String × Written))
  | 0, _, cs => failForm .tableIncomplete cs
  | _ + 1, _, [] => failForm (.expectedAtEnd '\x7d') []
  | n + 1, first, c :: cs =>
    match skipBlank (c :: cs) with
    | [] => failForm .tableIncomplete (c :: cs)
    | '\x7d' :: cs => .ok ([], cs)
    | cs => do
      let cs ← if first then pure cs else (expect ',' cs).map skipBlank
      let (e, cs) ← pair n cs
      let (es, cs) ← entries n false cs
      pure (e :: es, cs)

def pair : Nat → Scan (List String × Written)
  | 0, cs => failForm .keyAtEnd cs
  | n + 1, cs => do
    let (k, cs) ← key cs
    let cs := skipBlank cs
    if cs.isEmpty then failForm .equalsAtEnd []
    let cs ← expect '=' cs
    let (v, cs) ← value n (skipBlank cs)
    pure ((k, v), cs)

end

def header : Scan Expression := fun cs =>
  match cs with
  | '[' :: '[' :: cs => do
    let (k, cs) ← key (skipBlank cs)
    let cs ← expect ']' (skipBlank cs)
    let cs ← expect ']' cs
    pure (.arrayTable k, cs)
  | cs => do
    let (k, cs) ← key (skipBlank (cs.drop 1))
    let cs ← expect ']' (skipBlank cs)
    pure (.table k, cs)

/-- Every level of nesting takes characters, and no more than four calls. -/
def depth (cs : List Char) : Nat := 4 * cs.length + 4

def line : Scan (Option Expression) := fun cs =>
  match skipBlank cs with
  | [] => .ok (none, [])
  | '#' :: cs => (comment cs).map (none, ·)
  | '\n' :: cs => .ok (none, '\n' :: cs)
  | '\r' :: cs => .ok (none, '\r' :: cs)
  | c :: cs => do
    let (e, r) ← if c == '[' then header (c :: cs)
      else (pair (depth cs) (c :: cs)).map fun ((k, v), r) => (.pair k v, r)
    match skipBlank r with
    | '#' :: r => (comment r).map (some e, ·)
    | r => pure (some e, r)

/-- What is read of a document: the expressions before the first fault. -/
structure Document where
  expressions : List Expression := []
  fault : Option Fault := none

def lines : Nat → List Char → Document
  | 0, _ => {}
  | n + 1, cs =>
    match line cs with
    | .error e => { fault := some e }
    | .ok (e, r) =>
      let rest : Document := if r.isEmpty then {}
        else match newline r with
          | .error e => { fault := some e }
          | .ok r => lines n r
      { rest with expressions := e.toList ++ rest.expressions }

def document (s : String) : Document :=
  let bytes := encode s
  lines (bytes.length + 1) bytes

end ShaderGraph.Toml
