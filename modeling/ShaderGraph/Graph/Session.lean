import ShaderGraph.Graph.Generated

/-!
# Sessions and scopes

A session is the state of one compilation. Names are unique across both stages and all nested
bodies because they share its counter. A scope is a stage's main, a function body or a loop
body; what is declared in it is marked in the session under its id. A loop body also sees what
the scopes around it declare, a function body does not.
-/

namespace ShaderGraph

abbrev ScopeId := Nat

structure Scope where
  id : ScopeId
  stage : Stage
  /-- The scopes whose declarations are visible, this one first. -/
  visible : List ScopeId
  inLoop : Bool := false
  /-- Whether a vertex stage is compiled beside this fragment stage. -/
  paired : Bool := false
deriving DecidableEq, Repr

namespace Scope

def vertexMain : Scope := { id := 0, stage := .vertex, visible := [0] }

def fragmentMain : Scope := { id := 1, stage := .fragment, visible := [1], paired := true }

def main : Stage → Scope
  | .vertex => vertexMain
  | .fragment => fragmentMain

def lone (stage : Stage) : Scope := { id := 0, stage, visible := [0] }

def loopBody (c : Scope) (id : ScopeId) : Scope :=
  { c with id, visible := id :: c.visible, inLoop := true }

def functionBody (c : Scope) (id : ScopeId) : Scope :=
  { c with id, visible := [id], inLoop := false }

end Scope

/-- What a stage needs at run time, in the order of first use, and what was wrong with it. -/
structure Registry where
  uniforms : List Uniform := []
  attributes : List Attribute := []
  varyings : List VaryingDef := []
  textures : List Texture := []
  errors : List GraphError := []

namespace Registry

def addUniform (r : Registry) (u : Uniform) : Registry :=
  { r with
    uniforms := adjoin r.uniforms [u]
    textures := adjoin r.textures u.texture.toList }

def addUniforms (r : Registry) (us : List Uniform) : Registry := us.foldl addUniform r

def addAttribute (r : Registry) (a : Attribute) : Registry :=
  { r with attributes := adjoin r.attributes [a] }

def addVarying (r : Registry) (v : VaryingDef) : Registry :=
  if r.varyings.any (·.name == v.name) then r else { r with varyings := r.varyings ++ [v] }

def addErrors (r : Registry) (es : List GraphError) : Registry :=
  { r with errors := r.errors ++ es }

end Registry

structure MemoEntry where
  scope : ScopeId
  generated : Generated

structure Session where
  nextId : NodeId
  folding : Bool := true
  counter : Nat := 0
  nextScope : ScopeId := 2
  memo : List (NodeId × MemoEntry) := []
  functions : List (NodeId × Function) := []
  emitted : List (ScopeId × String) := []
  vertex : Registry := {}
  fragment : Registry := {}

namespace Session

def registry (s : Session) : Stage → Registry
  | .vertex => s.vertex
  | .fragment => s.fragment

def updateRegistry (s : Session) (stage : Stage) (f : Registry → Registry) : Session :=
  match stage with
  | .vertex => { s with vertex := f s.vertex }
  | .fragment => { s with fragment := f s.fragment }

/-- Whether a variable is declared in a scope, as far as the scope can see. -/
def isEmitted (s : Session) (c : Scope) (v : String) : Bool :=
  c.visible.any fun id => s.emitted.contains (id, v)

def mark (s : Session) (c : Scope) (vs : List String) : Session :=
  { s with emitted := (vs.filter (· ≠ "")).map (c.id, ·) ++ s.emitted }

/-- The remembered result of a node, if the scope can use it: as a reference where its variable
is declared, in full in the scope it came from and in a scope that declares nothing of it. The
last use declares all of it and registers its uniforms. -/
def lookup? (s : Session) (c : Scope) (id : NodeId) : Option (Generated × Session) :=
  match s.memo.lookup id with
  | none => none
  | some entry =>
    let g := entry.generated
    if s.isEmitted c g.var.text then some (g.reference, s)
    else if entry.scope = c.id then some (g, s)
    else if g.declared.any (s.isEmitted c) then none
    else some (g, (s.mark c (g.declared ++ [g.var.text])).updateRegistry c.stage
      (·.addUniforms g.uniforms))

def remember (s : Session) (c : Scope) (id : NodeId) (g : Generated) : Session :=
  { s with memo := (id, ⟨c.id, g⟩) :: s.memo }

def freshNames (s : Session) (bases : List String) : List String × Session :=
  (bases.map (· ++ toString s.counter), { s with counter := s.counter + 1 })

end Session

abbrev Eval := StateM Session

namespace Eval

def report (c : Scope) (es : List GraphError) : Eval Unit :=
  modify (·.updateRegistry c.stage (·.addErrors es))

def fresh (base : String) : Eval String :=
  modifyGet fun s => (base ++ toString s.counter, { s with counter := s.counter + 1 })

def useUniforms (stage : Stage) (us : List Uniform) : Eval Unit :=
  modify (·.updateRegistry stage (·.addUniforms us))

def skipId : Eval Unit := modify fun s => { s with nextId := s.nextId + 1 }

def newScope : Eval ScopeId :=
  modifyGet fun s => (s.nextScope, { s with nextScope := s.nextScope + 1 })

def emit (c : Scope) (type : GlType) (own : List Stmt) (var : Atom)
    (deps : List Generated) : Eval Generated := do
  modify (·.mark c ((deps.filter (!·.isReference)).map (·.var.text) ++ [var.text]))
  pure (.gather type own var deps)

def declare (c : Scope) (type : GlType) (v : String) (e : Expr) (deps : List Generated) :
    Eval Generated :=
  emit c type [.decl type v e] (.name v) deps

/-- Emits code given as text, which declares the variable unless it is empty. -/
def emitText (c : Scope) (type : GlType) (code : String) (var : String) (deps : List Generated) :
    Eval Generated := do
  let text := Text.trimFeeds code
  let g ← emit c type (if text = "" then [] else [.verbatim text]) (.name var) deps
  pure (if code = "" then g else { g with declared := adjoin g.declared [var] })

def memoized (c : Scope) (id : NodeId) (evaluate : Eval Generated) : Eval Generated := do
  match (← get).lookup? c id with
  | some (g, s) =>
    set s
    pure g
  | none =>
    let g ← evaluate
    modify (·.remember c id g)
    pure g

end Eval

end ShaderGraph
