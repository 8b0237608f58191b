import ShaderGraph.Graph.Eval

/-!
# Jobs

A vertex graph and a fragment graph compile to a job: the sources of both stages and the
session that lists the resources they use. Errors do not stop compilation; `Job.error?` joins
them.
-/

namespace ShaderGraph

structure CompileOptions where
  mode : DrawMode := .triangleStrip
  indices : Option (List Nat) := none
  folding : Bool := true

structure StageProgram where
  stage : Stage
  uniforms : List Uniform
  attributes : List Attribute
  varyings : List VaryingDef
  functions : List Function
  main : List Stmt
  result : String
  epilogue : List Stmt

mutual

/-- The function after the functions it calls, added to `fs`. -/
def Function.flatten (fs : List Function) : Function → List Function
  | f@⟨_, _, _, _, _, _, _, callees⟩ => adjoin (Function.flattenAll fs callees) [f]

def Function.flattenAll (fs : List Function) : List Function → List Function
  | [] => fs
  | g :: gs => Function.flattenAll (Function.flatten fs g) gs

end

def outputText? (type : GlType) (v : Atom) : Option String :=
  match type with
  | .float => some ("vec4(vec3(" ++ v.text ++ "), 1.0)")
  | .vec2 => some ("vec4(" ++ v.text ++ ", 0.0, 1.0)")
  | .vec3 => some ("vec4(" ++ v.text ++ ", 1.0)")
  | .vec4 => some v.text
  | _ => none

def VaryingDef.statements (v : VaryingDef) : List Stmt := v.code ++ [.assign v.name v.source]

namespace StageProgram

def ofResult (stage : Stage) (r : Registry) (g : Generated) (passed : List VaryingDef) :
    StageProgram :=
  { stage
    uniforms := r.uniforms
    attributes := match stage with
      | .vertex => r.attributes
      | .fragment => []
    varyings := r.varyings ++ passed
    functions := Function.flattenAll [] (g.functions ++ passed.flatMap (·.functions))
    main := g.code.stmts
    result := (outputText? g.type g.var).getD "vec4(0.0)"
    epilogue := passed.flatMap (·.statements) }

def sections (p : StageProgram) : Glsl.Sections :=
  { uniforms := p.uniforms.map fun u => ⟨u.type, u.name⟩
    attributes := p.attributes.map fun a => ⟨a.type, a.name⟩
    varyings := p.varyings.map fun v => ⟨v.type, v.name⟩
    functions := p.functions.map (·.text)
    main := Stmt.block p.main
    output := p.stage.output
    result := p.result
    epilogue := Stmt.block p.epilogue }

end StageProgram

structure Job where
  vertexSource : String
  fragmentSource : String
  session : Session
  mode : DrawMode
  indices : Option (List Nat)

def Session.writeStage (s : Session) (stage : Stage) (g : Generated) (passed : List VaryingDef) :
    String × Session :=
  let p := StageProgram.ofResult stage (s.registry stage) g passed
  let (text, conflicts) := p.sections.assemble
  let errors : List GraphError :=
    (if (outputText? g.type g.var).isNone then [.outputType stage g.type] else []) ++
      (if conflicts.isEmpty then [] else [.assembly (.definedTwice conflicts)])
  (text, s.updateRegistry stage (·.addErrors errors))

/-- Compiles a vertex and a fragment graph. The vertex graph is evaluated first, so that
varyings can refer to its declarations. -/
def compilePair (vertex fragment : Node) (o : CompileOptions) (nextId : NodeId) : Job :=
  let (gv, s) := (vertex.generate .vertexMain).run { nextId, folding := o.folding }
  let (gf, s) := (fragment.generate .fragmentMain).run s
  let (vertexSource, s) := s.writeStage .vertex gv s.fragment.varyings
  let (fragmentSource, s) := s.writeStage .fragment gf []
  { vertexSource, fragmentSource, session := s, mode := o.mode, indices := o.indices }

def Session.error? (s : Session) (stage : Stage) : Option String :=
  match (s.registry stage).errors with
  | [] => none
  | es => some ("\n".intercalate (es.map fun e => stage.name ++ ": " ++ e.message))

namespace Job

def error? (j : Job) : Option String :=
  match j.session.error? .vertex, j.session.error? .fragment with
  | none, none => none
  | some a, none | none, some a => some a
  | some a, some b => some (a ++ "\n" ++ b)

def uniforms (j : Job) : List Uniform :=
  adjoin j.session.vertex.uniforms j.session.fragment.uniforms

def attributes (j : Job) : List Attribute := j.session.vertex.attributes

def textures (j : Job) : List Texture :=
  adjoin j.session.vertex.textures j.session.fragment.textures

/-- The first feedback texture that the fragment stage samples; the job renders into it. -/
def feedback? (j : Job) : Option Texture := j.session.fragment.textures.find? (·.feedback)

def instanced (j : Job) : Bool := j.attributes.any (·.instanced)

/-- The numbers of vertices and instances drawn, given the number of elements of each attribute:
the longest attribute of each kind sets its count. -/
def counts (j : Job) (elements : Attribute → Nat) : Nat × Nat :=
  let longest (as : List Attribute) := (as.map elements).foldl max 0
  let vertices := match j.indices with
    | some is => is.length
    | none => longest (j.attributes.filter (!·.instanced))
  let instances := if j.instanced then longest (j.attributes.filter (·.instanced)) else 1
  (vertices, instances)

end Job

end ShaderGraph
