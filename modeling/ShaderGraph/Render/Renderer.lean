import ShaderGraph.Graph.Build
import ShaderGraph.Render.Blit
import ShaderGraph.Render.Device
import ShaderGraph.Text.Log

/-!
# Renderers

A renderer draws the jobs mounted on a device. Values staged since the last frame are uploaded
before a job is drawn. Jobs that sample a feedback texture read the buffer drawn in the frame
before, while the job that renders into it draws into the other buffer of the pair.
-/

namespace ShaderGraph

structure UniformSlot where
  uniform : Uniform
  location : Int
  sent : UInt64 := 0

structure AttributeSlot where
  source : Attribute
  location : Int
  buffer : Handle
  sent : UInt64 := 0

structure PlainTexture where
  texture : Texture
  handle : Handle
  sent : UInt64

structure TargetBuffer where
  texture : Handle
  framebuffer : Handle

structure FeedbackPair where
  texture : Texture
  first : TargetBuffer
  second : TargetBuffer
  /-- Whether the next frame is drawn into the second buffer. -/
  odd : Bool := false

namespace FeedbackPair

def target (p : FeedbackPair) : TargetBuffer := if p.odd then p.second else p.first

def source (p : FeedbackPair) : TargetBuffer := if p.odd then p.first else p.second

def index (p : FeedbackPair) : Nat := if p.odd then 1 else 0

def swap (p : FeedbackPair) : FeedbackPair := { p with odd := !p.odd }

end FeedbackPair

/-- A mounted job. Its textures are bound in order from unit zero on. -/
structure MountedJob where
  job : Nat
  program : Handle
  resolution : Int
  uniforms : List UniformSlot := []
  attributes : List AttributeSlot := []
  textures : List Texture := []
  elements : Handle := 0
  target : Option Texture := none

structure BlitProgram where
  program : Handle := 0
  quad : Handle := 0
  position : Int := 0
  texture : Int := 0

inductive LinkError where
  | noJob
  | graph (errors : String)
  | device (e : DeviceError)
  /-- The blit program lacks a name that it needs. -/
  | incompleteBlit
deriving DecidableEq, Repr

def LinkError.message : LinkError → String
  | .noJob => "nil job"
  | .graph errors => errors
  | .device e => e.message
  | .incompleteBlit => "missing position attribute or texture uniform"

structure DroppedJob where
  place : Nat
  reason : LinkError
deriving DecidableEq, Repr

def DroppedJob.message (d : DroppedJob) : String :=
  "job " ++ toString d.place ++ ": " ++ d.reason.message

def DroppedJob.messages (ds : List DroppedJob) : String := "\n".intercalate (ds.map (·.message))

structure Renderer where
  jobs : List MountedJob := []
  /-- Shared by all jobs that sample the same texture. -/
  pairs : List FeedbackPair := []
  plains : List PlainTexture := []
  blit : BlitProgram := {}
  width : Int := 0
  height : Int := 0
  frame : Nat := 0
  dropped : List DroppedJob := []
  disposed : Bool := false
  heldPixels : Bool := false
  programs : List Handle := []
  buffers : List Handle := []
  textures : List Handle := []
  framebuffers : List Handle := []

namespace Renderer

def pair? (r : Renderer) (t : Texture) : Option FeedbackPair := r.pairs.find? (·.texture = t)

def plain? (r : Renderer) (t : Texture) : Option PlainTexture := r.plains.find? (·.texture = t)

def setPlain (r : Renderer) (p : PlainTexture) : Renderer :=
  { r with plains := r.plains.map fun q => if q.texture = p.texture then p else q }

/-- What is handed to the device for pixels. Before any were held, no pixels are no data at all. -/
def upload (r : Renderer) (data : List UInt8) : Option (List UInt8) :=
  if data.isEmpty && !r.heldPixels then none else some data

def hold (r : Renderer) (data : List UInt8) : Renderer :=
  { r with heldPixels := r.heldPixels || !data.isEmpty }

def error? (r : Renderer) : Option String :=
  if r.dropped.isEmpty then none else some (DroppedJob.messages r.dropped)

def feedbackIndex? (r : Renderer) (t : Texture) : Option Nat := (r.pair? t).map (·.index)

end Renderer

structure Rig where
  device : Device
  quiet : Bool := false
  log : List Log.Record := []
  renderer : Renderer := {}

abbrev Render := StateM Rig

namespace Render

def say (level : Log.Level) (message : String) (fields : List (String × Log.Value)) : Render Unit :=
  modify fun g => if g.quiet then g else { g with log := g.log ++ [⟨level, message, fields⟩] }

def issue (c : DeviceCall) : Render Unit := modify fun g => { g with device := g.device.record c }

def ask {α : Type} (f : Device → α × Device) : Render α :=
  modifyGet fun g => let (a, d) := f g.device; (a, { g with device := d })

def renderer : Render Renderer := do pure (← get).renderer

def update (f : Renderer → Renderer) : Render Unit :=
  modify fun g => { g with renderer := f g.renderer }

end Render

open Render

/-- Calls that may fail. What was created before a failure stays on the renderer's lists. -/
abbrev Link := ExceptT LinkError Render

namespace Link

def ask {α : Type} (f : Device → α × Device) : Link α := ExceptT.lift (Render.ask f)

def attempt {α : Type} (f : Device → Except DeviceError α × Device) : Link α :=
  ExceptT.mk ((Except.mapError LinkError.device) <$> Render.ask f)

def createProgram (vertex fragment : String) : Link Handle := do
  let p ← attempt (·.compileProgram vertex fragment)
  update fun r => { r with programs := r.programs ++ [p] }
  pure p

def createBuffer : Link Handle := do
  let b ← attempt (·.createBuffer)
  update fun r => { r with buffers := r.buffers ++ [b] }
  pure b

def createTexture (width height : Int) (rgba : Option (List UInt8)) : Link Handle := do
  let t ← attempt (·.createTexture width height rgba)
  update fun r => { r with textures := r.textures ++ [t] }
  pure t

/-- A buffer of a feedback texture, sized when the first frame is drawn. -/
def createTarget : Link TargetBuffer := do
  let texture ← createTexture 1 1 none
  let framebuffer ← attempt (·.createFramebuffer texture)
  update fun r => { r with framebuffers := r.framebuffers ++ [framebuffer] }
  pure { texture, framebuffer }

def feedback (t : Texture) : Link Unit := do
  if ((← renderer).pair? t).isNone then
    let first ← createTarget
    let second ← createTarget
    update fun r => { r with pairs := r.pairs ++ [{ texture := t, first, second }] }

def plain (w : Workspace) (t : Texture) : Link Unit := do
  if ((← renderer).plain? t).isNone then
    let s := w.textureState t
    let data := (← renderer).upload s.data
    update (·.hold s.data)
    let handle ← createTexture s.width s.height data
    update fun r => { r with plains := r.plains ++ [{ texture := t, handle, sent := s.version }] }

def samplers (w : Workspace) (program : Handle) : Nat → List Texture → Link Unit
  | _, [] => pure ()
  | unit, t :: ts => do
    if t.feedback then feedback t else plain w t
    let l ← ask (·.uniformLocation program t.name)
    if 0 ≤ l then issue (.setUniform l .sampler2D [Number.ofInt unit])
    samplers w program (unit + 1) ts

def attributeSlots (program : Handle) : List Attribute → Link (List AttributeSlot)
  | [] => pure []
  | a :: as => do
    let buffer ← createBuffer
    let location ← ask (·.attributeLocation program a.name)
    let rest ← attributeSlots program as
    pure ({ source := a, location, buffer } :: rest)

def uniformSlots (program : Handle) : List Uniform → Link (List UniformSlot)
  | [] => pure []
  | u :: us => do
    let location ← ask (·.uniformLocation program u.name)
    let rest ← uniformSlots program us
    pure ({ uniform := u, location } :: rest)

end Link

def sendUniforms (w : Workspace) : List UniformSlot → Render (List UniformSlot)
  | [] => pure []
  | s :: ss => do
    let state := w.uniformState s.uniform
    let fresh := 0 ≤ s.location ∧ state.version ≠ s.sent
    if fresh then issue (.setUniform s.location s.uniform.type state.value)
    let rest ← sendUniforms w ss
    pure ((if fresh then { s with sent := state.version } else s) :: rest)

def Link.job (w : Workspace) (number : Nat) (job : Job) : Link MountedJob := do
  let program ← createProgram job.vertexSource job.fragmentSource
  let resolution ← ask (·.uniformLocation program Glsl.resolutionName)
  issue (.useProgram program)
  let uniforms ← uniformSlots program (job.uniforms.filter (·.type ≠ .sampler2D))
  samplers w program 0 job.textures
  let attributes ← attributeSlots program job.attributes
  let elements ← match job.indices with
    | none => pure 0
    | some is => do
      let b ← createBuffer
      issue (.elementBufferData b is)
      pure b
  let uniforms ← sendUniforms w uniforms
  pure {
    job := number
    program, resolution, uniforms, attributes, elements
    textures := job.textures
    target := job.feedback? }

def Link.blit : Link Unit := do
  let program ← createProgram Blit.vertexSource Blit.fragmentSource
  let quad ← createBuffer
  issue (.arrayBufferData quad Build.quadVertices)
  let position ← ask (·.attributeLocation program Blit.positionName)
  let texture ← ask (·.uniformLocation program Blit.textureName)
  update fun r => { r with blit := { program, quad, position, texture } }
  if position < 0 ∨ texture < 0 then throw .incompleteBlit
  issue (.useProgram program)
  issue (.setUniform texture .sampler2D [0])

namespace Render

/-- Deletes everything the renderer created. Later calls do nothing. -/
def dispose : Render Unit := do
  let r ← renderer
  if !r.disposed then
    r.framebuffers.forM fun f => issue (.deleteFramebuffer f)
    r.textures.forM fun t => issue (.deleteTexture t)
    r.buffers.forM fun b => issue (.deleteBuffer b)
    r.programs.forM fun p => issue (.deleteProgram p)
    say .debug "glrender: disposed" [("programs", .number r.programs.length),
      ("buffers", .number r.buffers.length), ("textures", .number r.textures.length),
      ("framebuffers", .number r.framebuffers.length)]
    update fun r => { r with
      disposed := true
      programs := []
      buffers := []
      textures := []
      framebuffers := []
      jobs := []
      pairs := []
      plains := [] }

end Render

inductive MountError where
  /-- The surface cannot be rendered to, for a reason if there is one. -/
  | unsupported (reason : Option String)
  | noJobs
  | allDropped (jobs : List DroppedJob)
  | blit (e : LinkError)
deriving DecidableEq, Repr

def MountError.message : MountError → String
  | .unsupported reason =>
    "glrender: surface does not support rendering" ++ (reason.map (": " ++ ·)).getD ""
  | .noJobs => "glrender: no jobs to mount"
  | .allDropped jobs => DroppedJob.messages jobs
  | .blit e => "glrender: blit program: " ++ e.message

inductive Surface where
  | none
  | failing (reason : String)
  | withoutDevice
  | device
deriving DecidableEq, Repr

namespace Render

def linkJob (w : Workspace) (number : Option Nat) : Link MountedJob := do
  match number with
  | none => throw .noJob
  | some n =>
    match w.jobs[n]? with
    | none => throw .noJob
    | some job =>
      match job.error? with
      | some e => throw (.graph e)
      | none => Link.job w n job

/-- Links jobs from place `i` on; those that fail are dropped. -/
def linkJobs (w : Workspace) : Nat → List (Option Nat) → Render Unit
  | _, [] => pure ()
  | i, n :: ns => do
    match ← (linkJob w n).run with
    | .ok m => update fun r => { r with jobs := r.jobs ++ [m] }
    | .error e =>
      let d : DroppedJob := ⟨i, e⟩
      say .warn "glrender: dropping render job" [("job", .number i), ("err", .text d.message)]
      update fun r => { r with dropped := r.dropped ++ [d] }
    linkJobs w (i + 1) ns

/-- Mounts jobs, given by their numbers, on a surface. Jobs that do not link are dropped, unless
none links. -/
def mount (w : Workspace) (surface : Surface) (jobs : List (Option Nat)) :
    Render (Except MountError Unit) := do
  match surface with
  | .none | .withoutDevice => pure (.error (.unsupported none))
  | .failing reason => pure (.error (.unsupported (some reason)))
  | .device =>
    if !(← get).device.instancing then
      pure (.error (.unsupported (some "instanced drawing not available")))
    else if jobs.isEmpty then pure (.error .noJobs)
    else
      linkJobs w 0 jobs
      let r ← renderer
      if r.jobs.isEmpty then
        dispose
        pure (.error (.allDropped r.dropped))
      else
        let blit ← if r.pairs.isEmpty then pure (.ok ()) else Link.blit.run
        match blit with
        | .error e =>
          dispose
          pure (.error (.blit e))
        | .ok () =>
          say .debug "glrender: mounted" [("jobs", .number r.jobs.length),
            ("feedback", .number r.pairs.length)]
          pure (.ok ())

def blitTexture (t : Handle) : Render Unit := do
  let b := (← renderer).blit
  issue (.useProgram b.program)
  issue (.bindAttribute b.position b.quad 2 0)
  issue (.bindTexture 0 t)
  issue (.draw .triangleStrip 0 4 1)

/-- Uploads staged data and binds the buffers. Jobs share the device's bindings, so they are
made for every frame. -/
def sendAttributes (w : Workspace) : List AttributeSlot → Render (List AttributeSlot)
  | [] => pure []
  | s :: ss => do
    let state := w.attributeState s.source
    let fresh := state.version ≠ s.sent
    if fresh then issue (.arrayBufferData s.buffer state.data)
    if 0 ≤ s.location then
      issue (.bindAttribute s.location s.buffer s.source.size (if s.source.instanced then 1 else 0))
    let rest ← sendAttributes w ss
    pure ((if fresh then { s with sent := state.version } else s) :: rest)

def bindTextures (w : Workspace) : Nat → List Texture → Render Unit
  | _, [] => pure ()
  | unit, t :: ts => do
    let r ← renderer
    if t.feedback then
      match r.pair? t with
      | some p => issue (.bindTexture unit p.source.texture)
      | none => pure ()
    else
      match r.plain? t with
      | some p =>
        let state := w.textureState t
        if state.version ≠ p.sent then
          issue (.textureData p.handle state.width state.height (r.upload state.data))
          update fun r => (r.hold state.data).setPlain { p with sent := state.version }
        issue (.bindTexture unit p.handle)
      | none => pure ()
    bindTextures w (unit + 1) ts

def drawJob (w : Workspace) (m : MountedJob) : Render MountedJob := do
  issue (.useProgram m.program)
  let uniforms ← sendUniforms w m.uniforms
  let attributes ← sendAttributes w m.attributes
  bindTextures w 0 m.textures
  match w.jobs[m.job]? with
  | none => pure ()
  | some job =>
    let (vertices, instances) := job.counts w.elements
    let draw : DeviceCall := .draw job.mode m.elements vertices instances
    match m.target.bind (← renderer).pair? with
    | none => issue draw
    | some p =>
      issue (.bindFramebuffer p.target.framebuffer)
      issue draw
      issue (.bindFramebuffer 0)
      blitTexture p.target.texture
  pure { m with uniforms, attributes }

/-- Tells the surface, the programs and the feedback buffers about a new size. Programs get half
of it. -/
def resize (width height : Int) : Render Unit := do
  update fun r => { r with width, height }
  issue (.setSize width height)
  let r ← renderer
  let half := [Number.ofInt width / 2, Number.ofInt height / 2]
  r.jobs.forM fun m =>
    if m.resolution < 0 then pure ()
    else do
      issue (.useProgram m.program)
      issue (.setUniform m.resolution .vec2 half)
  r.pairs.forM fun p => do
    issue (.textureData p.first.texture width height none)
    issue (.textureData p.second.texture width height none)
  say .debug "glrender: resized" [("width", .number width), ("height", .number height)]

/-- Draws a frame of all jobs. Nothing happens after `dispose` or for an empty size. -/
def frame (w : Workspace) (width height : Int) : Render Unit := do
  let r ← renderer
  if !r.disposed ∧ 0 < width ∧ 0 < height then
    if width ≠ r.width ∨ height ≠ r.height then resize width height
    issue (.bindFramebuffer 0)
    issue (.viewport width height)
    issue (.clear 0 0 0 1)
    let jobs ← r.jobs.mapM (drawJob w)
    update fun r => { r with
      jobs
      pairs := r.pairs.map (·.swap)
      frame := r.frame + 1 }

end Render

end ShaderGraph
