import ShaderGraph.Graph.Stage
import ShaderGraph.Glsl.Type

/-!
# Devices

A device answers the calls of a renderer and records them. Handles are taken from one counter,
so a handle names one object. Which calls fail, which programs link, which names are active and
what is read back are given with the device.
-/

namespace ShaderGraph

/-- The name of a device object. Zero is no object, and as a framebuffer the canvas. -/
abbrev Handle := Nat

inductive Fallible where
  | compile
  | buffer
  | texture
  | framebuffer
  | read
deriving DecidableEq, Repr

def Fallible.name : Fallible → String
  | .compile => "compile"
  | .buffer => "buffer"
  | .texture => "texture"
  | .framebuffer => "framebuffer"
  | .read => "read"

inductive DeviceError where
  | failed (call : Fallible)
  | notLinked
deriving DecidableEq, Repr

def DeviceError.message : DeviceError → String
  | .failed call => call.name ++ " failed"
  | .notLinked => "link failed"

/-- The calls to a device, with what they answered, and those to the surface or window it draws
to. A failed creation has handle zero. -/
inductive DeviceCall where
  | compileProgram (vertex fragment : String) (answer : Handle)
  | deleteProgram (p : Handle)
  | useProgram (p : Handle)
  | uniformLocation (p : Handle) (name : String) (answer : Int)
  | attributeLocation (p : Handle) (name : String) (answer : Int)
  | setUniform (location : Int) (type : GlType) (value : List Float32)
  | createBuffer (answer : Handle)
  | deleteBuffer (b : Handle)
  | arrayBufferData (b : Handle) (data : List Float32)
  | elementBufferData (b : Handle) (indices : List Nat)
  | bindAttribute (location : Int) (b : Handle) (size : Int) (divisor : Nat)
  | createTexture (width height : Int) (rgba : Option (List UInt8)) (answer : Handle)
  | deleteTexture (t : Handle)
  | textureData (t : Handle) (width height : Int) (rgba : Option (List UInt8))
  | bindTexture (unit : Nat) (t : Handle)
  | createFramebuffer (t : Handle) (answer : Handle)
  | deleteFramebuffer (f : Handle)
  | bindFramebuffer (f : Handle)
  | viewport (width height : Int)
  | clear (r g b a : Float32)
  | draw (mode : DrawMode) (elements : Handle) (count instances : Nat)
  | readPixels (width height : Int) (size : Nat)
  | setSize (width height : Int)
  | newWindow (title : String) (width height : Int) (resizable : Bool) (swapInterval : Nat)
  | openDevice
  | time
  | onFrame (frame : Nat) (seconds : Float)
  | framebufferSize
  | present
  | close

/-- Whether a frame is being prepared, which asks neither device nor window. -/
def DeviceCall.isFrame : DeviceCall → Bool
  | onFrame _ _ => true
  | _ => false

structure LinkedProgram where
  source : String
  names : List String := []

structure Device where
  instancing : Bool := true
  fails : Fallible → Nat → Bool := fun _ _ => false
  links : (vertex fragment : String) → Bool := fun _ _ => true
  active : String → Bool := fun _ => true
  /-- The location of an active name of a program, by the names asked for so far, itself included. -/
  place : (p : Handle) → (asked : List String) → (name : String) → Int :=
    fun _ asked name => asked.idxOf name
  /-- The byte at a place, of the read with this number among those that succeed. -/
  pixel : (read place : Nat) → UInt8 := fun _ _ => 0
  nextHandle : Handle := 1
  attempts : Fallible → Nat := fun _ => 0
  programs : List (Handle × LinkedProgram) := []
  reads : Nat := 0
  calls : List DeviceCall := []

namespace Device

def record (d : Device) (c : DeviceCall) : Device := { d with calls := d.calls ++ [c] }

def nextFails (d : Device) (k : Fallible) : Bool := d.fails k (d.attempts k)

def attempt (d : Device) (k : Fallible) : Device :=
  { d with attempts := fun k' => if k' = k then d.attempts k + 1 else d.attempts k' }

def takeHandle (d : Device) : Handle × Device :=
  (d.nextHandle, { d with nextHandle := d.nextHandle + 1 })

def create (d : Device) (k : Fallible) (call : Handle → DeviceCall) :
    Except DeviceError Handle × Device :=
  if d.nextFails k then (.error (.failed k), (d.attempt k).record (call 0))
  else
    let (h, d) := (d.attempt k).takeHandle
    (.ok h, d.record (call h))

def compileProgram (d : Device) (vertex fragment : String) : Except DeviceError Handle × Device :=
  if d.nextFails .compile then
    (.error (.failed .compile), (d.attempt .compile).record (.compileProgram vertex fragment 0))
  else if !d.links vertex fragment then
    (.error .notLinked, (d.attempt .compile).record (.compileProgram vertex fragment 0))
  else
    let (h, d) := (d.attempt .compile).takeHandle
    let d := { d with programs := (h, { source := vertex ++ fragment }) :: d.programs }
    (.ok h, d.record (.compileProgram vertex fragment h))

def occursIn (part : List Char) : List Char → Bool
  | [] => part.isEmpty
  | c :: cs => part.isPrefixOf (c :: cs) || occursIn part cs

def declares (source name : String) : Bool := occursIn (' ' :: name.toList ++ [';']) source.toList

/-- The location of a name in a program, minus one where the program does not have it. -/
def locate (d : Device) (p : Handle) (name : String) : Int × Device :=
  match d.programs.lookup p with
  | none => (-1, d)
  | some prog =>
    if !d.active name || !declares prog.source name then (-1, d)
    else
      let asked := if prog.names.contains name then prog.names else prog.names ++ [name]
      let prog' := { prog with names := asked }
      (d.place p asked name,
        { d with programs := d.programs.map fun e => if e.1 = p then (p, prog') else e })

def uniformLocation (d : Device) (p : Handle) (name : String) : Int × Device :=
  let (l, d) := d.locate p name
  (l, d.record (.uniformLocation p name l))

def attributeLocation (d : Device) (p : Handle) (name : String) : Int × Device :=
  let (l, d) := d.locate p name
  (l, d.record (.attributeLocation p name l))

def createBuffer (d : Device) : Except DeviceError Handle × Device := d.create .buffer .createBuffer

def createTexture (d : Device) (width height : Int) (rgba : Option (List UInt8)) :
    Except DeviceError Handle × Device :=
  d.create .texture (.createTexture width height rgba)

def createFramebuffer (d : Device) (t : Handle) : Except DeviceError Handle × Device :=
  d.create .framebuffer (.createFramebuffer t)

def readPixels (d : Device) (width height : Int) (size : Nat) :
    Except DeviceError (List UInt8) × Device :=
  let d' := (d.attempt .read).record (.readPixels width height size)
  if d.nextFails .read then (.error (.failed .read), d')
  else (.ok ((List.range size).map (d.pixel d.reads)), { d' with reads := d.reads + 1 })

end Device

end ShaderGraph
