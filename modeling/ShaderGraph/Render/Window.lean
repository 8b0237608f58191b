import ShaderGraph.Render.Renderer

/-!
# Windows

A window is given by what it answers: whether it opens and has a device, the time and the size
of its framebuffer at each call, and after how many frames it should close.
-/

namespace ShaderGraph

structure WindowConfig where
  title : String := ""
  width : Int := 0
  height : Int := 0
  resizable : Bool := false
  swapInterval : Nat := 0
deriving DecidableEq, Repr

def WindowConfig.withDefaults (c : WindowConfig) : WindowConfig :=
  { c with
    title := if c.title.isEmpty then "zengl" else c.title
    width := if c.width ≤ 0 then 800 else c.width
    height := if c.height ≤ 0 then 600 else c.height }

structure Window where
  openError : Option String := none
  deviceError : Option String := none
  frames : Nat := 0
  time : Nat → Float := fun _ => 0
  size : Nat → Int × Int := fun _ => (0, 0)

namespace Window

def unavailableMessage : String :=
  "gldevice: OpenGL requires CGo and is not supported on TinyGo"

def unavailable : Window :=
  { openError := some unavailableMessage, deviceError := some unavailableMessage }

def surface (w : Window) : Surface :=
  match w.deviceError with
  | some reason => .failing reason
  | none => .device

end Window

end ShaderGraph
