import ShaderGraph.Render.Device

/-!
# Traces

A call as its name and arguments, as a trace shows it. Sources are shown by their length in
bytes.
-/

namespace ShaderGraph

inductive CallArgument where
  | number (n : Int)
  | flag (b : Bool)
  | text (s : String)
  | float (v : Float32)
  | floats (vs : List Float32)
  | numbers (ns : List Nat)
  | bytes (bs : Option (List UInt8))

namespace DeviceCall

open CallArgument

def nat (n : Nat) : CallArgument := number n

def entry : DeviceCall → String × List CallArgument
  | compileProgram v f h =>
    ("CompileProgram", [nat v.utf8ByteSize, nat f.utf8ByteSize, nat h])
  | deleteProgram p => ("DeleteProgram", [nat p])
  | useProgram p => ("UseProgram", [nat p])
  | uniformLocation p name l => ("UniformLocation", [nat p, text name, number l])
  | attributeLocation p name l => ("AttribLocation", [nat p, text name, number l])
  | setUniform l t vs => ("SetUniform", [number l, text t.name, floats vs])
  | createBuffer h => ("CreateBuffer", [nat h])
  | deleteBuffer b => ("DeleteBuffer", [nat b])
  | arrayBufferData b vs => ("ArrayBufferData", [nat b, floats vs])
  | elementBufferData b is => ("ElementBufferData", [nat b, numbers is])
  | bindAttribute l b size divisor =>
    ("BindAttribute", [number l, nat b, number size, nat divisor])
  | createTexture w h rgba t => ("CreateTexture", [number w, number h, bytes rgba, nat t])
  | deleteTexture t => ("DeleteTexture", [nat t])
  | textureData t w h rgba => ("TextureData", [nat t, number w, number h, bytes rgba])
  | bindTexture unit t => ("BindTexture", [nat unit, nat t])
  | createFramebuffer t f => ("CreateFramebuffer", [nat t, nat f])
  | deleteFramebuffer f => ("DeleteFramebuffer", [nat f])
  | bindFramebuffer f => ("BindFramebuffer", [nat f])
  | viewport w h => ("Viewport", [number w, number h])
  | clear r g b a => ("Clear", [floats [r, g, b, a]])
  | draw mode elements count instances =>
    ("Draw", [text mode.name, nat elements, nat count, nat instances])
  | readPixels w h size => ("ReadPixels", [number w, number h, nat size])
  | setSize w h => ("SetSize", [number w, number h])
  | newWindow title w h resizable interval =>
    ("NewWindow", [text title, number w, number h, flag resizable, nat interval])
  | openDevice => ("Device", [])
  | time => ("Time", [])
  | onFrame frame seconds => ("OnFrame", [nat frame, float seconds.toFloat32])
  | framebufferSize => ("FramebufferSize", [])
  | present => ("Present", [])
  | close => ("Close", [])

end DeviceCall

end ShaderGraph
