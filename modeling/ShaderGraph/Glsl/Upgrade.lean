/-!
# From GLSL ES 1.00 to desktop GLSL 4.10

Preprocessor lines that let a GLSL ES 1.00 stage compile as GLSL 4.10 core. The result ends
with a zero character.
-/

namespace ShaderGraph.Glsl

def vertexUpgrade : String :=
  "#version 410\n#define attribute in\n#define varying out\n#define texture2D texture\n"

def fragmentUpgrade : String :=
  "#version 410\n#define varying in\n#define texture2D texture\nout vec4 zenFragColor;\n" ++
    "#define gl_FragColor zenFragColor\n"

def upgrade (source : String) (vertex : Bool) : String :=
  let text := (if vertex then vertexUpgrade else fragmentUpgrade) ++ source
  if source.toList.getLast? = some (Char.ofNat 0) then text
  else text.push (Char.ofNat 0)

end ShaderGraph.Glsl
