/-!
# The blit program

A program that draws a texture over the whole canvas.
-/

namespace ShaderGraph.Blit

def positionName : String := "aPosition"

def textureName : String := "uTexture"

def vertexSource : String :=
  "precision mediump float;\nattribute vec2 aPosition;\nvarying vec2 vTexCoord;\n" ++
    "void main() \x7b\n\tvTexCoord = aPosition*0.5+0.5;\n" ++
    "\tgl_Position = vec4(aPosition, 0.0, 1.0);\n\x7d\n"

def fragmentSource : String :=
  "precision mediump float;\nuniform sampler2D uTexture;\nvarying vec2 vTexCoord;\n" ++
    "void main() \x7b\n\tgl_FragColor = texture2D(uTexture, vTexCoord);\n\x7d\n"

end ShaderGraph.Blit
