import ShaderGraph.Graph.Job

/-!
# Printing sources

The sources of a job, each under a heading. A terminal's colors decide how they are highlighted;
the text is the same.
-/

namespace ShaderGraph.Viewer

inductive ColorProfile where
  | trueColor
  | ansi256
  | ansi
  | ascii
deriving DecidableEq, Repr

def ColorProfile.ofName? : String → Option ColorProfile
  | "truecolor" => some .trueColor
  | "ansi256" => some .ansi256
  | "ansi" => some .ansi
  | "ascii" => some .ascii
  | _ => Option.none

inductive Escapes where
  | rgb
  | table256
  | table16
  | none
deriving DecidableEq, Repr

def Escapes.name : Escapes → String
  | .rgb => "16m"
  | .table256 => "256"
  | .table16 => "16"
  | .none => "none"

def ColorProfile.escapes : ColorProfile → Escapes
  | .trueColor => .rgb
  | .ansi256 => .table256
  | .ansi => .table16
  | .ascii => .none

def heading (stage : Stage) : String := "// " ++ stage.name ++ " shader\n"

/-- Writes a source under its heading; answers whether both were taken. A highlighted source
always counts as taken. -/
def printSource (p : ColorProfile) (s : Text.Sink) (stage : Stage) (source : String) :
    Bool × Text.Sink :=
  match s.writeText (heading stage) with
  | ((_, false), s) => (false, s)
  | ((_, true), s) =>
    let ((_, taken), s) := s.writeText source
    (taken || p ≠ .ascii, s)

def printSources (p : ColorProfile) (s : Text.Sink) (j : Job) : Bool × Text.Sink :=
  match printSource p s .vertex j.vertexSource with
  | (true, s) => printSource p s .fragment j.fragmentSource
  | (false, s) => (false, s)

def printAll (p : ColorProfile) (s : Text.Sink) : List Job → Bool × Text.Sink
  | [] => (true, s)
  | j :: js =>
    match printSources p s j with
    | (true, s) => printAll p s js
    | (false, s) => (false, s)

/-- The escapes in what was written: there are none before the first source. -/
def ColorProfile.escapesIn (p : ColorProfile) (s : Text.Sink) : Escapes :=
  if s.written.length ≤ (heading .vertex).utf8ByteSize then .none else p.escapes

end ShaderGraph.Viewer
