/-!
# Writers with a limit

A sink takes bytes up to a limit. A write past it keeps what fits and reports how much that was.
-/

namespace ShaderGraph.Text

structure Sink where
  limit : Option Nat := none
  written : List UInt8 := []

def Sink.room (s : Sink) : Option Nat := s.limit.map (· - s.written.length)

/-- Writes bytes; answers how many were taken and whether all were. -/
def Sink.write (s : Sink) (bytes : List UInt8) : (Nat × Bool) × Sink :=
  match s.room with
  | none => ((bytes.length, true), { s with written := s.written ++ bytes })
  | some room =>
    if bytes.length ≤ room then
      ((bytes.length, true), { s with written := s.written ++ bytes })
    else
      ((room, false), { s with written := s.written ++ bytes.take room })

def Sink.writeText (s : Sink) (t : String) : (Nat × Bool) × Sink := s.write t.toUTF8.toList

def Sink.fullMessage : String := "writer full"

end ShaderGraph.Text
