/-! # Lines of a text -/

namespace ShaderGraph.Text

def splitLines : List Char → List (List Char)
  | [] => [[]]
  | c :: cs =>
    if c = '\n' then [] :: splitLines cs
    else match splitLines cs with
      | [] => [[c]]
      | l :: ls => (c :: l) :: ls

def lines (s : String) : List String :=
  ((splitLines s.toList).filter (!·.isEmpty)).map String.ofList

/-- Each line that is not empty, after a tab and with a line feed. -/
def indent (s : String) : String := String.join ((lines s).map fun l => "\t" ++ l ++ "\n")

def trimFeeds (s : String) : String :=
  String.ofList ((s.toList.reverse.dropWhile (· == '\n')).reverse)

end ShaderGraph.Text
