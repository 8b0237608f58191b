/-!
# Prefix codes of compressed data

The lengths of the codes of symbols, the shortest for the most frequent ones, and the size of the
header that tells them.
-/

namespace ShaderGraph.Deflate

/-! ## Codes -/

abbrev Weights := List (Nat × Nat)

structure Package where
  weight : Nat
  symbols : List Nat

/-- Joins neighbours. A last one without a neighbour is dropped. -/
def pairUp : List Package → List Package
  | p :: q :: ps => ⟨p.weight + q.weight, p.symbols ++ q.symbols⟩ :: pairUp ps
  | _ => []

/-- Merges two lists in order of weight, the second one first where weights are equal. -/
def merge : List Package → List Package → List Package
  | [], qs => qs
  | ps, [] => ps
  | p :: ps, q :: qs =>
    if p.weight < q.weight then p :: merge ps (q :: qs) else q :: merge (p :: ps) qs
termination_by ps qs => ps.length + qs.length

def packages (leaves : List Package) : Nat → List Package
  | 0 => leaves
  | n + 1 => merge leaves (pairUp (packages leaves n))

/-- The lengths of the best code of at most `maxBits` bits. -/
def codeLengths (maxBits : Nat) (ws : Weights) : Nat → Nat :=
  let used := ws.filter (·.2 ≠ 0)
  if used.length ≤ 2 then fun s => if used.any (·.1 = s) then 1 else 0
  else
    let leaves := (used.mergeSort fun a b => a.2 < b.2 || a.2 = b.2 && a.1 ≤ b.1).map fun (s, w) =>
      (⟨w, [s]⟩ : Package)
    let taken := (packages leaves (min maxBits (used.length - 1) - 1)).take (2 * used.length - 2)
    let grown := taken.flatMap (·.symbols)
    let lengths := grown.foldl (fun (t : Array Nat) s => t.modify s (· + 1)) (Array.replicate 286 0)
    fun s => lengths[s]?.getD 0

def bits (ws : Weights) (length : Nat → Nat) : Nat := ws.foldl (fun n (s, w) => n + w * length s) 0

def weights (count : Nat) (symbols : List Nat) : Weights :=
  let table := symbols.foldl (fun (t : Array Nat) s => t.modify s (· + 1)) (Array.replicate count 0)
  table.toList.zipIdx.map fun (w, s) => (s, w)

/-! ## Headers -/

/-- The symbols of a run of nonzero lengths: repetitions are of three to six. -/
def repeated (length : Nat) : Nat → List Nat
  | n + 3 => 16 :: repeated length (n + 3 - min 6 (n + 3))
  | n => List.replicate n length
termination_by n => n

/-- The symbols of a run of zeros: repetitions are of three to ten or of eleven to 138. -/
def zeros : Nat → List Nat
  | n + 11 => 18 :: zeros (n + 11 - min 138 (n + 11))
  | n => if 3 ≤ n then [17] else List.replicate n 0
termination_by n => n

def run (length count : Nat) : List Nat :=
  if length = 0 then zeros count else length :: repeated length (count - 1)

def runs : List Nat → List (Nat × Nat)
  | [] => []
  | n :: ns =>
    match runs ns with
    | (m, count) :: rest => if n = m then (m, count + 1) :: rest else (n, 1) :: (m, count) :: rest
    | [] => [(n, 1)]

def headerOrder : List Nat := [16, 17, 18, 0, 8, 7, 9, 6, 10, 5, 11, 4, 12, 3, 13, 2, 14, 1, 15]

def extraBits : Nat → Nat
  | 16 => 2
  | 17 => 3
  | 18 => 7
  | _ => 0

def headerBits (lengths : List Nat) : Nat :=
  let symbols := (runs lengths).flatMap fun (length, count) => run length count
  let ws := weights 19 symbols
  let length := codeLengths 7 ws
  let unused := (headerOrder.reverse.takeWhile fun s => !symbols.contains s).length
  17 + 3 * max 4 (19 - unused) + bits ws length + bits ws extraBits

end ShaderGraph.Deflate
