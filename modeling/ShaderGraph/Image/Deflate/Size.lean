import ShaderGraph.Image.Deflate.Code
import ShaderGraph.Image.Deflate.Repetition

/-!
# Sizes of compressed data

How long data gets when it is compressed as one block: as tokens in a code of their own or in a
fixed one, as literals only, or stored as it is, whichever seems the shortest.
-/

namespace ShaderGraph.Deflate

/-! ## Symbols -/

def endOfBlock : Nat := 256

/-- The class of a number among ranges that start at these, with its bits. -/
def classOf (ranges : List (Nat × Nat)) (n : Nat) : Nat × Nat :=
  let below := ranges.takeWhile (·.1 ≤ n)
  (below.length - 1, (below.getLast?.map (·.2)).getD 0)

/-- Where the classes of copy lengths start, and the bits to tell lengths of a class apart. -/
def lengthRanges : List (Nat × Nat) :=
  [(3, 0), (4, 0), (5, 0), (6, 0), (7, 0), (8, 0), (9, 0), (10, 0), (11, 1), (13, 1), (15, 1),
    (17, 1), (19, 2), (23, 2), (27, 2), (31, 2), (35, 3), (43, 3), (51, 3), (59, 3), (67, 4),
    (83, 4), (99, 4), (115, 4), (131, 5), (163, 5), (195, 5), (227, 5), (258, 0)]

def distanceRanges : List (Nat × Nat) :=
  [(1, 0), (2, 0), (3, 0), (4, 0), (5, 1), (7, 1), (9, 2), (13, 2), (17, 3), (25, 3), (33, 4),
    (49, 4), (65, 5), (97, 5), (129, 6), (193, 6), (257, 7), (385, 7), (513, 8), (769, 8),
    (1025, 9), (1537, 9), (2049, 10), (3073, 10), (4097, 11), (6145, 11), (8193, 12),
    (12289, 12), (16385, 13), (24577, 13)]

def Token.symbol : Token → Nat
  | .literal b => b.toNat
  | .copy length _ => endOfBlock + 1 + (classOf lengthRanges length).1

def Token.distanceSymbol? : Token → Option Nat
  | .literal _ => none
  | .copy _ distance => some (classOf distanceRanges distance).1

def Token.extra : Token → Nat
  | .literal _ => 0
  | .copy length distance =>
    (classOf lengthRanges length).2 + (classOf distanceRanges distance).2

def fixedLength (symbol : Nat) : Nat :=
  if symbol < 144 then 8 else if symbol < 256 then 9 else if symbol < 280 then 7 else 8

def fixedDistance : Nat := 5

/-! ## Blocks -/

def storedBits (data : Data) : Nat := 8 * (data.size + 5)

def usedLengths (ws : Weights) (length : Nat → Nat) : List Nat :=
  let used := ((ws.reverse.dropWhile (·.2 = 0)).map (·.1)).head?.map (· + 1)
  (List.range (used.getD 0)).map length

def maxFixedTokens : Nat := 249

def tokenBits (data : Data) (ts : List Token) : Nat :=
  let ws := weights 286 (endOfBlock :: ts.map (·.symbol))
  let ds := weights 30 (ts.filterMap (·.distanceSymbol?))
  let length := codeLengths 15 ws
  let distance := codeLengths 15 ds
  let extra := ts.foldl (fun n t => n + t.extra) 0
  let own := headerBits (usedLengths ws length ++ usedLengths ds distance) + bits ws length +
    bits ds distance + extra
  let fixed := 3 + bits ws fixedLength + bits ds (fun _ => fixedDistance) + extra
  let best := if ts.length < maxFixedTokens then min own fixed else own
  min best (storedBits data)

def likelyHeader : Nat := 560

def maxUnseen : Nat := 1024

/-- Whether no byte is much more frequent than others: the sum of squared differences to the
average is small. -/
def isEven (data : Data) (ws : Weights) : Bool :=
  let n := data.size
  ws.foldl (fun sum (s, w) => if s = endOfBlock then sum
    else sum + (256 * w - n) * (256 * w - n) + (n - 256 * w) * (n - 256 * w)) 0 < 131072 * n

def literalBits (data : Data) : Nat :=
  let ws := weights 257 (endOfBlock :: data.toList.map (·.toNat))
  let length := codeLengths 15 ws
  let guess := bits ws length + likelyHeader
  if (maxUnseen < data.size ∧ isEven data ws) ∨ storedBits data ≤ guess + guess / 128 then
    storedBits data
  else headerBits ((List.range 257).map length ++ [1]) + bits ws length

def maxStored : Nat := 32

def minSearched : Nat := 128

def blockBits (data : Data) : Nat :=
  if data.size ≤ maxStored then storedBits data
  else if data.size < minSearched then literalBits data
  else
    let ts := tokens data
    if ts.isEmpty then storedBits data
    else if data.size - data.size / 16 < ts.length then literalBits data
    else tokenBits data ts

def lastBlock : Nat := 10

/-- The size of compressed data in bytes, with the empty block at its end. -/
def size (data : Data) : Nat := (blockBits data + lastBlock + 7) / 8

end ShaderGraph.Deflate
