/-!
# Repetitions in data

Data as literal bytes and copies of earlier bytes. Where four bytes or more came before is found
by tables of hashes, which keep the newest places only: one for four bytes, two for seven.
-/

namespace ShaderGraph.Deflate

inductive Token where
  | literal (b : UInt8)
  | copy (length distance : Nat)
deriving DecidableEq, Repr

abbrev Data := Array UInt8

namespace Data

/-- How many bytes at one place are equal to those at another, at most so many. -/
def common (d : Data) : Nat → Nat → Nat → Nat
  | 0, _, _ => 0
  | n + 1, i, j => if i < d.size ∧ d[i]? = d[j]? then d.common n (i + 1) (j + 1) + 1 else 0

def word (d : Data) (i n : Nat) : UInt64 :=
  (List.range n).foldr (fun k w => w <<< 8 ||| (d[i + k]?.getD 0).toUInt64) 0

def maxDistance : Nat := 32768

def maxCompared : Nat := 258

/-- Whether a place can be copied from: it is near and has the same four bytes. -/
def repeats (d : Data) (i j : Nat) : Bool := i < j + maxDistance && d.common 4 i j == 4

end Data

/-! ## Tables -/

def hashCount : Nat := 32768

def shortHash (d : Data) (i : Nat) : Nat := (((d.word i 4).toUInt32 * 2654435761) >>> 17).toNat

def longHash (d : Data) (i : Nat) : Nat :=
  (((d.word i 7 <<< 8) * 58295818150454627) >>> 49).toNat

structure Places where
  short : Array (Option Nat) := Array.replicate hashCount none
  long : Array (List Nat) := Array.replicate hashCount []

namespace Places

def addShort (p : Places) (d : Data) (i : Nat) : Places :=
  { p with short := p.short.set! (shortHash d i) (some i) }

def addLong (p : Places) (d : Data) (i : Nat) : Places :=
  { p with long := p.long.modify (longHash d i) fun old => i :: old.take 1 }

def add (p : Places) (d : Data) (i : Nat) : Places := (p.addShort d i).addLong d i

def short? (p : Places) (d : Data) (i : Nat) : Option Nat := (p.short[shortHash d i]?).join

def longs (p : Places) (d : Data) (i : Nat) : List Nat := (p.long[longHash d i]?).getD []

/-- Adds the places of a copied stretch: every other one by its four bytes, and all by seven. -/
def addRange (p : Places) (d : Data) (first last : Nat) : Places :=
  (List.range ((last - first) / 2)).foldl (fun p k =>
    let i := first + 2 * k
    (p.add d i).addLong d (i + 1)) p

end Places

/-! ## Copies -/

structure Stretch where
  start : Nat
  source : Nat
  length : Nat
deriving DecidableEq, Repr

/-- Takes a stretch at `i` from the first place that makes it longer. -/
def Stretch.improve (d : Data) (i : Nat) (s : Stretch) (source : Nat) : Stretch :=
  let length := d.common Data.maxCompared i source
  if d.repeats i source && s.length < length then ⟨i, source, length⟩ else s

/-- The stretch to copy at `i`. A place with the same seven bytes is best; with four, the next
places are tried as well: at the last distance, and those with the same seven bytes as `next`. -/
def stretch? (d : Data) (p : Places) (i next distance : Nat) (short : Option Nat)
    (longs : List Nat) : Option Stretch :=
  match longs.filter (d.repeats i) with
  | j :: js => some (js.foldl (Stretch.improve d i) ⟨i, j, d.common Data.maxCompared i j⟩)
  | [] =>
    match short.filter (d.repeats i) with
    | none => none
    | some j =>
      let found : Stretch := ⟨i, j, d.common Data.maxCompared i j⟩
      let again := found.improve d (i + 1) (i + 1 - distance)
      if again ≠ found then some again
      else some ((p.longs d next).foldl (Stretch.improve d next) found)

def Stretch.full (d : Data) (s : Stretch) : Stretch :=
  { s with length := d.common d.size s.start s.source }

/-- How many bytes at the front of a stretch may differ from a longer one. -/
def skippedFront : Nat := 2

/-- Tries places where the bytes after the stretch came before. -/
def Stretch.tryEnd (d : Data) (p : Places) (s : Stretch) : Stretch :=
  let start := s.start + skippedFront
  (p.longs d (s.start + s.length)).foldl (fun s j =>
    let source := j + skippedFront - s.length
    if s.length ≤ j + skippedFront ∧ source < start ∧ start < source + Data.maxDistance then
      let length := d.common d.size start source
      if s.length < length then ⟨start, source, length⟩ else s
    else s) s

def extendBack (d : Data) (low : Nat) : Nat → Nat → Nat → Stretch
  | start, 0, length => ⟨start, 0, length⟩
  | start, source + 1, length =>
    if low < start ∧ d[source]? = d[start - 1]? then
      extendBack d low (start - 1) source (length + 1)
    else ⟨start, source + 1, length⟩

def maxCopy : Nat := 258

def minCopy : Nat := 3

/-- A stretch as copies, at most so many. The last one is not too short. -/
def copies (distance : Nat) : Nat → Nat → List Token
  | 0, _ => []
  | n + 1, length =>
    if length = 0 then []
    else
      let taken := if length ≤ maxCopy then length
        else if maxCopy + minCopy < length then maxCopy else maxCopy - minCopy
      .copy taken distance :: copies distance n (length - taken)

/-! ## All together -/

/-- Looks for a stretch from `i` on, up to `limit`. The longer none is found, the larger the
steps. Answers also the place after the one where it was found. -/
def search (d : Data) (limit literals distance : Nat) :
    Nat → Nat → Places → Option (Stretch × Nat) × Places
  | 0, _, p => (none, p)
  | fuel + 1, i, p =>
    let next := i + 1 + (i - literals) / 128
    if limit < next then (none, p)
    else
      let short := p.short? d i
      let longs := p.longs d i
      let p := p.add d i
      match stretch? d p i next distance short longs with
      | some s => (some (s, next), p.add d next)
      | none => search d limit literals distance fuel next p

def margin : Nat := 11

def literalTokens (d : Data) (first last : Nat) : List Token :=
  (d.extract first last).toList.map .literal

/-- The tokens from `literals` on, with copies from `i` on; the latest tokens come first. -/
def tokensFrom (d : Data) : Nat → Nat → Nat → Nat → Places → List Token → List Token × Nat
  | 0, _, literals, _, _, done => (done, literals)
  | fuel + 1, i, literals, distance, p, done =>
    let limit := d.size - margin
    match search d limit literals distance d.size i p with
    | (none, _) => (done, literals)
    | (some (s, next), p) =>
      let s := s.full d
      let s := if s.start + s.length < limit then s.tryEnd d p else s
      let s := extendBack d literals s.start s.source s.length
      let distance := s.start - s.source
      let done := (copies distance s.length s.length).reverse ++
        (literalTokens d literals s.start).reverse ++ done
      let literals := s.start + s.length
      let i := max literals (next + 1)
      if limit ≤ i then (done, literals)
      else tokensFrom d fuel i literals distance (p.addRange d (next + 1) i) done

def tokens (d : Data) : List Token :=
  if d.size ≤ margin + 1 then []
  else
    match tokensFrom d d.size 0 0 1 {} [] with
    | ([], _) => []
    | (done, literals) => done.reverse ++ literalTokens d literals d.size

end ShaderGraph.Deflate
