/-!
# Hashes of names

A 64-bit hash of a byte string from a seed, in blocks of eight bytes read with the least
significant byte first. A last shorter block is filled up with zero bytes.
-/

namespace ShaderGraph.Glsl

def stir (x : UInt64) : UInt64 :=
  let x := (x ^^^ (x >>> 30)) * 0xbf58476d1ce4e5b9
  let x := (x ^^^ (x >>> 27)) * 0x94d049bb133111eb
  x ^^^ (x >>> 31)

/-- A word from bytes, the least significant first. -/
def wordOf : List UInt8 → UInt64
  | [] => 0
  | b :: bs => b.toUInt64 ||| (wordOf bs <<< 8)

def hashBytes : List UInt8 → UInt64 → UInt64
  | a :: b :: c :: d :: e :: f :: g :: h :: rest, seed =>
    hashBytes rest (stir (seed ^^^ wordOf [a, b, c, d, e, f, g, h]))
  | [], seed => seed
  | tail, seed => stir (seed ^^^ wordOf tail)

def hashText (s : String) (seed : UInt64) : UInt64 := hashBytes s.toUTF8.toList seed

end ShaderGraph.Glsl
