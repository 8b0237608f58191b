/-!
# Words

Signed words of 64 bits, in which sizes and settings are counted.
-/

namespace ShaderGraph.Word

def count : Nat := 18446744073709551616

def limit : Nat := 9223372036854775808

def wrap (n : Int) : Int := Int.bmod n count

/-- The greatest number of bytes that can be asked for at once. -/
def maxBytes : Int := 281474976710656

end ShaderGraph.Word
