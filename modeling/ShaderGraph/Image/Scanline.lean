/-!
# Scanlines

A scanline of an image file is the difference of a row to its neighbours, in one of five ways.
The way with the smallest differences is taken.
-/

namespace ShaderGraph.Scanline

inductive Filter where
  | up
  | paeth
  | none
  | sub
  | average
deriving DecidableEq, Repr

def Filter.all : List Filter := [up, paeth, none, sub, average]

def Filter.tag : Filter → UInt8
  | none => 0
  | sub => 1
  | up => 2
  | average => 3
  | paeth => 4

/-- Which of left, above and their corner is nearest to `left + above - corner`. -/
def nearest (left above corner : UInt8) : UInt8 :=
  let guess : Int := (left.toNat : Int) + above.toNat - corner.toNat
  let distance (b : UInt8) : Nat := (guess - b.toNat).natAbs
  if distance left ≤ distance above ∧ distance left ≤ distance corner then left
  else if distance above ≤ distance corner then above
  else corner

def Filter.expected (f : Filter) (left above corner : UInt8) : UInt8 :=
  match f with
  | none => 0
  | sub => left
  | up => above
  | average => ((left.toNat + above.toNat) / 2).toUInt8
  | paeth => nearest left above corner

/-- The differences of a row to the one above it. Pixels are `size` bytes apart. -/
def differences (f : Filter) (size : Nat) (above row : List UInt8) : List UInt8 :=
  let shifted (bytes : List UInt8) := List.replicate size 0 ++ bytes
  (row.zip ((shifted row).zip (above.zip (shifted above)))).map fun (b, left, up, corner) =>
    b - f.expected left up corner

def cost (bytes : List UInt8) : Nat :=
  bytes.foldl (fun n b => n + if b < 128 then b.toNat else 256 - b.toNat) 0

def choose (size : Nat) (above row : List UInt8) : Filter :=
  let cost (f : Filter) := cost (differences f size above row)
  Filter.all.foldl (fun best f => if cost f < cost best then f else best) .up

def line (size : Nat) (above row : List UInt8) : List UInt8 :=
  let f := choose size above row
  f.tag :: differences f size above row

def lines (size : Nat) : List UInt8 → List (List UInt8) → List UInt8
  | _, [] => []
  | above, row :: rows => line size above row ++ lines size row rows

/-- The scanlines of an image. Above its first row all bytes are zero. -/
def ofRows (size : Nat) (rows : List (List UInt8)) : List UInt8 :=
  lines size ((rows.head?.getD []).map fun _ => 0) rows

end ShaderGraph.Scanline
