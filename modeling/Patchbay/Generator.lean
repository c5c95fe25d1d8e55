import Patchbay.Host

/-!
# The generator of the program

Noise comes from a counter whose words are mixed. No other module depends on which numbers it draws.
-/

namespace Patchbay.Generator

def mix (z : UInt64) : UInt64 :=
  let z := (z ^^^ (z >>> 30)) * 0xbf58476d1ce4e5b9
  let z := (z ^^^ (z >>> 27)) * 0x94d049bb133111eb
  z ^^^ (z >>> 31)

def next (counter : UInt64) : UInt64 × UInt64 :=
  let counter := counter + 0x9e3779b97f4a7c15
  (mix counter, counter)

def unit (counter : UInt64) : Decimal × UInt64 :=
  let (word, counter) := next counter
  (Decimal.nearest (word >>> 11).toNat (1 <<< 53), counter)

def draw (counter : UInt64) (lo hi : Decimal) : Decimal × UInt64 :=
  let (u, counter) := unit counter
  ((lo + (hi - lo) * u).clamp lo hi, counter)

/-- The only hosts of the program are streams, so others carry nothing. -/
instance : Platform where
  Noise := UInt64
  seeded := id
  draw := draw
  Guest := Unit

end Patchbay.Generator
