import Patchbay.Cell

/-!
# Hosts

A host is what runs a plan block by block. Operators that read the running stream ask it for the
position, the rate, the held notes and noise. While a plan is being made there is no host. Where the
noise comes from, and which hosts there are besides streams, is left to the platform.
-/

namespace Patchbay

/-- What plans run on: a generator of noise, and hosts that built-in operators cannot read. -/
class Platform where
  /-- The states of the generator. -/
  Noise : Type
  seeded : UInt64 → Noise
  /-- Draws between two ends that are finite and differ, the lower one first. -/
  draw : Noise → Decimal → Decimal → Decimal × Noise
  /-- The states of the other hosts. -/
  Guest : Type

variable [Platform]

abbrev Noise := Platform.Noise

namespace Noise

/-- A decimal of the closed interval between `a` and `b`. An interval of one point, or one without
finite ends, gives its lower end and draws nothing. -/
def uniform (n : Noise) (a b : Decimal) : Decimal × Noise :=
  let (lo, hi) := if a.atMost b then (a, b) else (b, a)
  if lo.sameValue hi || !lo.isFinite || !hi.isFinite then (lo, n) else Platform.draw n lo hi

def draws (n : Noise) (a b : Decimal) (count : Nat) : List Decimal × Noise :=
  let (xs, n) := count.fold (fun _ _ (xs, n) =>
    let (x, n) := n.uniform a b
    (x :: xs, n)) ([], n)
  (xs.reverse, n)

end Noise

def noteCount : Nat := 128

/-- A running stream between two blocks. -/
structure Stream where
  sampleRate : Decimal
  /-- Index of the first frame of the next block. -/
  frame : UInt64
  held : Vector Bool noteCount
  noise : Noise

namespace Stream

def start (sampleRate : Decimal) (seed : UInt64) : Stream :=
  ⟨sampleRate, 0, Vector.replicate noteCount false, Platform.seeded seed⟩

def advance (s : Stream) (frames : Nat) : Stream :=
  { s with frame := s.frame + UInt64.ofNat frames }

/-- Marks a note as held or released; a note out of range is ignored. -/
def setNote (s : Stream) (note : Nat) (on : Bool) : Stream :=
  { s with held := s.held.setIfInBounds note on }

def isHeld (s : Stream) (note : Nat) : Bool := s.held[note]?.getD false

end Stream

/-- Who runs a block: nobody yet, a stream, or a host of another type. -/
inductive Host where
  | detached
  | stream (stream : Stream)
  | foreign (guest : Platform.Guest)

namespace Host

def stream? : Host → Option Stream
  | stream s => some s
  | _ => none

def update (f : Stream → Stream) : Host → Host
  | stream s => stream (f s)
  | h => h

end Host
end Patchbay
