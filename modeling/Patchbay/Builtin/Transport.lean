import Patchbay.Builtin.Category

/-!
# Reading the running stream

These operators run in every block. Without a stream they write a neutral value of the same length.
-/

namespace Patchbay.Builtin

variable [Platform]

def streamKernel (neutral : Cell) (f : Stream → Cell) : Kernel :=
  { length := fun _ => .ok 1
    fill := fun _ host _ out => List.replicate out.length (host.stream?.elim neutral f) }

/-- Noise between two bounds; without a stream the first bound. -/
def noiseKernel : Kernel :=
  { length := fun q => countLength q 2
    fill := fun _ host legs out =>
      let (a, b) := (legs.scalar 0, legs.scalar 1)
      match host.stream? with
      | some s => fit ((s.noise.draws a b out.length).1.map .ofDecimal) .zero out.length
      | none => List.replicate out.length (.ofDecimal a)
    effect := fun _ legs count s =>
      { s with noise := (s.noise.draws (legs.scalar 0) (legs.scalar 1) count).2 }
    length_fill := fun _ host _ _ => by cases host.stream? <;> simp }

def notesKernel : Kernel :=
  { length := fun _ => .ok noteCount
    fill := fun _ host _ out =>
      match host.stream? with
      | some s => pour (s.held.toList.map .ofBoolean) out
      | none => List.replicate out.length .zero
    length_fill := fun _ host _ _ => by cases host.stream? <;> simp }

def transport : List Operator :=
  [{ operator 110 "current sample number" .host
      (streamKernel .zero fun s => .ofInteger s.frame.toInt64) [] with
      output := .fixed .integer, live := true },
    { operator 111 "sample rate" .host (streamKernel .zero fun s => .ofDecimal s.sampleRate) [] with
      live := true },
    { operator 105 "white noise" .host noiseKernel
      [scalarSlot "a" .decimal .zero, scalarSlot "b" .decimal (.ofDecimal 1), countSlot "n"] with
      live := true },
    { operator 34 "note on" .host notesKernel [] with
      output := .fixed .boolean, live := true }]

end Patchbay.Builtin
