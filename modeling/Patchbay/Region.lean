import Patchbay.Cell

/-!
# Regions of a buffer

A region is a run of cells in a flat buffer. Reading one and writing one are the only ways in which
a plan touches its buffer. Cells of another length are poured into a buffer or fitted to it.
-/

namespace Patchbay

/-- The cells from `offset` on, `length` of them. -/
structure Region where
  offset : Nat
  length : Nat
deriving DecidableEq, Repr, Inhabited

/-- Replaces the common start of `out` by the cells of `source`, keeping the length of `out`. -/
def pour (source out : Cells) : Cells := source.take out.length ++ out.drop source.length

@[simp] theorem length_pour (source out : Cells) : (pour source out).length = out.length := by
  simp only [pour, List.length_append, List.length_take, List.length_drop]
  omega

def fit (source : Cells) (filler : Cell) (length : Nat) : Cells :=
  source.take length ++ List.replicate (length - source.length) filler

@[simp] theorem length_fit (source : Cells) (filler : Cell) (length : Nat) :
    (fit source filler length).length = length := by
  simp only [fit, List.length_append, List.length_take, List.length_replicate]
  omega

namespace Region

def empty : Region := ⟨0, 0⟩

def stop (r : Region) : Nat := r.offset + r.length

def overlaps (r s : Region) : Bool :=
  0 < r.length && 0 < s.length && r.offset < s.stop && s.offset < r.stop

def read (r : Region) (field : Cells) : Cells := (field.drop r.offset).take r.length

def write (r : Region) (cells field : Cells) : Cells :=
  field.take r.offset ++ cells ++ field.drop r.stop

def text (r : Region) : String := "[" ++ toString r.offset ++ ".." ++ toString r.stop ++ "]"

end Region
end Patchbay
