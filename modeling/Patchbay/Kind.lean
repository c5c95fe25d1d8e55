/-!
# Kinds of cells

A kind says how the 64 bits of a cell are read. The wildcard reads them as they are.
-/

namespace Patchbay

/-- The reading of a slot or of a node's output. -/
inductive Kind where
  | decimal
  | boolean
  | integer
  | any
deriving DecidableEq, Repr, Inhabited

namespace Kind

def name : Kind → String
  | decimal => "decimal"
  | boolean => "boolean"
  | integer => "integer"
  | any => "any"

def concrete (k : Kind) : Bool := k != any

/-- Whether cells written as `k` are converted for a reader that expects `reader`. -/
def converts (k reader : Kind) : Bool := k.concrete && reader.concrete && k != reader

end Kind

/-- What an operator declares about its output: one kind, or the kind of its neighbours. -/
inductive OutputKind where
  | fixed (kind : Kind)
  | follows
deriving DecidableEq, Repr, Inhabited

/-- The declared kind; a following output has none of its own. -/
def OutputKind.fixed? : OutputKind → Option Kind
  | fixed k => some k
  | follows => none

end Patchbay
