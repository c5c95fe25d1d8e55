import Patchbay.Builtin.Category
import Patchbay.Text.Blank

/-!
# Endpoints, literals and vectors sized by a count

The input and the output of a graph, literals kept in the configuration of a node, and vectors whose
length is read from a slot that must be known early.
-/

namespace Patchbay.Builtin

variable [Platform]

def passKernel : Kernel :=
  { length := fun q => .ok (q.length 0)
    fill := fun _ _ legs out => pour (legs.leg 0) out }

def literalKernel (f : Decimal → Cell) : Kernel :=
  { length := fun _ => .ok 1
    fill := fun config _ _ out => List.replicate out.length (f (config.numberOr "value" 0)) }

def parseValue (cs : List Char) : Except Fault Decimal :=
  let t := String.ofList cs
  match (Decimal.read? t).filter Decimal.isFinite with
  | some x => .ok x
  | none => .error (.invalidConfig (.notFinite t))

/-- The literals of a node: the property `values`, cut at commas, blank entries dropped. Without
that property there is a single zero. -/
def parseValues (config : Config) : Except Fault (List Decimal) :=
  match config.text? "values" with
  | none => .ok [0]
  | some text =>
    (((cutAt ',' text.toList).map trimBlanks).filter (!·.isEmpty)).mapM parseValue

def literalsKernel : Kernel :=
  { length := fun q => (parseValues q.config).map List.length
    fill := fun config _ _ out =>
      pour (((parseValues config).toOption.getD []).map .ofDecimal) out }

def rangeKernel : Kernel :=
  { length := fun q => countLength q 1
    fill := fun _ _ legs out =>
      (List.range out.length).map fun k =>
        .ofDecimal (legs.scalar 0 + legs.scalar 2 * Decimal.ofNat k) }

def repeatKernel : Kernel :=
  { length := fun q => countLength q 1
    fill := fun _ _ legs out => List.replicate out.length (.ofDecimal (legs.scalar 0)) }

def vector : List Operator :=
  [.input (.builtin 2),
    { operator 1 "output" .io passKernel [slot "audio" .any] with
      output := .follows, follow := some 0 },
    operator 12 "constant decimal" .constants (literalKernel .ofDecimal) [],
    operator 13 "constant decimals" .constants literalsKernel [],
    { operator 14 "constant boolean" .constants (literalKernel (.ofLiteral · .boolean)) [] with
      output := .fixed .boolean },
    operator 43 "range" .vector rangeKernel
      [scalarSlot "start" .decimal .zero, countSlot "step count",
        scalarSlot "step size" .decimal (.ofDecimal 1)],
    operator 44 "repeat" .vector repeatKernel
      [scalarSlot "x" .decimal .zero, countSlot "n"]]

end Patchbay.Builtin
