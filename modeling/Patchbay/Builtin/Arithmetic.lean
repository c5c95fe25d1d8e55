import Patchbay.Builtin.Category

/-!
# Arithmetic

Binary operators combine two vectors in one of three modes. Padding takes the longer length and lets
the operator decide what the rest of the longer vector contributes; truncation takes the shorter
length; the outer mode takes every pair, the cells of the second vector next to each other.
-/

namespace Patchbay

variable [Platform]

/-- How a binary operator combines vectors of different lengths. -/
inductive Broadcast where
  | pad
  | truncate
  | outer
deriving DecidableEq, Inhabited

namespace Broadcast

def code : Broadcast → Decimal
  | pad => 0
  | truncate => 1
  | outer => 2

def ofConfig (c : Config) : Except Fault Broadcast :=
  match c.number? "op_mode" with
  | none => .ok pad
  | some m =>
    if m.sameValue 0 then .ok pad
    else if m.sameValue 1 then .ok truncate
    else if m.sameValue 2 then .ok outer
    else .error (.invalidConfig (.unknownMode m))

def length : Broadcast → Nat → Nat → Nat
  | pad, x, y => max x y
  | truncate, x, y => min x y
  | outer, x, y => x * y

end Broadcast

/-- An operation on two decimals, and what a cell contributes that has no partner. -/
structure Binary where
  op : Decimal → Decimal → Decimal
  aloneLeft : Decimal → Decimal
  aloneRight : Decimal → Decimal

namespace Binary

variable (b : Binary)

def add : Binary := ⟨(· + ·), id, id⟩

def subtract : Binary := ⟨(· - ·), id, (- ·)⟩

def multiply : Binary := ⟨(· * ·), id, id⟩

/-- Division gives zero where the divisor is zero, and where there is no dividend. -/
def divide : Binary := ⟨fun x y => if y.isZero then 0 else x / y, id, fun _ => 0⟩

def cell (x y : Cell) : Cell := .ofDecimal (b.op x.decimal y.decimal)

/-- Pairs as far as both reach, then the rest of the longer vector. -/
def padded (x y : Cells) : Cells :=
  List.zipWith b.cell x y ++
    (x.drop y.length).map (fun c => .ofDecimal (b.aloneLeft c.decimal)) ++
    (y.drop x.length).map (fun c => .ofDecimal (b.aloneRight c.decimal))

def product (x y : Cells) : Cells := x.flatMap fun a => y.map (b.cell a)

/-- Fills a buffer. Truncation is padding into a shorter buffer. -/
def fill (mode : Broadcast) (x y out : Cells) : Cells :=
  match mode with
  | .outer => pour (b.product x y) out
  | _ => fit (b.padded x y) .zero out.length

omit [Platform] in
theorem length_fill (mode : Broadcast) (x y out : Cells) :
    (b.fill mode x y out).length = out.length := by
  cases mode <;> simp [fill]

def kernel : Kernel :=
  { length := fun q => (Broadcast.ofConfig q.config).map fun m => m.length (q.length 0) (q.length 1)
    fill := fun config _ legs out =>
      b.fill ((Broadcast.ofConfig config).toOption.getD .pad) (legs.leg 0) (legs.leg 1) out
    length_fill := fun _ _ _ _ => b.length_fill _ _ _ _ }

end Binary

namespace Builtin

def binary (number : Nat) (name : String) (b : Binary) : Operator :=
  operator number name .arithmetic b.kernel [slot "x" .decimal, slot "y" .decimal]

def mapKernel (f : Decimal → Cell) : Kernel :=
  { length := fun q => .ok (q.length 0)
    fill := fun _ _ legs out => pour ((legs.leg 0).map fun c => f c.decimal) out }

def unary (number : Nat) (name : String) (f : Decimal → Cell) : Operator :=
  operator number name .arithmetic (mapKernel f) [slot "x" .decimal]

/-- Blends two vectors cell by cell with one weight between zero and one. -/
def blend (weight : Decimal) (a b : Cells) : Cells :=
  let t := weight.clamp 0 1
  List.zipWith (fun x y => .ofDecimal (x.decimal * (1 - t) + y.decimal * t)) a b

/-- Blending needs both vectors attached and takes the longer length, zero where one has ended. -/
def blendKernel : Kernel :=
  { length := fun q =>
      let legs := (q.isAttached 0).toNat + (q.isAttached 1).toNat
      if legs < 2 then .error (.missingLegs 2 legs) else .ok (max (q.length 0) (q.length 1))
    fill := fun _ _ legs out =>
      fit (blend (legs.scalar 2) (legs.leg 0) (legs.leg 1)) .zero out.length }

def arithmetic : List Operator :=
  [binary 4 "add" .add,
    binary 5 "subtract" .subtract,
    binary 6 "multiply" .multiply,
    binary 7 "divide" .divide,
    unary 8 "sin" fun x => .ofDecimal x.sin,
    { unary 50 "round toward zero" fun x => .ofInteger x.toInt64 with output := .fixed .integer },
    unary 51 "floor" fun x => .ofDecimal x.floor,
    operator 17 "lerp" .arithmetic blendKernel
      [slot "a" .decimal, slot "b" .decimal, scalarSlot "s" .decimal .zero]]

end Builtin
end Patchbay
