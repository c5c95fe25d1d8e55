import Patchbay.Builtin.Category

/-!
# Comparison and selection

These operators take the longest length among their inputs. Where a shorter vector has ended, a
comparison reads zero, and a selection reads a true condition and zero cells.
-/

namespace Patchbay.Builtin

variable [Platform]

def widest (q : Query) : Nat := q.legs.foldl (fun n leg => max n leg.length) 1

/-- Takes each cell of `a` where the condition holds and of `b` elsewhere. -/
def select (condition a b : Cells) : Cells :=
  let n := max a.length b.length
  (((fit condition (.ofBoolean true) n).zip ((fit a .zero n).zip (fit b .zero n)))).map
    fun (c, x, y) => if c.boolean then x else y

def selectKernel : Kernel :=
  { length := fun q => .ok (widest q)
    fill := fun _ _ legs out => pour (select (legs.leg 0) (legs.leg 1) (legs.leg 2)) out }

def compareKernel (holds : Decimal → Decimal → Bool) : Kernel :=
  { length := fun q => .ok (widest q)
    fill := fun _ _ legs out =>
      List.zipWith (fun x y => .ofBoolean (holds x.decimal y.decimal))
        (fit (legs.leg 0) .zero out.length) (fit (legs.leg 1) .zero out.length) }

def comparison (number : Nat) (name : String) (holds : Decimal → Decimal → Bool) : Operator :=
  { operator number name .logic (compareKernel holds) [slot "x" .decimal, slot "y" .decimal] with
    output := .fixed .boolean }

def logic : List Operator :=
  [{ operator 79 "where" .logic selectKernel
      [slot "cond" .boolean, slot "a" .any, slot "b" .any] with
      output := .follows, follow := some 1 },
    comparison 80 "greater" fun x y => y.less x,
    comparison 81 "less" Decimal.less]

end Patchbay.Builtin
