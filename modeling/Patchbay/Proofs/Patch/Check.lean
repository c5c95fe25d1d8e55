import Patchbay.Generator
import Patchbay.Patch.Check
import Patchbay.Proofs.Graph.Refusals

/-! # What a check of the records leaves to a load

The check looks at the operator and the inputs of every record, and of negative inputs it takes
minus one only. It does not look at the defaults, so a load can still refuse a record for them. All
else that a load refuses after the check shows in the net as a whole.
-/

namespace Patchbay

section
variable [Platform]

namespace Record
variable {r : Record} {catalog : Catalog} {count index : Nat}

def Flawless (r : Record) (catalog : Catalog) (count index : Nat) : Prop :=
  ∃ op, catalog.find? r.operator = some op ∧ r.inputs.length ≤ op.arity ∧
    ∀ i ∈ r.inputs, -1 ≤ i ∧ i < count ∧ i ≠ index

theorem operatorFlaws_eq_nil : r.operatorFlaws catalog index = [] ↔
    ∃ op, catalog.find? r.operator = some op ∧ r.inputs.length ≤ op.arity := by
  unfold operatorFlaws
  cases catalog.find? r.operator with
  | none => exact iff_of_false (fun h => nomatch h) fun ⟨_, h, _⟩ => nomatch h
  | some op => simp

omit [Platform] in
theorem inputFlaws_eq_nil : r.inputFlaws count index = [] ↔
    ∀ i ∈ r.inputs, -1 ≤ i ∧ i < count ∧ i ≠ index := by
  have one (x : Int × Nat) : (if x.1 = index then some (PatchFlaw.readsItself index x.2)
      else if x.1 < -1 ∨ count ≤ x.1 then some (.inputOutOfRange index x.2 x.1 count)
      else none) = none ↔ -1 ≤ x.1 ∧ x.1 < count ∧ x.1 ≠ index := by
    split
    · rename_i own
      exact iff_of_false nofun fun h => h.2.2 own
    split
    · exact iff_of_false nofun (by omega)
    · exact iff_of_true rfl (by omega)
  rw [inputFlaws, List.filterMap_eq_nil_iff,
    ← forall_mem_zipIdx (P := fun i : Int => -1 ≤ i ∧ i < count ∧ i ≠ index)]
  exact forall₂_congr fun x _ => one x

/-- What is wrong with a record that lists more defaults than its operator has slots. -/
def surplus? (r : Record) (catalog : Catalog) : Option RecordFlaw :=
  (catalog.find? r.operator).bind fun op =>
    if op.arity < r.defaults.length then some (.defaults r.defaults.length op.arity) else none

/-- Of a record without a flaw nothing but the defaults is refused. -/
theorem failure?_node (h : r.Flawless catalog count index) :
    failure? (r.node catalog index) = (r.surplus? catalog).map (.invalidRecord index) := by
  obtain ⟨op, known, inputs, -⟩ := h
  unfold Record.node surplus?
  rw [known, Option.bind_some]
  dsimp only
  rw [if_neg (Nat.not_lt.2 inputs)]
  split <;> rfl

end Record

namespace Document
variable {document : Document} {catalog : Catalog}

/-- How a load refuses the first record that lists more defaults than its operator has slots. -/
def surplus? (document : Document) (catalog : Catalog) : Option GraphError :=
  document.zipIdx.findSome? fun (r, index) => (r.surplus? catalog).map (.invalidRecord index)

theorem check_eq_ok_iff : document.check catalog = .ok () ↔
    ∀ (index : Nat) (r : Record), document[index]? = some r →
      r.Flawless catalog document.length index := by
  have flawless : document.check catalog = .ok () ↔ document.flaws catalog = [] := by
    unfold check
    cases document.flaws catalog with
    | nil => exact iff_of_true rfl rfl
    | cons flaw flaws => exact iff_of_false nofun nofun
  rw [flawless, flaws, List.flatMap_eq_nil_iff]
  simp only [List.append_eq_nil_iff, Record.operatorFlaws_eq_nil, Record.inputFlaws_eq_nil,
    Record.Flawless, Prod.forall, List.mem_zipIdx_iff_getElem?, ← exists_and_right, and_assoc]
  exact forall_comm

end Document

namespace Net
variable {document : Document} {catalog : Catalog}

/-- After the check, the first record with too many defaults is refused and no other one. -/
theorem failure?_ofRecords (h : document.check catalog = .ok ()) :
    failure? (ofRecords document catalog) = document.surplus? catalog := by
  rw [Document.check_eq_ok_iff] at h
  have flawless (x : Record × Nat) (hx : x ∈ document.zipIdx) :
      x.1.Flawless catalog document.length x.2 := h x.2 x.1 (List.mem_zipIdx_iff_getElem?.1 hx)
  have inside : ∀ x ∈ document.zipIdx, ∀ i ∈ x.1.inputs,
      Record.InRange document.length x.2 i := by
    intro x hx i hi
    obtain ⟨-, -, -, range⟩ := flawless x hx
    exact .inr (range i hi).2
  have nodes : failure? (document.zipIdx.mapM fun (r, index) => r.node catalog index) =
      document.surplus? catalog := by
    rw [failure?_mapM]
    exact findSome?_congr fun x hx => Record.failure?_node (flawless x hx)
  rw [← nodes]
  unfold ofRecords
  cases document.zipIdx.mapM fun (r, index) => r.node catalog index with
  | error cause => rfl
  | ok nodes =>
    dsimp only [bind, Except.bind]
    rw [sources_eq_ok_iff.2 ⟨inside, rfl⟩]
    rfl

end Net

namespace Graph
variable {document : Document} {catalog : Catalog}

/-- After the check of a patch a load refuses the first record that lists more defaults than its
operator has slots. Where there is no such record, the load can only find a cycle, a value that
comes too late, or a producer whose length does not fit or cannot be found. -/
theorem refusal_checked (h : document.check catalog = .ok ()) (id : GraphId) :
    (∀ refusal, document.surplus? catalog = some refusal →
      ofDocument id document catalog = .error refusal) ∧
    (document.surplus? catalog = none → ∀ refusal,
      ofDocument id document catalog = .error refusal → refusal.stage? = some .cycles ∨
        refusal.stage? = some .timing ∨ refusal.stage? = some .lengths) := by
  simp only [ofDocument_eq_error_iff, ← Net.failure?_ofRecords h]
  constructor
  · intro refusal refused
    exact Net.ofDocument_eq_error_iff.2 (.inl (failure?_eq_some.1 refused))
  · intro read refusal refused
    rcases Net.refusal_cases refused with unread | ⟨bare, -, cycle⟩ | rest
    · rw [failure?_eq_some.2 unread] at read
      cases read
    · exact .inl (Net.stage?_of_checkAcyclic cycle)
    · exact .inr rest

end Graph

end

namespace Graph

def crowded : Document := [⟨.builtin 51, [1], [], .empty, 0⟩, ⟨.builtin 13, [], [1], .empty, 0⟩]

/-- The check lets the default pass, and the load refuses it; a cycle is left to the load. -/
theorem refusal_checked_crowded :
    crowded.check Builtin.catalog = .ok () ∧
      ofDocument 0 crowded Builtin.catalog = .error (.invalidRecord 1 (.defaults 1 0)) ∧
      (roundings [1, 0]).check Builtin.catalog = .ok () ∧
      ∀ refusal, ofDocument 0 (roundings [1, 0]) Builtin.catalog = .error refusal →
        refusal.stage? = some .cycles ∨ refusal.stage? = some .timing ∨
          refusal.stage? = some .lengths := by
  have crowdedChecked : crowded.check Builtin.catalog = .ok () := by decide +kernel
  have checked : (roundings [1, 0]).check Builtin.catalog = .ok () := by decide +kernel
  refine ⟨crowdedChecked, (refusal_checked crowdedChecked 0).1 _ ?_, checked,
    (refusal_checked checked 0).2 ?_⟩
  · decide +kernel
  · decide +kernel

/-- The check of a single list of literals finds no flaw, yet its record is refused. -/
theorem not_refusal_checked :
    Document.check [⟨.builtin 13, [], [1], .empty, 0⟩] Builtin.catalog = .ok () ∧
      ofDocument 0 [⟨.builtin 13, [], [1], .empty, 0⟩] Builtin.catalog =
        .error (.invalidRecord 0 (.defaults 1 0)) :=
  ⟨by decide +kernel, failure?_eq_some.1 (by cbv)⟩

end Graph
end Patchbay
