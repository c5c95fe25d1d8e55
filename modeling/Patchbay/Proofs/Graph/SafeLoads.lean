import Patchbay.Generator
import Patchbay.Proofs.Graph.Early
import Patchbay.Proofs.Graph.GuardedLoading
import Patchbay.Proofs.Graph.Kinds
import Patchbay.Proofs.Graph.Records

/-! # What a load lets through

The edges of a loaded net are those that the records name, so a document with a cycle is never
loaded. All else that edits keep step by step holds of a loaded net at once.
-/

namespace Patchbay
open Relation

section
variable [Platform]

def Document.Feeds (document : Document) (p c : NodeId) : Prop :=
  ∃ (r : Record) (slot : Nat), document[c]? = some r ∧ r.inputs[slot]? = some (p : Int)

omit [Platform] in
theorem Document.feeds_iff {document : Document} {p c : NodeId} :
    document.Feeds p c ↔ ∃ slot, document.source? c slot = some p := by
  simp only [Feeds, source?, Option.bind_eq_some_iff, Record.named_eq_some_iff]
  constructor
  · rintro ⟨r, slot, hr, hp⟩
    exact ⟨slot, p, ⟨r, hr, hp⟩, rfl⟩
  · rintro ⟨slot, i, ⟨r, hr, hp⟩, rfl⟩
    exact ⟨r, slot, hr, hp⟩

namespace Net
variable {net : Net} {document : Document} {catalog : Catalog} {p c : NodeId}

theorem feeds_ofRecords (h : ofRecords document catalog = .ok net) :
    net.Feeds p c ↔ document.Feeds p c := by
  simp only [Document.feeds_iff, Feeds, source?_ofRecords h]

theorem feeds_ofDocument (h : Net.ofDocument document catalog = .ok net) :
    net.Feeds p c ↔ document.Feeds p c := by
  obtain ⟨bare, hr, -, -, -, rfl⟩ := ofDocument_eq_ok h
  rw [(sameWiring_resolve _).feeds, feeds_ofRecords hr]

end Net

namespace Graph
variable {allowed : Operator → Prop} {depth : Nat} {catalog : Catalog}

/-- With a catalog whose inputs have no slots and need not run in every block, whatever the document
is: a load ends without an index out of range or a count below zero, at every depth. It takes no
document with a cycle. In what it takes, attached slots of fixed length have producers of that
length, producers of which an early value is demanded are known, both ends of every edge agree, and
the stored kinds are those that settling them anew gives. -/
theorem ofDocument_safe (built : ∀ op ∈ catalog.operators, Operator.Built allowed depth op)
    (inputs : ∀ op ∈ catalog.operators, op.isInput = true → op.slots = [] ∧ op.live = false)
    (id : GraphId) (document : Document) :
    ofDocumentGuarded id document catalog = .of (ofDocument id document catalog) ∧
    ((∃ n, TransGen document.Feeds n n) → ∀ g, ofDocument id document catalog ≠ .ok g) ∧
    ∀ g, ofDocument id document catalog = .ok g →
      g.net.Measured ∧
      (∀ c slot p, g.net.source? c slot = some p → g.net.Urgent c slot →
        g.net.isKnown p = true) ∧
      (∀ (p : NodeId) (q : Port),
        q ∈ g.net.outlets p ↔ g.net.source? q.node q.slot = some p) ∧
      g.net.resolve = g.net := by
  refine ⟨?_, ?_, ?_⟩
  · rw [ofDocumentGuarded, Net.ofDocumentGuarded_eq built, ofDocument]
    cases Net.ofDocument document catalog <;> rfl
  · rintro ⟨n, cycle⟩ g hg
    obtain ⟨net, hn, rfl⟩ := ofDocument_eq_ok hg
    apply (Net.wellFormed_ofDocument hn).1.acyclic n
    exact TransGen.mono (fun p c => (Net.feeds_ofDocument hn).2) n n cycle
  · intro g hg
    obtain ⟨net, hn, rfl⟩ := ofDocument_eq_ok hg
    obtain ⟨wellFormed, operators⟩ := Net.wellFormed_ofDocument hn
    have rooted : net.Rooted := by
      intro n op ho
      obtain ⟨node, hnode, rfl⟩ := Option.map_eq_some_iff.1 ho
      exact inputs node.operator (operators n node hnode)
    have punctual := Net.punctual_ofDocument hn rooted
    obtain ⟨bare, hr, -, -, measured, rfl⟩ := Net.ofDocument_eq_ok_iff.1 hn
    refine ⟨measured, fun c slot p => punctual.isKnown wellFormed, wellFormed.linked.outlets, ?_⟩
    exact (Net.resolved_resolve (Net.wired_ofRecords hr).1.linked).resolve

end Graph

end

namespace Graph

/-- The count of a repetition is fed early and has its fixed length; two nodes that round each other
are not loaded. -/
theorem ofDocument_safe_counted : (∃ g : Graph,
    ofDocumentGuarded 0 counted Builtin.catalog = .of (.ok g) ∧ g.net.LengthFits 2 1 1 ∧
      g.net.isKnown 1 = true ∧ ⟨2, 1⟩ ∈ g.net.outlets 1 ∧ g.net.resolve = g.net) ∧
    ∀ g, ofDocument 0 [⟨.builtin 51, [1], [], .empty, 0⟩, ⟨.builtin 51, [0], [], .empty, 0⟩]
      Builtin.catalog ≠ .ok g := by
  have built : ∀ op ∈ Builtin.catalog.operators, Operator.Built (fun _ => True) 0 op :=
    fun op hop => ⟨trivial, (Builtin.regular_of_mem (Builtin.mem_operators hop)).2⟩
  have safe := ofDocument_safe built
    (fun op hop => (Builtin.regular_of_mem (Builtin.mem_operators hop)).1.input) 0
  constructor
  · have computed : ((ofDocument 0 counted Builtin.catalog).toOption.any fun g =>
        g.net.source? 2 1 == some 1 && (g.net.slot? 2 1).any (·.compileTime)) = true := by cbv
    obtain ⟨g, hg, hs⟩ := (Option.any_eq_true _ _).1 computed
    simp only [Bool.and_eq_true, beq_iff_eq] at hs
    rw [toOption_eq_some] at hg
    obtain ⟨guarded, -, sound⟩ := safe counted
    obtain ⟨measured, known, ends, resolved⟩ := sound g hg
    exact ⟨g, hg ▸ guarded, measured 2 1 1 hs.1, known 2 1 1 hs.1 (.inl hs.2),
      (ends 1 ⟨2, 1⟩).2 hs.1, resolved⟩
  · refine (safe _).2.1 ⟨0, .head (b := 1) ?_ (.single ?_)⟩
    · exact ⟨_, 0, rfl, rfl⟩
    · exact ⟨_, 0, rfl, rfl⟩

end Graph
end Patchbay
