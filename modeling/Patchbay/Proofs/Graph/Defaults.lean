import Patchbay.Generator
import Patchbay.Proofs.Graph.Literals
import Patchbay.Proofs.Graph.Reloadable

/-! # Defaults that are saved and loaded

A default is saved as a literal, so what an open slot reads after a load is the cell that this
literal stands for. It is the cell that was set where a literal stands for that cell, and another
one everywhere else.
-/

namespace Patchbay
open Relation

section
variable [Platform]

namespace Net
variable {net net' : Net} {catalog : Catalog} {n : NodeId} {slot : Nat} {s : Slot} {inlet : Inlet}

/-- A slot of a loaded net reads the literal of what the slot of the saved net reads. -/
theorem inlet?_ofDocument (hw : net.Wired)
    (held : ∀ n op, net.operator? n = some op → catalog.find? op.id = some op)
    (h : Net.ofDocument net.document catalog = .ok net')
    (hs : net.slot? n slot = some s) (hi : net.inlet? n slot = some inlet) :
    ∃ inlet', net'.inlet? (net.ids.idxOf n) slot = some inlet' ∧
      inlet'.default = .ofLiteral (inlet.default.literal s.kind) s.kind := by
  obtain ⟨bare, hr, _, _, _, rfl⟩ := ofDocument_eq_ok h
  obtain ⟨node, hn, hi⟩ := Option.bind_eq_some_iff.1 hi
  rw [slot?, operator?, hn, Option.map_some, Option.bind_some] at hs
  obtain ⟨loaded, hl, defaults⟩ :=
    Option.map_eq_some_iff.1 (defaults_ofRecords hw held hr hn)
  have rounded : (node.rounded.inlets.map (·.default))[slot]? =
      some (.ofLiteral (inlet.default.literal s.kind) s.kind) := by
    rw [List.getElem?_map, Node.rounded, List.getElem?_zipWith, hs, hi]
    rfl
  rw [← defaults, List.getElem?_map] at rounded
  obtain ⟨inlet', hi', default⟩ := Option.map_eq_some_iff.1 rounded
  refine ⟨inlet', ?_, default⟩
  rw [inlet?, resolve, withKinds, node?_mapIdx, hl]
  exact hi'

theorem exists_ofDocument_of_edges (hw : net.Wired)
    (held : ∀ n op, net.operator? n = some op → catalog.find? op.id = some op)
    (none : net.edges = []) : ∃ net', Net.ofDocument net.document catalog = .ok net' := by
  have apart (p c : NodeId) : ¬net.Feeds p c := by
    rintro ⟨slot, hs⟩
    have mem : ⟨p, c, slot⟩ ∈ net.edges := mem_edges.2 hs
    rw [none] at mem
    cases mem
  refine (exists_ofDocument_iff hw held).2 ⟨fun n hn => ?_, fun c slot p hs => ?_, ?_⟩
  · obtain ⟨c, hc, -⟩ := TransGen.head'_iff.1 hn
    exact apart n c hc
  · exact absurd ⟨slot, hs⟩ (apart p c)
  · intro c slot p hs
    have feeds : net.rounded.resolve.Feeds p c := ⟨slot, hs⟩
    rw [((sameWiring_rounded hw).trans (sameWiring_resolve _)).feeds] at feeds
    exact absurd feeds (apart p c)

end Net

namespace Graph
variable {placed : Operator → Prop} {g g' : Graph} {catalog : Catalog} {id : GraphId} {n : NodeId}
  {slot : Nat} {s : Slot} {inlet : Inlet}

theorem inlet?_setDefault {value : Cell} (h : g.setDefault n slot value = .ok g') :
    ∃ inlet, g'.net.inlet? n slot = some inlet ∧ inlet.default = value := by
  unfold setDefault at h
  split at h
  · cases h
  rename_i node hn
  split at h
  · rename_i bound
    unfold adjust at h
    split at h
    · cases h
      refine ⟨{ node.inlets[slot] with default := value }, ?_, rfl⟩
      rw [withNet, Net.inlet?, Net.node?_modify, if_pos rfl, hn]
      simp [bound]
    · cases h
  · cases h

/-- When a graph with a history is saved and loaded again, with a catalog that holds its operators,
a slot reads the literal of what it read before. That is the same cell, bit by bit, exactly when a
literal of the kind of the slot stands for it. -/
theorem default_reloaded_iff (hg : g.Reachable placed)
    (held : ∀ n op, g.net.operator? n = some op → catalog.find? op.id = some op)
    (h : ofDocument id g.net.document catalog = .ok g')
    (hs : g.net.slot? n slot = some s) (hi : g.net.inlet? n slot = some inlet) :
    ∃ inlet', g'.net.inlet? (g.net.ids.idxOf n) slot = some inlet' ∧
      inlet'.default = .ofLiteral (inlet.default.literal s.kind) s.kind ∧
      (inlet'.default = inlet.default ↔ inlet.default.Exact s.kind) := by
  obtain ⟨net', hn, rfl⟩ := ofDocument_eq_ok h
  obtain ⟨inlet', hi', default⟩ := Net.inlet?_ofDocument hg.wellFormed.toWired held hn hs hi
  exact ⟨inlet', hi', default, by rw [default, Cell.ofLiteral_literal_iff]⟩

end Graph

end

namespace Graph

def counting (count : Int64) : Option Graph :=
  (assembled [44] []).bind fun g => (g.setDefault 0 1 (.ofInteger count)).toOption

theorem exists_reloaded_counting (count : Int64) : ∃ (g g' : Graph) (s : Slot) (inlet : Inlet),
    counting count = some g ∧ g.Reachable (· ∈ Builtin.catalog.operators) ∧
      ofDocument 1 g.net.document Builtin.catalog = .ok g' ∧ g.net.ids = [0] ∧
      g.net.slot? 0 1 = some s ∧ s.kind = .integer ∧ g.net.inlet? 0 1 = some inlet ∧
      inlet.default = .ofInteger count := by
  have computed : (counting count).any (fun g => g.net.ids == [0] && g.net.edges == [] &&
      (g.net.slot? 0 1).map (·.kind) == some .integer) = true := by cbv
  obtain ⟨g, hg, hr⟩ := (Option.any_eq_true _ _).1 computed
  simp only [Bool.and_eq_true, beq_iff_eq, Option.map_eq_some_iff] at hr
  obtain ⟨⟨ids, edges⟩, s, hs, kind⟩ := hr
  obtain ⟨whole, hw, set⟩ := Option.bind_eq_some_iff.1 hg
  rw [toOption_eq_some] at set
  have reachable := (reachable_assembled hw).step (.setDefault set)
  obtain ⟨inlet, hi, default⟩ := inlet?_setDefault set
  obtain ⟨g', loaded⟩ := loads_iff.2 (Net.exists_ofDocument_of_edges reachable.wellFormed.toWired
    (fun n op ho => Builtin.find?_catalog (reachable.operator_placed ho)) edges)
  exact ⟨g, g', s, inlet, hg, reachable, loaded, ids, hs, kind, hi, default⟩

/-- The greatest integer comes back, although no decimal holds it. -/
theorem default_reloaded_greatest : ∃ (g g' : Graph) (inlet inlet' : Inlet),
    counting Int64.maxValue = some g ∧ ofDocument 1 g.net.document Builtin.catalog = .ok g' ∧
      g.net.inlet? 0 1 = some inlet ∧ inlet.default = .ofInteger Int64.maxValue ∧
      g'.net.inlet? 0 1 = some inlet' ∧ inlet'.default = inlet.default := by
  obtain ⟨g, g', s, inlet, hg, reachable, loaded, ids, hs, kind, hi, default⟩ :=
    exists_reloaded_counting Int64.maxValue
  obtain ⟨inlet', hi', -, same⟩ := default_reloaded_iff reachable
    (fun n op ho => Builtin.find?_catalog (reachable.operator_placed ho)) loaded hs hi
  rw [ids] at hi'
  refine ⟨g, g', inlet, inlet', hg, loaded, hi, default, hi', same.2 ?_⟩
  rw [kind, default]
  exact .inl rfl

/-- An odd integer of 54 binary digits comes back as the even one below it. -/
theorem not_default_reloaded_odd : ∃ (g g' : Graph) (inlet inlet' : Inlet),
    counting 9007199254740993 = some g ∧ g.Reachable (· ∈ Builtin.catalog.operators) ∧
      (∀ n op, g.net.operator? n = some op → Builtin.catalog.find? op.id = some op) ∧
      ofDocument 1 g.net.document Builtin.catalog = .ok g' ∧
      g.net.inlet? 0 1 = some inlet ∧ inlet.default = .ofInteger 9007199254740993 ∧
      g'.net.inlet? 0 1 = some inlet' ∧ inlet'.default = .ofInteger 9007199254740992 := by
  obtain ⟨g, g', s, inlet, hg, reachable, loaded, ids, hs, kind, hi, default⟩ :=
    exists_reloaded_counting 9007199254740993
  have held (n : NodeId) (op : Operator) (ho : g.net.operator? n = some op) :=
    Builtin.find?_catalog (reachable.operator_placed ho)
  obtain ⟨net', hn, rfl⟩ := ofDocument_eq_ok loaded
  obtain ⟨inlet', hi', literal⟩ :=
    Net.inlet?_ofDocument reachable.wellFormed.toWired held hn hs hi
  rw [ids] at hi'
  refine ⟨g, _, inlet, inlet', hg, reachable, held, loaded, hi, default, hi', ?_⟩
  rw [literal, kind, default]
  decide +kernel

end Graph
end Patchbay
