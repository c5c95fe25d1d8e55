import Patchbay.Proofs.Net.WellFormed

/-! # The order of inputs

The inputs of a net stand in the order of their placements, and those of one placement in the order
of their handles. So their order can be told from the handles and the placements alone.
-/

namespace Patchbay

variable [Platform]

namespace Net
variable {net : Net} {n : NodeId} {op : Operator}

def placementOf (net : Net) (n : NodeId) : Int := (net.node? n).elim 0 (·.placement)

theorem placementOf_eq {node : Node} (h : net.node? n = some node) :
    net.placementOf n = node.placement := by
  rw [placementOf, h]
  rfl

theorem inputs_eq_mergeSort (net : Net) : net.inputs =
    (net.ids.filter fun n => (net.operator? n).any Operator.isInput).mergeSort
      fun a b => net.placementOf a ≤ net.placementOf b := by
  have found (x : NodeId × Node) (hx : x ∈ net.live) : net.node? x.1 = some x.2 := mem_live.1 hx
  have chosen : (net.ids.filter fun n => (net.operator? n).any Operator.isInput) =
      (net.live.filter (·.2.operator.isInput)).map (·.1) := by
    rw [ids, List.filter_map]
    congr 1
    refine List.filter_congr fun x hx => ?_
    rw [Function.comp_apply, operator?, found x hx]
    rfl
  rw [inputs, chosen]
  refine List.map_mergeSort fun a ha b hb => ?_
  rw [placementOf_eq (found a (List.mem_filter.1 ha).1),
    placementOf_eq (found b (List.mem_filter.1 hb).1)]

theorem mem_inputs : n ∈ net.inputs ↔ ∃ op, net.operator? n = some op ∧ op.isInput = true := by
  rw [inputs_eq_mergeSort, List.mem_mergeSort, List.mem_filter, mem_ids, Option.any_eq_true,
    and_iff_right_of_imp]
  exact fun ⟨_, ho, _⟩ => contains_of_operator? ho

theorem nodup_inputs (net : Net) : net.inputs.Nodup := by
  rw [inputs_eq_mergeSort, (List.mergeSort_perm _ _).nodup_iff]
  exact (nodup_ids net).filter _

theorem inputs_eq {l : List NodeId}
    (mem : ∀ m, m ∈ l ↔ ∃ op, net.operator? m = some op ∧ op.isInput = true)
    (ordered : l.Pairwise fun a b => net.placementOf a < net.placementOf b) : net.inputs = l := by
  have distinct : (l.map net.placementOf).Nodup :=
    List.pairwise_map.2 (ordered.imp fun h => Int.ne_of_lt h)
  have sorted : net.inputs.Pairwise fun a b => net.placementOf a ≤ net.placementOf b := by
    rw [inputs_eq_mergeSort]
    refine (List.pairwise_mergeSort (fun a b c hab hbc => ?_) (fun a b => ?_) _).imp
      of_decide_eq_true
    · simp only [decide_eq_true_eq] at *
      omega
    · simp only [Bool.or_eq_true, decide_eq_true_eq]
      omega
  refine List.Perm.eq_of_pairwise (fun a b ha hb hab hba => ?_) sorted
    (ordered.imp Int.le_of_lt) ?_
  · exact List.inj_on_of_nodup_map distinct ((mem a).2 (mem_inputs.1 ha)) hb
      (Int.le_antisymm hab hba)
  · rw [List.perm_ext_iff_of_nodup net.nodup_inputs (List.Nodup.of_map _ distinct)]
    exact fun m => mem_inputs.trans (mem m).symm

end Net
end Patchbay
