import Patchbay.Proofs.Graph.Checks
import Patchbay.Proofs.Plan.GuardedTrials

/-! # Loads that stay in range

A record has no more inputs than its operator has slots, and an edge is made only to a producer that
has a record. So every edge finds its ends, and what is made record by record is the net that the
plain load makes at once. On this net the sorts, the walks and the compiles of the checks stay in
range, whatever the document says.
-/

namespace Patchbay
open Relation

namespace Guarded
variable {ε α β : Type}

theorem of_bind {x : Except ε α} {f : α → Guarded ε β} {g : α → Except ε β}
    (h : ∀ a, x = .ok a → f a = of (g a)) : of x >>= f = of (x >>= g) := by
  cases x with
  | error e => rfl
  | ok a => exact h a rfl

theorem forM_of {l : List α} {f : α → Guarded ε PUnit} {g : α → Except ε PUnit}
    (h : ∀ a ∈ l, f a = of (g a)) : l.forM f = of (l.forM g) := by
  induction l with
  | nil => rfl
  | cons a l ih =>
    rw [List.forall_mem_cons] at h
    have guarded : (a :: l).forM f = f a >>= fun _ => l.forM f := rfl
    have plain : (a :: l).forM g = g a >>= fun _ => l.forM g := rfl
    rw [guarded, plain, h.1]
    exact of_bind fun _ _ => ih h.2

end Guarded

def Record.producer (count index : Nat) : Int × Nat → Except GraphError (Option NodeId)
  | (source, slot) =>
    if source < 0 then .ok none
    else if count ≤ source.toNat ∨ source.toNat = index then
      .error (.invalidRecord index (.reads slot source.toNat))
    else .ok (some source.toNat)

theorem Record.producers_eq (r : Record) (count index : Nat) :
    r.producers count index = r.inputs.zipIdx.mapM (producer count index) := rfl

variable [Platform]

namespace Net
variable {net : Net} {count index : Nat}

/-! ### Edges made one by one -/

theorem install_eq {e : Edge} (there : (net.inlet? e.consumer e.slot).isSome)
    (vacant : net.source? e.consumer e.slot = none) :
    net.install e = some (net.setSource e.consumer e.slot (some e.producer)) := by
  obtain ⟨inlet, hi⟩ := Option.isSome_iff_exists.1 there
  obtain ⟨node, hn, hi⟩ := Option.bind_eq_some_iff.1 hi
  have bound := (List.getElem?_eq_some_iff.1 hi).1
  have guard : (net.node? e.consumer).any (·.inlets.length ≤ e.slot) = false := by
    simp [hn, bound]
  rw [install, guard, setSource, vacant]
  rfl

theorem wireInput_eq {source : Int} {slot : Nat} (there : (net.inlet? index slot).isSome)
    (vacant : net.source? index slot = none) : wireInput count index net (source, slot) =
      .of ((Record.producer count index (source, slot)).map fun p =>
        p.elim net fun p => net.setSource index slot (some p)) := by
  rw [wireInput, Record.producer]
  split
  · rfl
  split
  · rfl
  · rw [install_eq there vacant]
    rfl

def edgesInto (n : NodeId) (slot : Nat) (sources : List (Option NodeId)) : List Edge :=
  (sources.zipIdx slot).filterMap fun (source, slot) => source.map (⟨·, n, slot⟩)

def edgesFrom (n : NodeId) (sources : List (List (Option NodeId))) : List Edge :=
  (sources.zipIdx n).flatMap fun (slots, n) => edgesInto n 0 slots

theorem connect_append (net : Net) (edges edges' : List Edge) :
    net.connect (edges ++ edges') = (net.connect edges).connect edges' :=
  List.foldl_append

theorem inlet?_setSource_isSome {n m : NodeId} {slot s : Nat} {source : Option NodeId} :
    ((net.setSource n slot source).inlet? m s).isSome = (net.inlet? m s).isSome := by
  rw [Bool.eq_iff_iff, inlet?_isSome_iff, frame?_setSource, ← inlet?_isSome_iff]

/-- The open slots of a node are wired one after the other as if all were wired at once. -/
theorem foldlM_wireInput {inputs : List Int} {slot : Nat}
    (there : ∀ s < slot + inputs.length, (net.inlet? index s).isSome)
    (vacant : ∀ s, slot ≤ s → net.source? index s = none) :
    (inputs.zipIdx slot).foldlM (wireInput count index) net =
      .of (((inputs.zipIdx slot).mapM (Record.producer count index)).map fun sources =>
        net.connect (edgesInto index slot sources)) := by
  induction inputs generalizing net slot with
  | nil => rfl
  | cons source inputs ih =>
    have length : slot + 1 + inputs.length = slot + (source :: inputs).length := by
      rw [List.length_cons]
      omega
    have here := there slot (by rw [← length]; omega)
    rw [List.zipIdx_cons, List.foldlM_cons, List.mapM_cons,
      wireInput_eq here (vacant slot (Nat.le_refl _))]
    rw [← length] at there
    cases Record.producer count index (source, slot) with
    | error refusal => rfl
    | ok p =>
      cases p with
      | none =>
        have rest := ih there fun s hs => vacant s (Nat.le_of_succ_le hs)
        simp only [Except.map, Guarded.of_ok_bind, Option.elim_none, rest]
        cases (inputs.zipIdx (slot + 1)).mapM (Record.producer count index) <;> rfl
      | some p =>
        have rest := @ih (net.setSource index slot (some p)) (slot + 1)
          (fun s hs => by rw [inlet?_setSource_isSome]; exact there s hs) (fun s hs => by
            have same := source?_setSource net index slot (some p) ⟨index, s⟩
            rw [if_neg fun he => by cases he; omega] at same
            exact same.trans (vacant s (Nat.le_of_succ_le hs)))
        simp only [Except.map, Guarded.of_ok_bind, Option.elim_some, rest]
        cases (inputs.zipIdx (slot + 1)).mapM (Record.producer count index) <;> rfl

theorem inlet?_connect_isSome {edges : List Edge} {m : NodeId} {s : Nat} :
    ((net.connect edges).inlet? m s).isSome = (net.inlet? m s).isSome := by
  rw [Bool.eq_iff_iff, inlet?_isSome_iff, frame?_connect, ← inlet?_isSome_iff]

omit [Platform] in
theorem consumer_of_mem_edgesInto {n : NodeId} {slot : Nat} {sources : List (Option NodeId)}
    {e : Edge} (he : e ∈ edgesInto n slot sources) : e.consumer = n := by
  obtain ⟨⟨source, s⟩, -, he⟩ := List.mem_filterMap.1 he
  obtain ⟨p, -, rfl⟩ := Option.map_eq_some_iff.1 he
  rfl

/-- The records are wired one after the other as if all were wired at once. -/
theorem foldlM_wire {document : Document} {n : NodeId}
    (there : ∀ x ∈ document.zipIdx n, ∀ s < x.1.inputs.length, (net.inlet? x.2 s).isSome)
    (vacant : ∀ m, n ≤ m → ∀ s, net.source? m s = none) :
    (document.zipIdx n).foldlM (fun net (r, index) =>
      r.inputs.zipIdx.foldlM (wireInput count index) net) net =
      .of (((document.zipIdx n).mapM fun x : Record × Nat => x.1.producers count x.2).map
        fun sources => net.connect (edgesFrom n sources)) := by
  induction document generalizing net n with
  | nil => rfl
  | cons r document ih =>
    rw [List.zipIdx_cons, List.forall_mem_cons] at there
    have first : r.inputs.zipIdx.foldlM (wireInput count n) net =
        .of ((r.producers count n).map fun slots => net.connect (edgesInto n 0 slots)) := by
      rw [Record.producers_eq]
      apply foldlM_wireInput
      · simpa using there.1
      · exact fun s _ => vacant n (Nat.le_refl n) s
    rw [List.zipIdx_cons, List.foldlM_cons, List.mapM_cons]
    dsimp only
    rw [first]
    cases r.producers count n with
    | error refusal => rfl
    | ok slots =>
      have rest := @ih (net.connect (edgesInto n 0 slots)) (n + 1)
        (by simpa only [inlet?_connect_isSome] using there.2) (fun m hm s => by
          rw [← vacant m (Nat.le_of_succ_le hm) s]
          apply source?_connect_of_forall_ne (q := ⟨m, s⟩)
          intro e he hq
          obtain rfl : m = n := (Port.mk.inj hq).1.trans (consumer_of_mem_edgesInto he)
          exact Nat.not_succ_le_self m hm)
      simp only [Except.map, Guarded.of_ok_bind] at rest ⊢
      rw [rest]
      cases (document.zipIdx (n + 1)).mapM fun x : Record × Nat => x.1.producers count x.2 with
      | error refusal => rfl
      | ok sources =>
        have all : edgesFrom n (slots :: sources) =
            edgesInto n 0 slots ++ edgesFrom (n + 1) sources := by
          rw [edgesFrom, List.zipIdx_cons, List.flatMap_cons, edgesFrom]
        change Guarded.of (.ok _) = Guarded.of (.ok (net.connect (edgesFrom n (slots :: sources))))
        rw [all, connect_append]

theorem wire_ofNodes {document : Document} {catalog : Catalog} {nodes : List Node}
    (hn : document.zipIdx.mapM (fun (r, index) => r.node catalog index) = .ok nodes) :
    wire document (ofNodes nodes) = .of (ofRecords document catalog) := by
  have bare : ∀ node ∈ nodes, ∀ inlet ∈ node.inlets, inlet.source = none := by
    intro node hm
    obtain ⟨n, hi⟩ := List.getElem?_of_mem hm
    obtain ⟨r, _, hr⟩ := getElem?_of_mapM_zipIdx hn hi
    exact (Record.node_eq_ok hr).2.2.2.1
  have wired : wire document (ofNodes nodes) = _ :=
    foldlM_wire (n := 0) (fun x hx s hs => ?_) fun m _ s => source?_ofNodes bare m s
  · rw [wired, ofRecords, hn]
    cases document.zipIdx.mapM fun x : Record × Nat => x.1.producers document.length x.2 <;> rfl
  · have at_index : document.zipIdx[x.2]? = some x := by
      rw [List.getElem?_zipIdx, List.mem_zipIdx_iff_getElem?.1 hx, Option.map_some, Nat.zero_add]
    obtain ⟨node, hi, hr⟩ := getElem?_of_forall₂ (mapM_eq_ok_iff.1 hn) at_index
    obtain ⟨-, arity, -, -, inputs⟩ := Record.node_eq_ok hr
    rw [inlet?, node?_ofNodes, hi, Option.bind_some, isSome_getElem?]
    omega

theorem size_connect (net : Net) (edges : List Edge) :
    (net.connect edges).nodes.size = net.nodes.size := by
  induction edges generalizing net with
  | nil => rfl
  | cons e edges ih => exact (ih _).trans (size_setSource net e.consumer e.slot (some e.producer))

theorem dense_ofRecords {document : Document} {catalog : Catalog}
    (h : ofRecords document catalog = .ok net) : net.Dense := by
  obtain ⟨nodes, sources, rfl, -⟩ := ofRecords_eq_ok h
  intro n hn
  rw [size_connect, ofNodes, List.size_toArray, List.length_map] at hn
  rw [contains_eq_frame?, frame?_connect, ← contains_eq_frame?, contains, node?_ofNodes,
    isSome_getElem?]
  exact hn

/-! ### Checks -/

theorem edges_eq_wiring? (net : Net) : net.edges =
    net.ids.flatMap fun n => edgesInto n 0 ((net.wiring? n).elim [] (·.2.1)) := by
  rw [edges, ids, List.flatMap_map]
  apply List.flatMap_congr
  rintro ⟨n, node⟩ hm
  rw [wiring?, mem_live.1 hm]
  simp [edgesInto, List.zipIdx_map, List.filterMap_map]

theorem SameWiring.edges {net' : Net} (h : net.SameWiring net') : net'.edges = net.edges := by
  simp only [edges_eq_wiring?, h.ids, h.wiring]

theorem checkInTimeGuarded_eq (hw : net.WellFormed) {e : Edge} (he : e ∈ net.edges) :
    net.checkInTimeGuarded e =
      .of (net.checkInTime net.demanded (net.knownEarly net.demanded) e) := by
  obtain ⟨node, inlet, hnode, hinlet, -⟩ := exists_inlet_of_source? (mem_edges.1 he)
  have there : (net.inlet? e.consumer e.slot).isSome := by
    rw [inlet?, hnode, Option.bind_some, hinlet]
    rfl
  obtain ⟨slot, hslot⟩ := Option.isSome_iff_exists.1 ((slot?_isSome_iff hw.toWired).2 there)
  have found : node.operator.slots[e.slot]? = some slot := by
    rw [← hslot, slot?, operator?, hnode]
    rfl
  have inTime : net.inTime net.demanded net.isKnown e.consumer slot e.producer =
      (!((slot.compileTime || net.isDemanded e.consumer) &&
        !(net.operator? e.producer).any Operator.isInput) || net.isKnown e.producer) := by
    rw [Net.inTime, isDemanded, Bool.not_and, Bool.not_not]
  rw [checkInTime, hslot]
  dsimp only
  rw [inTime_knownEarly he hslot, inTime]
  simp only [checkInTimeGuarded, hnode, found, Guarded.found_some, Guarded.of_ok_bind,
    isKnownGuarded_eq hw]
  cases (slot.compileTime || net.isDemanded e.consumer) &&
      !(net.operator? e.producer).any Operator.isInput with
  | false => rfl
  | true => cases net.isKnown e.producer <;> rfl

theorem Deep.checkLengthGuarded_eq (h : net.Deep WellFormed) (e : Edge) :
    net.checkLengthGuarded e = .of (net.checkFit e) := by
  have probe : net.probeGuarded e.producer = .of (net.probe e.producer) := by
    rw [probeGuarded, h.compileGuarded_eq, Net.probe, Guarded.run_of, Guarded.found_some,
      Guarded.of_ok_bind]
    cases net.compile e.producer [] <;> rfl
  rw [checkLengthGuarded, checkFit, probe]
  cases net.slot? e.consumer e.slot with
  | none => rfl
  | some slot =>
    dsimp only
    rw [checkLength]
    split
    · rfl
    · cases net.probe e.producer <;> rfl

section Load
variable {allowed : Operator → Prop} {depth : Nat} {document : Document} {catalog : Catalog}
  (built : ∀ op ∈ catalog.operators, Operator.Built allowed depth op)
include built

/-- A net of operators from a catalog is well formed at every depth when it is so itself. -/
theorem deep_of_catalog (hw : net.WellFormed)
    (ho : ∀ n op, net.operator? n = some op → op ∈ catalog.operators) : net.Deep WellFormed := by
  refine .intro hw fun n u hu => ?_
  obtain ⟨op, hop, hu⟩ := Option.bind_eq_some_iff.1 hu
  refine Graph.deep_template (fun depth g hg => ⟨hg.wellFormed, ?_⟩) (built op (ho n op hop)) hu
  exact hg.wellFormed.of_sameWiring (sameWiring_resolve g.net)

/-- No guard of a load fails. -/
theorem ofDocumentGuarded_eq :
    Net.ofDocumentGuarded document catalog = .of (Net.ofDocument document catalog) := by
  have made : (Guarded.of (document.zipIdx.mapM fun (r, index) => r.node catalog index) >>=
      fun nodes => wire document ⟨(nodes.map some).toArray, nodes.length⟩) =
      .of (ofRecords document catalog) := by
    cases hn : document.zipIdx.mapM fun (r, index) => r.node catalog index with
    | error refusal =>
      rw [ofRecords, hn]
      rfl
    | ok nodes => exact wire_ofNodes hn
  rw [Net.ofDocumentGuarded, ← bind_assoc, made, Net.ofDocument]
  refine Guarded.of_bind fun bare hr => ?_
  obtain ⟨wired, operators⟩ := wired_ofRecords hr
  rw [checkAcyclicGuarded_eq wired (dense_ofRecords hr)]
  refine Guarded.of_bind fun _ hc => ?_
  have hw : bare.WellFormed := ⟨wired, acyclic_of_checkAcyclic wired hc⟩
  have same := sameWiring_resolve bare
  have deep : bare.resolve.Deep WellFormed := by
    apply deep_of_catalog built (hw.of_sameWiring same)
    intro n op hop
    rw [operator?_eq_wiring?, same.wiring, ← operator?_eq_wiring?] at hop
    obtain ⟨node, hn, rfl⟩ := Option.map_eq_some_iff.1 hop
    exact operators n node hn
  have inTime := Guarded.forM_of fun e he => checkInTimeGuarded_eq hw (e := e) he
  have lengths := Guarded.forM_of fun e (_ : e ∈ bare.edges) => deep.checkLengthGuarded_eq e
  dsimp only
  rw [inTime]
  refine Guarded.of_bind fun _ _ => ?_
  rw [lengths, same.edges, foldlM_checkFixedLength bare.resolve.found_nil]
  exact Guarded.of_bind fun _ _ => rfl

end Load
end Net
end Patchbay
