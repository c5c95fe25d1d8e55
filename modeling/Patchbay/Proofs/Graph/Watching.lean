import Patchbay.Proofs.Graph.Calls
import Patchbay.Proofs.Net.Demand

/-! # What a watcher can know

A watcher hears of one event at a time and sees nothing of the graph. It keeps a sketch of the nodes
and edges and changes it with each event. The sketch shows the graph after every call, since an edit
that rewires a slot or takes out a node with its edges is told by one event and refused calls by
none.
-/

namespace Patchbay

variable [Platform]

/-- The nodes and edges of a graph as a watcher knows them. -/
structure Sketch where
  nodes : List NodeId
  edges : List Edge

namespace Sketch

def blank : Sketch := ⟨[], []⟩

def clear (sketch : Sketch) (n : NodeId) (slot : Nat) : Sketch :=
  { sketch with edges := sketch.edges.filter fun e => e.consumer ≠ n ∨ e.slot ≠ slot }

/-- A removed node takes all edges with it that touch it, and a new edge takes the place of the one
that ended in its slot. -/
def hear (sketch : Sketch) : Event → Sketch
  | .added n => { sketch with nodes := sketch.nodes ++ [n] }
  | .removed n =>
    { nodes := sketch.nodes.filter (· ≠ n)
      edges := sketch.edges.filter fun e => e.consumer ≠ n ∧ e.producer ≠ n }
  | .attached n slot p => { sketch with edges := ⟨p, n, slot⟩ :: (sketch.clear n slot).edges }
  | .detached n slot => sketch.clear n slot

def replay (events : List Event) : Sketch := events.foldl hear blank

/-- The sketch has the nodes and edges of a net and no others, each once. -/
structure Shows (sketch : Sketch) (net : Net) : Prop where
  nodes : sketch.nodes = net.ids
  nodup : sketch.edges.Nodup
  edges : ∀ e, e ∈ sketch.edges ↔ net.source? e.consumer e.slot = some e.producer

end Sketch

namespace Net
variable {net : Net}

theorem nodup_edges (net : Net) : net.edges.Nodup := by
  refine List.nodup_flatMap.2 ⟨fun x _ => ?_, ?_⟩
  · have slots : (x.2.inlets.zipIdx.map (·.2)).Nodup := by
      rw [List.zipIdx_map_snd]
      exact List.nodup_range'
    refine (List.pairwise_map.1 slots).filterMap _ fun a b hne e he e' he' same => hne ?_
    obtain ⟨p, -, rfl⟩ := Option.map_eq_some_iff.1 he
    obtain ⟨q, -, rfl⟩ := Option.map_eq_some_iff.1 he'
    exact congrArg Edge.slot same
  · apply (List.pairwise_map.1 net.nodup_ids).imp
    intro x y hne e he he'
    obtain ⟨a, -, ha⟩ := List.mem_filterMap.1 he
    obtain ⟨b, -, hb⟩ := List.mem_filterMap.1 he'
    obtain ⟨p, -, rfl⟩ := Option.map_eq_some_iff.1 ha
    obtain ⟨q, -, same⟩ := Option.map_eq_some_iff.1 hb
    exact hne (congrArg Edge.consumer same).symm

end Net

namespace Sketch
variable {sketch : Sketch} {net net' : Net} {n p : NodeId} {slot : Nat} {e : Edge}

omit [Platform] in
theorem mem_clear :
    e ∈ (sketch.clear n slot).edges ↔
      e ∈ sketch.edges ∧ (⟨e.consumer, e.slot⟩ : Port) ≠ ⟨n, slot⟩ := by
  simp [clear, List.mem_filter, imp_iff_not_or]

omit [Platform] in
theorem mem_attached : e ∈ (sketch.hear (.attached n slot p)).edges ↔
    e = ⟨p, n, slot⟩ ∨ e ∈ sketch.edges ∧ (⟨e.consumer, e.slot⟩ : Port) ≠ ⟨n, slot⟩ := by
  rw [hear, List.mem_cons, mem_clear]

namespace Shows

theorem perm (h : sketch.Shows net) : sketch.edges.Perm net.edges := by
  rw [List.perm_ext_iff_of_nodup h.nodup net.nodup_edges]
  intro e
  rw [h.edges, Net.mem_edges]

theorem blank : blank.Shows .empty where
  nodes := rfl
  nodup := List.nodup_nil
  edges e := by simp [Sketch.blank, Net.source?, Net.inlet?, Net.node?, Net.empty]

variable (h : sketch.Shows net)
include h

theorem of_sameWiring (hw : net.SameWiring net') : sketch.Shows net' where
  nodes := h.nodes.trans hw.ids.symm
  nodup := h.nodup
  edges e := by rw [h.edges, Net.source?_eq_wiring? net', hw.wiring, ← Net.source?_eq_wiring?]

theorem push (op : Operator) : (sketch.hear (.added net.nodes.size)).Shows (net.push op) where
  nodes := by
    rw [hear, h.nodes]
    refine (Net.ids_eq_of_mem ?_ fun m => ?_).symm
    · rw [List.pairwise_append]
      refine ⟨net.pairwise_ids, List.pairwise_singleton _ _, fun m hm k hk => ?_⟩
      rw [List.mem_singleton.1 hk]
      exact Net.lt_size_of_mem_ids hm
    · rw [List.mem_append, List.mem_singleton, Net.mem_ids, Net.contains, Net.contains,
        Net.node?_push]
      by_cases hm : m = net.nodes.size <;> simp [hm]
  nodup := h.nodup
  edges e := by rw [Net.source?_push]; exact h.edges e

theorem erase (hl : net.Linked) (n : NodeId) :
    (sketch.hear (.removed n)).Shows (net.erase n) where
  nodes := by
    rw [hear, h.nodes]
    refine (Net.ids_eq_of_mem (net.pairwise_ids.filter _) fun m => ?_).symm
    simp [Net.contains_erase, Net.mem_ids, and_comm]
  nodup := h.nodup.filter _
  edges e := by
    have source := Net.source?_erase hl n ⟨e.consumer, e.slot⟩
    dsimp only at source
    rw [source, hear]
    dsimp only
    rw [List.mem_filter, h.edges, decide_eq_true_eq]
    split
    · rename_i touched
      refine iff_of_false (fun ⟨he, hc, hp⟩ => ?_) fun hn => nomatch hn
      rcases touched with consumer | producer
      · exact hc consumer
      · exact hp (Option.some.inj (he.symm.trans producer))
    · rename_i apart
      refine and_iff_left_of_imp fun he => ⟨fun hc => apart (.inl hc), fun hp => apart (.inr ?_)⟩
      rw [he, hp]

theorem attach (inlet : (net.inlet? n slot).isSome) (p : NodeId) :
    (sketch.hear (.attached n slot p)).Shows (net.setSource n slot (some p)) where
  nodes := h.nodes.trans (net.ids_setSource n slot (some p)).symm
  nodup := by
    refine List.nodup_cons.2 ⟨fun old => ?_, h.nodup.filter _⟩
    exact (mem_clear.1 old).2 rfl
  edges e := by
    obtain ⟨q, c, s⟩ := e
    obtain ⟨there, hi⟩ := Option.isSome_iff_exists.1 inlet
    have source := Net.source?_setSource net n slot (some p) ⟨c, s⟩
    rw [hi, Option.bind_some] at source
    dsimp only at source
    rw [source, mem_attached, h.edges]
    by_cases port : (⟨c, s⟩ : Port) = ⟨n, slot⟩
    · obtain ⟨rfl, rfl⟩ := Port.mk.inj port
      simp [eq_comm]
    · have other : (⟨q, c, s⟩ : Edge) ≠ ⟨p, n, slot⟩ := by
        rintro ⟨⟩
        exact port rfl
      simp [port, other]

theorem detach (n : NodeId) (slot : Nat) :
    (sketch.hear (.detached n slot)).Shows (net.setSource n slot none) where
  nodes := h.nodes.trans (net.ids_setSource n slot none).symm
  nodup := h.nodup.filter _
  edges e := by
    have source := Net.source?_setSource net n slot none ⟨e.consumer, e.slot⟩
    dsimp only at source
    rw [source, hear, mem_clear, h.edges]
    split
    · rename_i port
      cases net.inlet? n slot <;> simp [port]
    · rename_i apart
      exact and_iff_left apart

end Shows
end Sketch

/-- What a watcher that has heard all events of a graph knows of it. -/
structure Desk.Watched (desk : Desk) : Prop where
  reachable : desk.graph.Reachable fun _ => True
  watched : desk.graph.watched = true
  shown : (Sketch.replay desk.heard).Shows desk.graph.net

namespace Graph
variable {g : Graph} {e : Edited} {compiled : Option Context}

theorem Does.shown (h : g.Does e compiled) {sketch : Sketch} (hs : sketch.Shows g.net)
    (hg : g.net.WellFormed) (watched : g.watched = true) :
    (e.event.toList.foldl Sketch.hear sketch).Shows e.graph.net ∧ e.graph.watched = true := by
  have told (net : Net) (event : Event) (shown : (sketch.hear event).Shows net) :
      ((g.edited net event).event.toList.foldl Sketch.hear sketch).Shows
          (g.edited net event).graph.net ∧
        (g.edited net event).graph.watched = true := by
    rw [edited, if_pos watched]
    exact ⟨shown.of_sameWiring (Net.sameWiring_resolve net), watched⟩
  cases h with
  | add op => exact told _ _ (hs.push op)
  | remove live => exact told _ _ (hs.erase hg.linked _)
  | attach inlet => exact told _ _ (hs.attach inlet _)
  | detach n slot => exact told _ _ (hs.detach n slot)
  | vacant => exact ⟨hs, watched⟩
  | adjust n kept =>
    refine ⟨hs.of_sameWiring (Net.sameWiring_modify (fun node => ?_) g.net n), watched⟩
    exact ⟨(kept node).operator, (kept node).sources, (kept node).outlets⟩
  | compile h =>
    refine ⟨hs.of_sameWiring (sameWiring_compile h), ?_⟩
    rw [(graph_of_compile h).2.2]
    exact watched

end Graph

theorem Desk.Watched.call {desk : Desk} (h : desk.Watched) (call : Call) :
    (call.outcome desk).1.Watched := by
  rcases Call.outcome_cases h.reachable call with same | ⟨e, compiled, does, reachable, same⟩
  · rw [same]
    exact h
  · obtain ⟨shown, watched⟩ := does.shown h.shown h.reachable.wellFormed h.watched
    rw [same]
    refine ⟨reachable, watched, ?_⟩
    rw [Sketch.replay, List.foldl_append]
    exact shown

theorem Desk.Watched.calls {desk : Desk} (h : desk.Watched) (calls : List Call) :
    (calls.foldl (fun desk call => (call.outcome desk).1) desk).Watched := by
  induction calls generalizing desk with
  | nil => exact h
  | cons call calls ih => exact ih (h.call call)

/-- A watcher that replays what it has heard since the graph was empty knows its nodes and its edges
after every call, whether the calls were refused or not. -/
theorem Graph.replay_heard (id : GraphId) (calls : List Call) :
    let desk := calls.foldl (fun desk call => (call.outcome desk).1)
      ⟨{ Graph.empty id with watched := true }, []⟩
    (Sketch.replay desk.heard).nodes = desk.graph.net.ids ∧
      (Sketch.replay desk.heard).edges.Perm desk.graph.net.edges := by
  have start : Desk.Watched ⟨{ Graph.empty id with watched := true }, []⟩ :=
    ⟨.step (.empty id) (.watch true), rfl, .blank⟩
  have watched := start.calls calls
  exact ⟨watched.shown.nodes, watched.shown.perm⟩

end Patchbay
