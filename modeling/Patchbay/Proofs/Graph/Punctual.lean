import Patchbay.Proofs.Graph.History
import Patchbay.Proofs.Net.Demand

/-! # Graphs whose values come in time

An edge is attached only when its producer is known early, or is an input, wherever something
downstream demands that. Edits of another kind demand no more than before, and a document is checked
as a whole. So every graph with a history is punctual.
-/

namespace Patchbay
open Relation

variable [Platform]

namespace Net
variable {net net' : Net} {n p c : NodeId} {slot : Nat}

theorem Demanded.mono (h : net'.Demanded n)
    (hs : ∀ c slot p, net'.source? c slot = some p →
      net.source? c slot = some p ∧ net'.operator? c = net.operator? c) : net.Demanded n := by
  obtain ⟨p, c, ⟨slot, he, hd⟩, up⟩ := h
  obtain ⟨he', ho⟩ := hs c slot p he
  rw [slot?, ho] at hd
  refine ⟨p, c, ⟨slot, he', hd⟩, ReflTransGen.mono (fun a b hab => ?_) n p up⟩
  obtain ⟨s, hab⟩ := hab
  exact ⟨s, (hs b s a hab).1⟩

theorem Punctual.mono (h : net.Punctual)
    (hs : ∀ c slot p, net'.source? c slot = some p →
      net.source? c slot = some p ∧ net'.operator? c = net.operator? c)
    (ho : ∀ n op, net'.Demanded n → net'.operator? n = some op → net.operator? n = some op) :
    net'.Punctual :=
  fun n op hd hop => h n op (hd.mono hs) (ho n op hd hop)

theorem Punctual.of_sameWiring (h : net.Punctual) (hw : net.SameWiring net') : net'.Punctual := by
  have operator (n : NodeId) : net'.operator? n = net.operator? n := by
    rw [operator?_eq_wiring?, hw.wiring, ← operator?_eq_wiring?]
  refine h.mono (fun c slot p hp => ⟨?_, operator c⟩) fun n op _ hop => operator n ▸ hop
  rw [source?_eq_wiring?, hw.wiring, ← source?_eq_wiring?] at hp
  exact hp

/-- What a new edge demands: what was demanded before, and all upstream of its producer where its
slot needs a value early or something behind its consumer does. -/
theorem Demanded.of_setSource (h : (net.setSource c slot (some p)).Demanded n) :
    net.Demanded n ∨ ReflTransGen net.Feeds n p ∧
      ((net.slot? c slot).any (·.compileTime) = true ∨ net.Demanded c) := by
  obtain ⟨q, d, ⟨s, he, hd⟩, up⟩ := h
  have edge (a b : NodeId) (t : Nat)
      (hab : (net.setSource c slot (some p)).source? b t = some a) :
      net.source? b t = some a ∨ a = p ∧ b = c ∧ t = slot := by
    have := source?_setSource net c slot (some p) ⟨b, t⟩
    rw [hab] at this
    split at this
    · rename_i hq
      cases hq
      obtain ⟨_, _, hsource⟩ := Option.bind_eq_some_iff.1 this.symm
      exact .inr ⟨(Option.some.inj hsource).symm, rfl, rfl⟩
    · exact .inl this.symm
  rw [slot?, operator?_setSource, ← slot?] at hd
  induction up using ReflTransGen.head_induction_on with
  | refl =>
    rcases edge q d s he with he | ⟨rfl, rfl, rfl⟩
    · exact .inl ⟨q, d, ⟨s, he, hd⟩, .refl⟩
    · exact .inr ⟨.refl, .inl hd⟩
  | @head a b hab _ ih =>
    obtain ⟨t, hab⟩ := hab
    rcases edge a b t hab with hab | ⟨rfl, rfl, rfl⟩
    · rcases ih with ih | ⟨up, early⟩
      · exact .inl (ih.of_feeds ⟨t, hab⟩)
      · exact .inr ⟨.head ⟨t, hab⟩ up, early⟩
    · rcases ih with ih | ⟨_, early⟩
      · exact .inr ⟨.refl, .inr ih⟩
      · exact .inr ⟨.refl, early⟩

/-- What comes in time can be computed ahead, with all that it depends on. -/
theorem live_of_inTime (hw : net.WellFormed) (hr : net.Rooted) {s : Slot}
    {isKnown : NodeId → Bool} (hk : isKnown p = true → net.isKnown p = true)
    (ht : net.inTime net.demanded isKnown c s p = true)
    (hd : s.compileTime = true ∨ net.Demanded c) (up : ReflTransGen net.Feeds n p) {op : Operator}
    (ho : net.operator? n = some op) : op.live = false := by
  have late : (s.compileTime || net.demanded.contains c) = true := by
    rw [Bool.or_eq_true, List.contains_iff_mem, mem_demanded hw.linked.noDangling]
    exact hd
  rw [inTime, late, Bool.not_true, Bool.false_or, Bool.or_eq_true] at ht
  exact hr.still hw.toWired (ht.imp_right fun known => ((isKnown_iff hw).1 (hk known)).2) n op up ho

theorem Punctual.push (h : net.Punctual) (hs : net.NoDangling) (new : Operator) :
    (net.push new).Punctual := by
  have old (m : NodeId) (hm : net.contains m = true) :
      (net.push new).operator? m = net.operator? m := by
    rw [operator?_push, if_neg (Nat.ne_of_lt (lt_size_of_contains hm))]
  refine h.mono (fun c slot p he => ?_) fun n op hd ho => ?_
  · rw [source?_push] at he
    exact ⟨he, old c (contains_of_source? he)⟩
  · obtain ⟨c, slot, he, _⟩ := hd.cases
    rw [source?_push] at he
    rw [← old n (hs n c ⟨slot, he⟩)]
    exact ho

theorem Punctual.erase (h : net.Punctual) (hl : net.Linked) (m : NodeId) :
    (net.erase m).Punctual := by
  refine h.mono (fun c slot p he => ?_) fun n op _ ho => ?_
  · have source := source?_erase hl m ⟨c, slot⟩
    rw [he] at source
    split at source
    · cases source
    · rename_i kept
      exact ⟨source.symm, by rw [operator?_erase, if_neg fun hc => kept (.inl hc)]⟩
  · rw [operator?_erase] at ho
    split at ho
    · cases ho
    · exact ho

theorem Punctual.detach (h : net.Punctual) (n : NodeId) (slot : Nat) :
    (net.setSource n slot none).Punctual := by
  refine h.mono (fun c s p he => ?_) fun m op _ ho => ?_
  · have same := source?_setSource net n slot none ⟨c, s⟩
    rw [he] at same
    split at same
    · obtain ⟨_, _, hsource⟩ := Option.bind_eq_some_iff.1 same.symm
      cases hsource
    · exact ⟨same.symm, operator?_setSource net n slot none c⟩
  · rw [operator?_setSource] at ho
    exact ho

/-- A new edge behind which something is demanded early may come from what can be computed ahead. -/
theorem Punctual.attach_still (h : net.Punctual)
    (still : (net.slot? c slot).any (·.compileTime) = true ∨ net.Demanded c → net.Still p) :
    (net.setSource c slot (some p)).Punctual := by
  intro n op hd ho
  rw [operator?_setSource] at ho
  rcases hd.of_setSource with hd | ⟨up, early⟩
  · exact h n op hd ho
  · exact still early n op up ho

theorem Punctual.attach (h : net.Punctual) (hw : net.WellFormed) (hr : net.Rooted)
    (hi : (net.inlet? c slot).isSome) (inTime : net.InTime c slot p) :
    (net.setSource c slot (some p)).Punctual := by
  refine h.attach_still fun early n op up ho => ?_
  obtain ⟨s, hslot⟩ := Option.isSome_iff_exists.1 ((slot?_isSome_iff hw.toWired).2 hi)
  rw [hslot] at early
  exact live_of_inTime hw hr id (inTime s hslot) early up ho

theorem Change.punctual {placed : Operator → Prop} (h : net.Change placed net')
    (hw : net.WellFormed) (hr : net.Rooted) (hp : net.Punctual) : net'.Punctual := by
  cases h with
  | push => exact hp.push hw.linked.noDangling _
  | erase => exact hp.erase hw.linked _
  | @setSource n slot source hs =>
    cases source with
    | none => exact hp.detach n slot
    | some p => exact hp.attach hw hr (hs p rfl).1.1 (hs p rfl).2
  | keep => exact hp

/-- In a punctual net every producer of which an early value is demanded is known. -/
theorem Punctual.isKnown (h : net.Punctual) (hw : net.WellFormed) (hs : net.source? c slot = some p)
    (early : (net.slot? c slot).any (·.compileTime) = true ∨ net.Demanded c) :
    net.isKnown p = true := by
  have live : net.contains p = true := hw.linked.noDangling p c ⟨slot, hs⟩
  have demanded : net.Demanded p := by
    rcases early with early | behind
    · exact ⟨p, c, ⟨slot, hs, early⟩, .refl⟩
    · exact behind.of_feeds ⟨slot, hs⟩
  exact (isKnown_iff hw).2 ⟨live, h.known hw live demanded⟩

/-- A loaded net is punctual, since all its edges were checked. -/
theorem punctual_ofDocument {document : Document} {catalog : Catalog}
    (h : Net.ofDocument document catalog = .ok net) (hr : net.Rooted) : net.Punctual := by
  obtain ⟨bare, hrecords, hcycle, inTime, _, rfl⟩ := ofDocument_eq_ok h
  have wired := (wired_ofRecords hrecords).1
  have hw : bare.WellFormed := ⟨wired, acyclic_of_checkAcyclic wired hcycle⟩
  have same := sameWiring_resolve bare
  have rooted : bare.Rooted := fun n op ho => by
    apply hr n op
    rw [operator?_eq_wiring?, same.wiring, ← operator?_eq_wiring?]
    exact ho
  refine Punctual.of_sameWiring (fun n op hd ho => ?_) same
  obtain ⟨c, slot, he, early⟩ := hd.cases
  obtain ⟨_, inlet, hnode, hinlet, _⟩ := exists_inlet_of_source? he
  obtain ⟨s, hs⟩ := Option.isSome_iff_exists.1 ((slot?_isSome_iff wired).2 (by
    rw [inlet?, hnode, Option.bind_some, hinlet]
    rfl))
  have checked := inTime ⟨n, c, slot⟩ (mem_edges.2 he)
  simp only [checkInTime, hs] at checked
  split at checked
  · rename_i ht
    rw [hs] at early
    refine live_of_inTime hw rooted (fun known => ?_) ht early .refl ho
    rw [List.contains_iff_mem, knownEarly, List.mem_filter] at known
    exact known.2
  · cases checked

end Net

namespace Graph
variable {placed : Operator → Prop} {g : Graph}

theorem Reachable.rooted (h : g.Reachable placed)
    (hp : ∀ op, placed op → op.isInput = true → op.slots = [] ∧ op.live = false) : g.net.Rooted :=
  fun _ op ho => hp op (h.operator_placed ho)

theorem Reachable.punctual (h : g.Reachable placed)
    (hp : ∀ op, placed op → op.isInput = true → op.slots = [] ∧ op.live = false) :
    g.net.Punctual := by
  induction h with
  | empty id =>
    intro n op _ ho
    simp [Graph.empty, Net.operator?, Net.node?, Net.empty] at ho
  | @loaded id document catalog g hc hd =>
    have rooted := (Reachable.loaded hc hd).rooted hp
    obtain ⟨net, hn, rfl⟩ := ofDocument_eq_ok hd
    exact Net.punctual_ofDocument hn rooted
  | @step g g' hg hs ih =>
    obtain ⟨net, change, same⟩ := hs.change hg.wellFormed
    exact (change.punctual hg.wellFormed (hg.rooted hp) ih).of_sameWiring same

end Graph
end Patchbay
