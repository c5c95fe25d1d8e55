import Patchbay.Generator
import Patchbay.Proofs.Plan.Alike
import Patchbay.Proofs.Plan.FirstBlock

/-! # What compiles of different outputs share

How a node is tried is decided by its place in the whole net and by the trials of its producers,
never by the output that is asked for. So compiles that meet in a node try it alike, and every node
of a compile compiles alone.
-/

namespace Patchbay
open Relation

section
variable [Platform]

namespace Net
variable {net : Net} {output other n : NodeId} {externals : Legs} {trials trials' : List Trial}
  {t : Trial}

theorem entry_unique (hw : net.WellFormed) (hc : net.contains output = true)
    (hc' : net.contains other = true) {e e' : Entry} (he : e ∈ net.entries output)
    (he' : e' ∈ net.entries other) (same : e.source = e'.source) : e = e' := by
  have known : e.known = e'.known := by
    rw [Bool.eq_iff_iff, known_iff_of_mem_entries hw he hc, known_iff_of_mem_entries hw he' hc',
      same]
  obtain ⟨node, index, _⟩ := entry_of_mem_entries he
  obtain ⟨node', index', _⟩ := entry_of_mem_entries he'
  rw [same, node', Option.some.injEq] at node
  rw [same, ← index'] at index
  obtain ⟨_, _, _, _⟩ := e
  obtain ⟨_, _, _, _⟩ := e'
  exact Entry.mk.injEq .. ▸ ⟨same, node.symm, index, known⟩

/-- The producers of a node were tried before a compile gets to it. -/
theorem exists_trial_of_prefix (hw : net.WellFormed) (hc : net.contains output = true)
    {new : List Trial} {e : Entry} {after : List Entry}
    (hs : net.entries output = new.map (·.toEntry) ++ e :: after) {p : NodeId}
    (hp : p ∈ e.node.sources) : ∃ u ∈ new, trial? new.reverse p = some u := by
  have he : e ∈ net.entries output := by simp [hs]
  have grounded := grounded_of_entries hw hc hs
  rw [List.map_cons, List.reverse_cons, List.append_assoc] at grounded
  obtain ⟨u, found⟩ := exists_trial? (grounded.of_append.1 p ((mem_sources_entry he).1 hp))
  exact ⟨u, List.mem_reverse.1 (mem_of_trial? found).1, found⟩

namespace Trials

section Shared
variable (h : net.Trials output externals trials) (hc : net.contains other = true)
include h hc

/-- On the trials of its producers a node is tried as in any other compile. -/
theorem tryAfter_shared {e : Entry} (he : e ∈ net.entries other)
    (up : ReflTransGen net.Feeds e.source output) {done : List Trial}
    (producers : ∀ p ∈ e.node.sources, ∃ u ∈ trials, trial? done p = some u) :
    ∃ t ∈ trials, e.tryAfter net.expand externals done = .ok t := by
  obtain ⟨t, ht, source⟩ := h.exists_of_upstream up
  have entry : t.toEntry = e := entry_unique h.wellFormed h.contains hc (h.mem_entries ht) he source
  have tried := h.tryAfter ht
  rw [entry] at tried
  refine ⟨t, ht, (tryAfter_congr fun p hp => ?_).trans tried⟩
  obtain ⟨u, hu, found⟩ := producers p hp
  obtain ⟨_, rfl⟩ := mem_of_trial? found
  rw [found, trial?_of_mem h.nodup hu]

/-- Trials made so far for another output are trials of this compile, where it makes them at all. -/
theorem mem_of_tried {done : List Trial} (tried : Tried net.expand externals done)
    (grounded : net.Grounded (done.map (·.source)))
    (entries : ∀ t ∈ done, t.toEntry ∈ net.entries other) (ht : t ∈ done)
    (up : ReflTransGen net.Feeds t.source output) : t ∈ trials := by
  induction done generalizing t with
  | nil => cases ht
  | cons u done ih =>
    have earlier {q : Trial} := @ih q tried.2 grounded.2
      fun t ht => entries t (List.mem_cons_of_mem u ht)
    rcases List.mem_cons.1 ht with rfl | ht
    · obtain ⟨t', ht', again⟩ := h.tryAfter_shared hc (entries t List.mem_cons_self) up
        fun p hp => by
          have feeds := (mem_sources_entry (entries t ht)).1 hp
          obtain ⟨q, found⟩ := exists_trial? (grounded.1 p feeds)
          obtain ⟨hq, rfl⟩ := mem_of_trial? found
          exact ⟨q, earlier hq (.head feeds up), found⟩
      rw [tried.1, Except.ok.injEq] at again
      exact again ▸ ht'
    · exact earlier ht up

/-- In particular the trials of the first entries of another output. -/
theorem mem_of_prefix {new : List Trial} {after : List Entry}
    (hs : net.entries other = new.map (·.toEntry) ++ after)
    (tried : Tried net.expand externals new.reverse) (ht : t ∈ new)
    (up : ReflTransGen net.Feeds t.source output) : t ∈ trials := by
  refine h.mem_of_tried hc tried (grounded_of_entries h.wellFormed hc hs).of_append (fun u hu => ?_)
    (List.mem_reverse.2 ht) up
  rw [hs]
  exact List.mem_append_left _ (List.mem_map_of_mem (List.mem_reverse.1 hu))

/-- A compile of another output gets past every node that this compile tries. -/
theorem passes {new : List Trial} {e : Entry} {after : List Entry}
    (hs : net.entries other = new.map (·.toEntry) ++ e :: after)
    (tried : Tried net.expand externals new.reverse)
    (up : ReflTransGen net.Feeds e.source output) :
    ∃ t ∈ trials, e.tryAfter net.expand externals new.reverse = .ok t := by
  have he : e ∈ net.entries other := by simp [hs]
  refine h.tryAfter_shared hc he up fun p hp => ?_
  obtain ⟨u, hu, found⟩ := exists_trial_of_prefix h.wellFormed hc hs hp
  obtain ⟨_, rfl⟩ := mem_of_trial? found
  exact ⟨u, h.mem_of_prefix hc hs tried hu (.head ((mem_sources_entry he).1 hp) up), found⟩

end Shared

theorem mem_of_mem (h : net.Trials output externals trials)
    (h' : net.Trials other externals trials') (ht : t ∈ trials')
    (up : ReflTransGen net.Feeds t.source output) : t ∈ trials := by
  have entries : net.entries other = trials'.map (·.toEntry) ++ [] := by simp [h'.entries]
  exact h.mem_of_prefix h'.contains entries h'.tried ht up

theorem alone (h : net.Trials output externals trials) (up : ReflTransGen net.Feeds n output) :
    ∃ trials', net.Trials n externals trials' ∧ ∀ t ∈ trials', t ∈ trials := by
  have hw := h.wellFormed
  have hc := contains_of_upstream hw.linked.noDangling h.contains up
  cases all : Net.tryAll net.expand externals (net.entries n) [] with
  | ok trials' =>
    have h' := trials_of_tryAll hw hc all
    exact ⟨trials', h', fun t ht => h.mem_of_mem h' ht ((h'.upstream ht).trans up)⟩
  | error cause =>
    obtain ⟨new, e, after, hs, tried, failed⟩ := tryAll_eq_error (by trivial) all
    rw [List.append_nil] at tried failed
    have he : e ∈ net.entries n := by simp [hs]
    obtain ⟨t, _, passed⟩ := h.passes hc hs tried ((upstream_of_mem_entries hw hc he).trans up)
    rw [failed] at passed
    cases passed

/-- A node that is compiled alone has the length that it has in any compile. -/
theorem probe (h : net.Trials output [] trials) (ht : t ∈ trials) :
    net.probe t.source = .ok t.cells.length := by
  obtain ⟨trials', h', shared⟩ := h.alone (h.upstream ht)
  obtain ⟨u, hu, same⟩ := h'.trial?_output
  cases h.eq_of_source (shared u hu) ht same
  rw [Net.probe, (compile_eq_ok h.wellFormed).2 ⟨trials', h', rfl⟩]
  dsimp only
  rw [h'.outputRegion_plan, (h'.regionOf_output hu).1]

end Trials
end Net

namespace Graph
variable {allowed : Operator → Prop} {depth : Nat} {g : Graph}

/-- A node upstream of two outputs that compile with the same vectors has in both compiles the same
length, fold, fault and first block. A node in a compile without vectors has the length that an edit
measures when it compiles the node alone. -/
theorem compile_shared (h : g.Reachable (Operator.Built allowed depth)) :
    (∀ (context context' : ContextId) (output output' : NodeId) (externals : Legs)
      (g₁ g₂ : Graph) (c c' : Context),
      g.compile context output externals = .ok (g₁, c) →
      g.compile context' output' externals = .ok (g₂, c') →
      ∀ n, ReflTransGen g.net.Feeds n output → ReflTransGen g.net.Feeds n output' →
        ∃ p p', c.plan.node? n = some p ∧ c'.plan.node? n = some p' ∧
          p.region.length = p'.region.length ∧ p.folded = p'.folded ∧ p.fault = p'.fault ∧
          p.region.read (c.plan.run (.fresh c.plan) .detached externals).state.field =
            p'.region.read (c'.plan.run (.fresh c'.plan) .detached externals).state.field) ∧
    ∀ (context : ContextId) (output : NodeId) (g₁ : Graph) (c : Context),
      g.compile context output [] = .ok (g₁, c) →
      ∀ n, ReflTransGen g.net.Feeds n output →
        ∃ p, c.plan.node? n = some p ∧ g.net.probe n = .ok p.region.length := by
  have deep := h.deep_wellFormed
  constructor
  · intro context context' output output' externals g₁ g₂ c c' hc hc' n up up'
    obtain ⟨trials, ht, hplan⟩ := (Net.compile_eq_ok deep.here).1 (plan_of_compile hc)
    obtain ⟨trials', ht', hplan'⟩ := (Net.compile_eq_ok deep.here).1 (plan_of_compile hc')
    obtain ⟨t, mem', rfl⟩ := ht'.exists_of_upstream up'
    have mem : t ∈ trials := ht.mem_of_mem ht' mem' up
    rw [hplan, hplan']
    refine ⟨_, _, ht.node?_plan mem, ht'.node?_plan mem', ?_, rfl, rfl, ?_⟩
    · exact (ht.regionOf_output mem).1.trans (ht'.regionOf_output mem').1.symm
    · exact ((ht.run_fresh deep deep.enters).1 t mem).trans
        ((ht'.run_fresh deep deep.enters).1 t mem').symm
  · intro context output g₁ c hc n up
    obtain ⟨trials, ht, hplan⟩ := (Net.compile_eq_ok deep.here).1 (plan_of_compile hc)
    obtain ⟨t, mem, rfl⟩ := ht.exists_of_upstream up
    rw [hplan]
    exact ⟨_, ht.node?_plan mem, (ht.probe mem).trans
      (congrArg Except.ok (ht.regionOf_output mem).1.symm)⟩

end Graph

end

namespace Graph

/-- The input of `mixed` in a compile of the sum and in one of its own. -/
theorem compile_shared_mixed : ∃ (g g₁ g₂ : Graph) (c c' : Context),
    Graph.ofDocument 0 mixed Builtin.catalog = .ok g ∧
    g.compile 0 2 [] = .ok (g₁, c) ∧ g.compile 1 0 [] = .ok (g₂, c') ∧
    (∃ p p', c.plan.node? 0 = some p ∧ c'.plan.node? 0 = some p' ∧
      p.region.length = p'.region.length) ∧
    ∃ p, c.plan.node? 0 = some p ∧ g.net.probe 0 = .ok p.region.length := by
  have computed : ((Graph.ofDocument 0 mixed Builtin.catalog).toOption.bind fun g =>
      (g.compile 0 2 []).toOption.bind fun _ => (g.compile 1 0 []).toOption.filter fun _ =>
        g.net.source? 2 0 == some 0).isSome = true := by cbv
  obtain ⟨⟨g₂, c'⟩, hr⟩ := Option.isSome_iff_exists.1 computed
  obtain ⟨g, hg, hr⟩ := Option.bind_eq_some_iff.1 hr
  obtain ⟨⟨g₁, c⟩, hc, hr⟩ := Option.bind_eq_some_iff.1 hr
  obtain ⟨hc', hs⟩ := Option.filter_eq_some_iff.1 hr
  rw [toOption_eq_some] at hg hc hc'
  have reachable : g.Reachable (Operator.Built (fun _ => True) 0) :=
    .loaded (fun op hop =>
      ⟨trivial, (Builtin.regular_of_mem (Builtin.mem_operators hop)).2⟩) hg
  have feeds : ReflTransGen g.net.Feeds 0 2 := .single ⟨0, eq_of_beq hs⟩
  have shared := compile_shared reachable
  obtain ⟨p, p', hp, hp', length, _⟩ := shared.1 0 1 2 0 [] g₁ g₂ c c' hc hc' 0 feeds .refl
  exact ⟨g, g₁, g₂, c, c', hg, hc, hc', ⟨p, p', hp, hp', length⟩, shared.2 0 2 g₁ c hc 0 feeds⟩

end Graph
end Patchbay
