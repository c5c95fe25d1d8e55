import Patchbay.Plan.Block
import Patchbay.Proofs.Plan.Reads

/-! # What a block renders

A block gives every live node a vector computed from those of its producers, in the order of the
trials, and threads the host through. This is said here on the trials alone, without a buffer. What
a buffer must hold for a block to render just that is a property of the plan: nothing that a block
leaves in it may show in the next one.
-/

namespace Patchbay

variable [Platform]

/-- What the nodes have given so far, and the host. -/
structure Rendering where
  value : NodeId → Cells
  host : Host

namespace Trial

/-- What a live node gives in a block, and the host after it. A promoted node runs its own plan on a
fresh state. -/
def render (trials : List Trial) (externals : Legs) (r : Rendering) (t : Trial) : Cells × Host :=
  let legs := t.legsOf trials fun p => r.value p.source
  match t.node.operator.body with
  | .input =>
    (fit ((t.index.bind fun i => externals[i]?).getD []) t.fallback t.cells.length, r.host)
  | .kernel k =>
    (k.fill t.node.config r.host legs (List.replicate t.cells.length .zero),
      k.touch t.node.config legs t.cells.length r.host)
  | .promoted _ =>
    match t.inner with
    | some plan =>
      let b := plan.run (.fresh plan) r.host legs
      (b.output, b.host)
    | none => ([], r.host)

end Trial

namespace Rendering

def start (trials : List Trial) (host : Host) : Rendering :=
  ⟨fun n => (trial? trials n).elim [] Trial.cells, host⟩

def step (trials : List Trial) (externals : Legs) (r : Rendering) (t : Trial) : Rendering :=
  if t.live then
    let given := t.render trials externals r
    ⟨fun n => if n = t.source then given.1 else r.value n, given.2⟩
  else r

end Rendering

def rendering (trials : List Trial) (externals : Legs) (host : Host) : Rendering :=
  trials.foldl (Rendering.step trials externals) (.start trials host)

/-- Cells that a body can find in its buffer without a trace in what it writes. -/
def Kernel.Harmless (k : Kernel) (config : Config) (lengths : List Nat) (out : Cells) : Prop :=
  ∀ host legs, legs.map List.length = lengths →
    k.fill config host legs out = k.fill config host legs (List.replicate out.length .zero)

/-- A state on which a block of a plan renders what it does on a fresh one. -/
inductive Plan.Fits : Plan → State → Prop
  | intro {plan : Plan} {s : State} (child : NodeId → State)
    (length : s.field.length = plan.field.length)
    (fixed : ∀ r : Region, (∀ step ∈ plan.steps, r.stop ≤ step.dest.offset) →
      r.read s.field = r.read plan.field)
    (harmless : ∀ n legs dest p k, .evaluate n legs dest ∈ plan.steps → plan.node? n = some p →
      p.operator.body = .kernel k →
        k.Harmless p.config (legs.map (·.length)) (dest.read s.field))
    (children : ∀ n ∈ plan.liveInner, s.inner.lookup n = some (child n))
    (inner : ∀ n p, n ∈ plan.liveInner → plan.inner? n = some p → Plan.Fits p (child n)) :
    Plan.Fits plan s

/-- A body that leaves nothing in its buffer that shows when it runs again on legs of the same
lengths. -/
def Kernel.Lawful (k : Kernel) : Prop :=
  ∀ q n host legs, k.length q = .ok n → legs.map List.length = q.legs.map List.length →
    k.Harmless q.config (q.legs.map List.length)
      (k.fill q.config host legs (List.replicate n .zero))

/-- A plan whose blocks do not depend on the state they start from, among those that fit. Where all
bodies are lawful, a block leaves a state that fits again. -/
structure Plan.Steady (lawful : Prop) (plan : Plan) : Prop where
  fresh : plan.Fits (.fresh plan)
  run : ∀ s, plan.Fits s → ∀ host externals,
    (plan.run s host externals).output = (plan.run (.fresh plan) host externals).output ∧
    (plan.run s host externals).host = (plan.run (.fresh plan) host externals).host ∧
    (plan.run s host externals).output.length = plan.outputRegion.length ∧
    (lawful → plan.Fits (plan.run s host externals).state)

namespace Plan

theorem Steady.length_firstOutput {plan : Plan} {lawful : Prop} (h : plan.Steady lawful)
    (externals : Legs) : (plan.firstOutput externals).length = plan.outputRegion.length :=
  (h.run _ h.fresh .detached externals).2.2.1

def runInner (plan : Plan) (n : NodeId) (child : State) (host : Host) (legs : Legs) :
    Option Block :=
  (plan.inner? n).map fun p => p.run child host legs

theorem run_eq (plan : Plan) (s : State) (host : Host) (externals : Legs) :
    plan.run s host externals = plan.runWith plan.runInner s host externals := by
  rw [run]
  congr 1
  funext n child host legs
  rw [runInner]
  split <;> rename_i hp <;> rw [hp] <;> rfl

theorem fresh_eq (plan : Plan) :
    State.fresh plan = State.freshWith (fun n => (plan.inner? n).map State.fresh) plan := by
  rw [State.fresh]
  congr 1
  funext n
  split <;> rename_i hp <;> rw [hp] <;> rfl

end Plan

/-! ### The vectors of a block -/

/-- What holds of the vectors when some nodes have rendered: those of the other kinds are as tried,
none has changed its length, and each body wrote on zeros. -/
structure Rendering.Sound (trials done : List Trial) (r : Rendering) : Prop where
  settled : ∀ t ∈ trials, t.live = false → r.value t.source = t.cells
  length : ∀ t ∈ trials, (r.value t.source).length = t.cells.length
  written : ∀ t ∈ done, ∀ k, t.live = true → t.node.operator.body = .kernel k →
    ∃ host legs, legs.map List.length = (t.legsOf trials Trial.cells).map List.length ∧
      r.value t.source = k.fill t.node.config host legs (List.replicate t.cells.length .zero)

theorem map_length_legsOf {trials : List Trial} {t : Trial} {value : Trial → Cells}
    (h : ∀ s ∈ t.sockets trials, ∀ p, s.producer = some p →
      (value p).length = p.cells.length) :
    (t.legsOf trials value).map List.length = (t.legsOf trials Trial.cells).map List.length := by
  rw [Trial.legsOf, Trial.legsOf, List.map_map, List.map_map]
  apply List.map_congr_left
  intro s hs
  rw [Function.comp_apply, Function.comp_apply]
  cases hp : s.producer with
  | none => rw [Trial.vector, Trial.vector, hp]
  | some p => rw [Trial.length_vector hp, Trial.length_vector hp, h s hs p hp]

namespace Net.Trials
variable {net : Net} {output : NodeId} {externals : Legs} {trials : List Trial}
  (h : net.Trials output externals trials) {lawful : Prop}
  (steady : ∀ t ∈ trials, ∀ p, t.inner = some p → p.Steady lawful)
include h

theorem start_value (host : Host) {t : Trial} (ht : t ∈ trials) :
    (Rendering.start trials host).value t.source = t.cells := by
  change (trial? trials t.source).elim [] Trial.cells = t.cells
  rw [trial?_of_mem h.nodup ht]
  rfl

theorem sound_start (host : Host) : (Rendering.start trials host).Sound trials [] where
  settled t ht _ := h.start_value host ht
  length t ht := by rw [h.start_value host ht]
  written t ht := nomatch ht

include steady

theorem length_render {t : Trial} (ht : t ∈ trials) (hl : t.live = true) (legs : Legs)
    (r : Rendering) : (t.render trials legs r).1.length = t.cells.length := by
  rcases h.body_cases ht (Trial.fault_of_live hl).1 with ⟨k, n, hb, _, _⟩ | ⟨hb, _⟩ |
    ⟨u, p, hb, _, _, ho⟩
  · simp only [Trial.render, hb, k.length_fill, List.length_replicate]
  · simp only [Trial.render, hb, length_fit]
  · have inner : t.inner = some p := by rw [Trial.inner, ho]
    have run := (steady t ht p inner).run _ (steady t ht p inner).fresh
    have cells : t.cells = p.firstOutput (t.legsOf trials Trial.cells) := by rw [Trial.cells, ho]
    simp only [Trial.render, hb, inner]
    rw [(run r.host _).2.2.1, cells, (steady t ht p inner).length_firstOutput]

theorem sound_step {done rest : List Trial} {t : Trial} {legs : Legs} {r : Rendering}
    (hs : trials = done ++ t :: rest) (hr : r.Sound trials done) :
    (r.step trials legs t).Sound trials (done ++ [t]) := by
  have ht : t ∈ trials := hs ▸ List.mem_append_right _ List.mem_cons_self
  rw [Rendering.step]
  cases hl : t.live with
  | false =>
    rw [if_neg (by simp)]
    refine ⟨hr.settled, hr.length, fun u hu k hul hk => ?_⟩
    rcases List.mem_append.1 hu with hu | hu
    · exact hr.written u hu k hul hk
    · rw [List.mem_singleton.1 hu, hl] at hul
      cases hul
  | true =>
    rw [if_pos rfl]
    refine ⟨fun u hu hul => ?_, fun u hu => ?_, fun u hu k hul hk => ?_⟩
    · have hne : u.source ≠ t.source := fun he => by
        rw [h.eq_of_source hu ht he, hl] at hul
        cases hul
      exact (if_neg hne).trans (hr.settled u hu hul)
    · by_cases he : u.source = t.source
      · rw [h.eq_of_source hu ht he]
        exact (congrArg List.length (if_pos rfl)).trans (h.length_render steady ht hl legs r)
      · exact (congrArg List.length (if_neg he)).trans (hr.length u hu)
    · by_cases he : u.source = t.source
      · have hu : u ∈ trials := by
          rw [hs]
          rcases List.mem_append.1 hu with hu | hu
          · exact List.mem_append_left _ hu
          · exact List.mem_append_right _ (List.mem_singleton.1 hu ▸ List.mem_cons_self)
        cases h.eq_of_source hu ht he
        refine ⟨r.host, t.legsOf trials fun p => r.value p.source,
          map_length_legsOf fun s hm p hp => hr.length p ((h.producer_eq ht hm).2 p hp), ?_⟩
        apply (if_pos rfl).trans
        simp only [Trial.render, hk]
      · have hu : u ∈ done := by
          rcases List.mem_append.1 hu with hu | hu
          · exact hu
          · exact absurd (congrArg (·.source) (List.mem_singleton.1 hu)) he
        obtain ⟨host, l, hlen, hv⟩ := hr.written u hu k hul hk
        exact ⟨host, l, hlen, (if_neg he).trans hv⟩

theorem sound_rendering (legs : Legs) (host : Host) :
    (rendering trials legs host).Sound trials trials :=
  foldl_prefix (h.sound_start host) fun _ _ _ _ hs hr => h.sound_step steady hs hr

end Net.Trials
end Patchbay
