import Mathlib.Data.List.Permutation
import Patchbay.Channel.Calls
import Patchbay.Generator

/-! # What a render gives

A render runs the context that was published last, on the state that the render before it left if
that one ran the same context. What the editor reclaims makes no difference to any of that.
-/

namespace Patchbay

section
variable [Platform]

namespace Channel
variable {ch ch' : Channel} {past : List Call}

/-! ### What calls amount to -/

/-- The context that was published last, if it was not taken back since. -/
def latest : List Call → Option Context
  | [] => none
  | .publish context :: _ => some context
  | .clear :: _ => none
  | .reclaim :: past | .render _ _ :: past | .renderInto _ _ _ :: past => latest past

/-- The state for a block of a context, after a block that ran some context and left some state. -/
def stateFor (previous : Option Running) (context : Context) : State :=
  match previous with
  | some r => if r.context.id = context.id then r.state else .fresh context.plan
  | none => .fresh context.plan

def ran : List Call → Option Running
  | [] => none
  | .publish _ :: past | .clear :: past | .reclaim :: past => ran past
  | .render host externals :: past | .renderInto _ host externals :: past =>
    (latest past).map fun context =>
      ⟨context, (context.plan.run (stateFor (ran past) context) host externals).state⟩

/-- What a render gives after some calls: the host, and the output if there is a context. -/
def rendering (past : List Call) (host : Host) (externals : Legs) : Host × Option Cells :=
  match latest past with
  | none => (host, none)
  | some context =>
    let b := context.plan.run (stateFor (ran past) context) host externals
    (b.host, some b.output)

/-- No two contexts were published under one identity. -/
def OneCompile (past : List Call) : Prop :=
  ∀ c c', .publish c ∈ past → .publish c' ∈ past → c.id = c'.id → c = c'

theorem OneCompile.of_cons {call : Call} (h : OneCompile (call :: past)) : OneCompile past :=
  fun c c' hc hc' => h c c' (List.mem_cons_of_mem _ hc) (List.mem_cons_of_mem _ hc')

def Call.installs : Call → Bool
  | publish _ | clear => true
  | reclaim | render _ _ | renderInto _ _ _ => false

theorem exists_of_latest {c : Context} (h : latest past = some c) :
    ∃ later earlier, past = later ++ .publish c :: earlier ∧
      ∀ call ∈ later, call.installs = false := by
  induction past with
  | nil => cases h
  | cons call past ih =>
    cases call with
    | publish context =>
      cases h
      exact ⟨[], past, rfl, by simp⟩
    | clear => cases h
    | reclaim | render | renderInto =>
      obtain ⟨later, earlier, rfl, hl⟩ := ih h
      exact ⟨_ :: later, earlier, rfl, List.forall_mem_cons.2 ⟨rfl, hl⟩⟩

theorem latest_isSome {later earlier : List Call} {c : Context} (h : .clear ∉ later) :
    (latest (later ++ .publish c :: earlier)).isSome := by
  induction later with
  | nil => rfl
  | cons call later ih => cases call <;> simp_all [latest]

theorem latest_eq_none_iff : latest past = none ↔
    ∀ later c earlier, past = later ++ .publish c :: earlier → .clear ∈ later := by
  constructor
  · rintro h later c earlier rfl
    refine Classical.byContradiction fun hc => ?_
    have some : (latest (later ++ .publish c :: earlier)).isSome := latest_isSome hc
    simp [h] at some
  · intro h
    cases hc : latest past with
    | none => rfl
    | some c =>
      obtain ⟨later, earlier, rfl, hl⟩ := exists_of_latest hc
      cases hl _ (h later c earlier rfl)

theorem mem_of_latest {c : Context} (h : latest past = some c) : .publish c ∈ past := by
  obtain ⟨later, earlier, rfl, -⟩ := exists_of_latest h
  simp

theorem mem_of_ran {r : Running} (h : ran past = some r) : .publish r.context ∈ past := by
  induction past with
  | nil => cases h
  | cons call past ih =>
    apply List.mem_cons_of_mem
    cases call with
    | publish | clear | reclaim => exact ih h
    | render | renderInto =>
      obtain ⟨c, hc, rfl⟩ := Option.map_eq_some_iff.1 h
      exact mem_of_latest hc

/-! ### What was given up makes no difference -/

/-- Two channels that differ at most in what was given up. -/
def SameRun (ch ch' : Channel) : Prop := ch.installed = ch'.installed ∧ ch.active = ch'.active

theorem SameRun.switch (h : ch.SameRun ch') : ch.switch.1.SameRun ch'.switch.1 := by
  obtain ⟨i, _, a, _⟩ := ch
  obtain ⟨i', _, a', _⟩ := ch'
  obtain ⟨rfl, rfl⟩ : i = i' ∧ a = a' := h
  cases i with
  | none => exact ⟨rfl, rfl⟩
  | some i =>
    by_cases same : a.any fun r => r.context.id == i.context.id <;>
      simp [Channel.switch, SameRun, same]

theorem sameRun_handBack (ch : Channel) : ch.handBack.SameRun ch := by
  unfold handBack
  split <;> exact ⟨rfl, rfl⟩

theorem sameRun_retire (ch : Channel) (r : Running) : (ch.retire r).SameRun ch := by
  obtain ⟨installed, active⟩ := sameRun_handBack { ch.handBack with backlog := some r }
  obtain ⟨installed', active'⟩ := sameRun_handBack ch
  exact ⟨installed.trans installed', active.trans active'⟩

theorem sameRun_beforeBlock (ch : Channel) : ch.beforeBlock.SameRun ch.switch.1 := by
  obtain ⟨installed, active⟩ := (sameRun_handBack ch).switch
  unfold beforeBlock
  split
  · rename_i next switched
    rw [switched] at installed active
    exact ⟨installed, active⟩
  · rename_i next previous switched
    rw [switched] at installed active
    obtain ⟨installed', active'⟩ := sameRun_retire next previous
    exact ⟨installed'.trans installed, active'.trans active⟩

theorem SameRun.beforeBlock (h : ch.SameRun ch') : ch.beforeBlock.SameRun ch'.beforeBlock := by
  obtain ⟨installed, active⟩ := sameRun_beforeBlock ch
  obtain ⟨installed', active'⟩ := sameRun_beforeBlock ch'
  obtain ⟨installed'', active''⟩ := h.switch
  exact ⟨(installed.trans installed'').trans installed'.symm,
    (active.trans active'').trans active'.symm⟩

theorem SameRun.render (h : ch.SameRun ch') (host : Host) (externals : Legs) :
    (ch.render host externals).1.SameRun (ch'.render host externals).1 ∧
      (ch.render host externals).2 = (ch'.render host externals).2 := by
  obtain ⟨installed, active⟩ := h.beforeBlock
  simp only [Channel.render, SameRun, active]
  cases ch'.beforeBlock.active <;> simp [installed, active]

theorem SameRun.perform (h : ch.SameRun ch') (call : Call) :
    (call.perform ch).1.SameRun (call.perform ch').1 ∧
      (call.renders = true → (call.perform ch).2 = (call.perform ch').2) := by
  cases call with
  | publish | clear => exact ⟨⟨rfl, h.2⟩, fun h => by cases h⟩
  | reclaim => exact ⟨h, fun h => by cases h⟩
  | render host externals =>
    obtain ⟨run, answer⟩ := h.render host externals
    exact ⟨run, fun _ => by simp [Call.perform, answer]⟩
  | renderInto length host externals =>
    obtain ⟨run, answer⟩ := h.render host externals
    exact ⟨run, fun _ => by simp [Call.perform, Channel.renderInto, answer]⟩

def Call.reclaims : Call → Bool
  | reclaim => true
  | publish _ | clear | render _ _ | renderInto _ _ _ => false

theorem outputs_filter (past : List Call) :
    (after (past.filter fun call => !call.reclaims)).SameRun (after past) ∧
      outputs (past.filter fun call => !call.reclaims) = outputs past := by
  induction past with
  | nil => exact ⟨⟨rfl, rfl⟩, rfl⟩
  | cons call past ih =>
    obtain ⟨run, same⟩ := ih
    cases hc : call.reclaims with
    | true =>
      cases call with
      | reclaim => simpa [Call.reclaims, outputs, Call.renders] using ⟨run, same⟩
      | publish | clear | render | renderInto => cases hc
    | false =>
      obtain ⟨run, answer⟩ := run.perform call
      rw [List.filter_cons_of_pos (by simp [hc])]
      refine ⟨run, ?_⟩
      cases hr : call.renders <;> simp [outputs, hr, same, answer]

/-! ### What a block runs -/

/-- What is parked is a state before the first block. -/
def ParkedFresh (ch : Channel) : Prop :=
  ∀ i, ch.installed = some i → ∀ s, i.parked = some s → s = .fresh i.context.plan

/-- A channel on which the calls have left what they should. -/
structure Follows (ch : Channel) (past : List Call) : Prop where
  current : ch.current = latest past
  active : ch.active = ran past
  parked : ch.ParkedFresh

theorem Follows.empty : Channel.empty.Follows [] := ⟨rfl, rfl, by rintro i ⟨⟩⟩

/-- Before a block, the renderer comes to run the latest context on the right state. -/
theorem Follows.switch (h : ch.Follows past) (one : OneCompile past) :
    ch.switch.1.current = latest past ∧
      ch.switch.1.active = ((latest past).map fun c => ⟨c, stateFor (ran past) c⟩) ∧
      ch.switch.1.ParkedFresh := by
  have published := h.current
  unfold Channel.switch
  cases hi : ch.installed with
  | none => simp [Channel.current, ParkedFresh, hi, ← published]
  | some i =>
    rw [Channel.current, hi, Option.map_some, eq_comm] at published
    by_cases same : ch.active.any fun r => r.context.id == i.context.id
    · -- the same identity is the same context, so its state is the one to go on with
      cases ha : ch.active with
      | none => simp [ha] at same
      | some r =>
        have hid : r.context.id = i.context.id := by simpa [ha] using same
        have played : ran past = some r := h.active.symm.trans ha
        have context := one _ _ (mem_of_ran played) (mem_of_latest published) hid
        simp [Channel.current, published, played, ha, stateFor, ← context, hi, h.parked]
    · have fresh : i.parked.getD (.fresh i.context.plan) = .fresh i.context.plan := by
        cases hp : i.parked with
        | none => rfl
        | some s => exact h.parked i hi s hp
      have other : stateFor (ran past) i.context = .fresh i.context.plan := by
        rw [← h.active]
        cases ha : ch.active <;> simp_all [stateFor]
      simp [Channel.current, ParkedFresh, same, published, other, fresh]

/-- A block of the latest context leaves the channel in order and gives what it should. -/
theorem Follows.render (h : ch.Follows past) (one : OneCompile past) (host : Host)
    (externals : Legs) :
    (ch.render host externals).1.Follows (.render host externals :: past) ∧
      (ch.render host externals).2 = rendering past host externals := by
  obtain ⟨installed, active⟩ := sameRun_beforeBlock ch
  obtain ⟨current, running, parked⟩ := h.switch one
  rw [Channel.current, ← installed] at current
  rw [← active] at running
  rw [ParkedFresh, ← installed] at parked
  cases hl : latest past with
  | none =>
    rw [hl] at current running
    simp only [Channel.render, running, Option.map_none]
    exact ⟨⟨by simp [Channel.current, latest, current, hl], by simp [ran, running, hl], parked⟩,
      by simp [rendering, hl]⟩
  | some c =>
    rw [hl] at current running
    simp only [Channel.render, running, Option.map_some]
    exact ⟨⟨by simp [Channel.current, latest, current, hl], by simp [ran, hl], parked⟩,
      by simp [rendering, hl]⟩

theorem Follows.perform (h : ch.Follows past) (one : OneCompile past) (call : Call) :
    (call.perform ch).1.Follows (call :: past) := by
  cases call with
  | publish context => exact ⟨rfl, h.active, by rintro i ⟨⟩ s ⟨⟩; rfl⟩
  | clear => exact ⟨rfl, h.active, by rintro i ⟨⟩⟩
  | reclaim => exact ⟨h.current, h.active, h.parked⟩
  | render host externals => exact (h.render one host externals).1
  | renderInto length host externals =>
    obtain ⟨current, active, parked⟩ := (h.render one host externals).1
    exact ⟨current, active, parked⟩

theorem follows_after (one : OneCompile past) : (after past).Follows past := by
  induction past with
  | nil => exact .empty
  | cons call past ih => exact (ih one.of_cons).perform one.of_cons call

/-! ### Renders -/

/-- A buffer is filled with what a render gives, and with zeros where that ends. -/
theorem renderInto_eq (ch : Channel) (length : Nat) (host : Host) (externals : Legs) :
    let output := (ch.render host externals).2.2.getD []
    (ch.renderInto length host externals).2.2.2 = min length output.length ∧
      ∀ k, (ch.renderInto length host externals).2.2.1[k]? =
        if k < length then some (output[k]?.getD .zero) else none := by
  intro output
  refine ⟨List.length_take, fun k => ?_⟩
  change (output.take length ++
    List.replicate (length - (output.take length).length) Cell.zero)[k]? = _
  rw [List.getElem?_append, List.length_take, List.getElem?_take, List.getElem?_replicate]
  grind

/-- A render gives nothing if nothing was published since the last clear. Otherwise it gives a block
of the context published last, on the state that the last render left if that one ran the same
context and on a fresh one if not, and that context is then the active one. Calls that only free
make no difference. -/
theorem render_handoff (past : List Call) (one : OneCompile past) (host : Host)
    (externals : Legs) :
    ((after past).render host externals).2 = rendering past host externals ∧
    ((after past).render host externals).1.activeContext = latest past ∧
    (((after past).render host externals).2.2 = none ↔
      ∀ later c earlier, past = later ++ .publish c :: earlier → .clear ∈ later) ∧
    (∀ length, let filled := (after past).renderInto length host externals
      let output := (rendering past host externals).2.getD []
      filled.1.activeContext = latest past ∧
        filled.2.1 = (rendering past host externals).1 ∧
        filled.2.2.2 = min length output.length ∧
        ∀ k, filled.2.2.1[k]? = if k < length then some (output[k]?.getD .zero) else none) ∧
    outputs (past.filter fun call => !call.reclaims) = outputs past := by
  obtain ⟨follows, answer⟩ := (follows_after one).render one host externals
  have active : ((after past).render host externals).1.activeContext = latest past := by
    rw [activeContext, follows.active, ran]
    cases latest past <;> rfl
  have silent : ((after past).render host externals).2.2 = none ↔ latest past = none := by
    rw [answer, rendering]
    cases latest past <;> simp
  refine ⟨answer, active, silent.trans latest_eq_none_iff, fun length => ?_,
    (outputs_filter past).2⟩
  obtain ⟨count, cells⟩ := renderInto_eq (after past) length host externals
  rw [answer] at count cells
  exact ⟨active, congrArg Prod.fst answer, count, cells⟩

end Channel

end

namespace Channel

/-- A plan that gives in each block what it read in the block before. -/
def echo (id : ContextId) : Context :=
  ⟨id, ⟨[⟨0, .input (.builtin 2), .empty, .any, ⟨0, 1⟩, false, none, none⟩],
    [.convert ⟨1, 1⟩ ⟨0, 1⟩ .any .any, .read 0 (some 0) .zero ⟨1, 1⟩], [.zero, .zero], 0⟩⟩

/-- The second block of a context gives what its first one read, though the context was published
again in between and another one had run before. -/
theorem render_handoff_echo :
    let past : List Call := [.publish (echo 0), .reclaim, .render .detached [[⟨5⟩]],
      .publish (echo 0), .render .detached [[⟨3⟩]], .publish (echo 1)]
    OneCompile past ∧
      ((after past).render .detached [[⟨7⟩]]).2 = (.detached, some [⟨5⟩]) := by
  intro past
  have one : OneCompile past := by
    intro c c' hc hc' hid
    have named d (hd : .publish d ∈ past) : d = echo d.id := by
      obtain rfl | rfl | rfl : d = echo 0 ∨ d = echo 0 ∨ d = echo 1 := by simpa [past] using hd
      all_goals rfl
    rw [named c hc, named c' hc', hid]
  refine ⟨one, (render_handoff past one .detached [[⟨7⟩]]).1.trans ?_⟩
  cbv

end Channel
end Patchbay
