import Patchbay.Channel.Calls
import Patchbay.Generator

/-! # The renderer makes nothing and frees nothing

A renderer may have to make a state, or to free one that it could not hand back. It never does:
while something waits to be freed by the editor, the renderer runs what is installed and has nothing
to give up; and when it has to change over, a state is parked and nothing waits.
-/

namespace Patchbay

section
variable [Platform]

namespace Channel
variable {ch : Channel}

/-! ### Upkeep is what the operations do -/

theorem switchUpkeep_fst (ch : Channel) : ch.switchUpkeep.1 = ch.switch := by
  unfold switchUpkeep switch
  cases ch.installed with
  | none => rfl
  | some i =>
    by_cases h : ch.active.any fun r => r.context.id == i.context.id
    · simp [h]
    · cases hp : i.parked <;> simp [h, hp, running]

theorem beforeBlockUpkeep_fst (ch : Channel) : ch.beforeBlockUpkeep.1 = ch.beforeBlock := by
  rw [beforeBlockUpkeep, beforeBlock, ← switchUpkeep_fst]
  rcases ch.handBack.switchUpkeep with ⟨⟨ch, _ | previous⟩, made⟩ <;> rfl

/-! ### A channel between two calls -/

/-- The renderer runs what is installed, or nothing when nothing is. -/
def InStep (ch : Channel) : Prop :=
  ch.active.map (·.context.id) = ch.installed.map (·.context.id)

def Parked (ch : Channel) : Prop := ∀ i, ch.installed = some i → i.parked.isSome

/-- Nothing is kept back, and either the renderer is in step, or a state is parked for it and the
place of the retired is free. -/
structure Tidy (ch : Channel) : Prop where
  backlog : ch.backlog = none
  ready : ch.InStep ∨ ch.Parked ∧ ch.retired = none

theorem tidy_empty : Channel.empty.Tidy := ⟨rfl, .inl rfl⟩

theorem handBack_of_backlog (h : ch.backlog = none) : ch.handBack = ch := by
  simp [handBack, h]

theorem switchUpkeep_of_inStep (h : ch.InStep) : ch.switchUpkeep = ((ch, none), []) := by
  obtain ⟨installed, retired, active, backlog⟩ := ch
  cases installed <;> cases active <;> simp_all [InStep, switchUpkeep]

/-- Out of step, the renderer takes what is parked and gives up what it ran. -/
theorem switchUpkeep_of_parked (hs : ¬ch.InStep) (hp : ch.Parked) :
    ∃ ch', ch.switchUpkeep = ((ch', ch.active), []) ∧ ch'.InStep ∧
      ch'.retired = ch.retired ∧ ch'.backlog = ch.backlog := by
  obtain ⟨installed, retired, active, backlog⟩ := ch
  cases installed with
  | none => exact ⟨_, rfl, rfl, rfl, rfl⟩
  | some i =>
    obtain ⟨state, hstate⟩ := Option.isSome_iff_exists.1 (hp i rfl)
    have other : ¬(active.any fun r => r.context.id == i.context.id) = true := by
      intro h
      apply hs
      cases active <;> simp_all [InStep]
    refine ⟨running ⟨some i, retired, active, backlog⟩ i state, ?_, rfl, rfl, rfl⟩
    simp [switchUpkeep, other, hstate]

theorem retireUpkeep_of_free (hb : ch.backlog = none) (hr : ch.retired = none) (r : Running) :
    ch.retireUpkeep r = ({ ch with retired := some r }, [.retired r]) := by
  simp [retireUpkeep, handBack, hb, hr]

def waiting (ch : Channel) : List Upkeep := ch.retired.toList.map .retired

/-- Before a block the renderer gets in step. All that this takes is to retire what it ran, if that
is not what is installed. -/
theorem Tidy.beforeBlockUpkeep (h : ch.Tidy) :
    ∃ ch' retired, ch.beforeBlockUpkeep = (ch', retired) ∧ ch'.InStep ∧ ch'.backlog = none ∧
      ch.waiting ++ retired = ch'.waiting ∧ (ch.InStep → retired = []) := by
  rw [Channel.beforeBlockUpkeep, handBack_of_backlog h.backlog]
  by_cases hs : ch.InStep
  · rw [switchUpkeep_of_inStep hs]
    exact ⟨ch, [], rfl, hs, h.backlog, List.append_nil _, fun _ => rfl⟩
  · obtain ⟨hp, free⟩ := h.ready.resolve_left hs
    obtain ⟨ch', switched, inStep, retired, backlog⟩ := switchUpkeep_of_parked hs hp
    rw [free] at retired
    rw [h.backlog] at backlog
    rw [switched]
    cases ch.active with
    | none => exact ⟨ch', [], rfl, inStep, backlog, by simp [waiting, free, retired], fun _ => rfl⟩
    | some previous =>
      dsimp only
      rw [retireUpkeep_of_free backlog retired]
      exact ⟨_, _, rfl, inStep, backlog, by simp [waiting, free], fun h => absurd h hs⟩

/-! ### Calls -/

theorem perform_of_renders {call : Call} (h : call.renders = true) (ch : Channel) :
    (call.perform ch).1.retired = ch.beforeBlock.retired ∧
      (call.perform ch).1.backlog = ch.beforeBlock.backlog ∧
      (ch.beforeBlock.InStep → (call.perform ch).1.InStep) := by
  have block (host : Host) (externals : Legs) :
      (ch.render host externals).1.retired = ch.beforeBlock.retired ∧
        (ch.render host externals).1.backlog = ch.beforeBlock.backlog ∧
        (ch.beforeBlock.InStep → (ch.render host externals).1.InStep) := by
    unfold Channel.render
    cases ha : ch.beforeBlock.active <;> simp [ha, InStep]
  cases call with
  | render host externals => exact block host externals
  | renderInto length host externals => exact block host externals
  | publish | clear | reclaim => cases h

section Call
variable {call : Call} (h : ch.Tidy)
include h

/-- A block leaves the renderer in step. All its upkeep waits for the editor, and there is none when
the renderer was in step before. -/
theorem Tidy.block (hr : call.renders = true) :
    (call.perform ch).1.Tidy ∧ (call.perform ch).1.InStep ∧
      ch.waiting ++ call.upkeep ch = (call.perform ch).1.waiting ∧
      (ch.InStep → call.upkeep ch = []) := by
  obtain ⟨ch', retired, before, inStep, backlog, waiting, idle⟩ := h.beforeBlockUpkeep
  have same : ch.beforeBlock = ch' := by rw [← beforeBlockUpkeep_fst, before]
  obtain ⟨hr', hb', hs'⟩ := perform_of_renders hr ch
  rw [same] at hr' hb' hs'
  have upkeep : call.upkeep ch = retired := by
    cases call with
    | render | renderInto => simp [Call.upkeep, before]
    | publish | clear | reclaim => cases hr
  rw [upkeep]
  refine ⟨⟨hb'.trans backlog, .inl (hs' inStep)⟩, hs' inStep, ?_, idle⟩
  rw [waiting, Channel.waiting, Channel.waiting, hr']

theorem Tidy.edit (hr : call.renders = false) :
    (call.perform ch).1.Tidy ∧ (call.perform ch).1.retired = none ∧
      call.upkeep ch = ch.retired.toList.map .released := by
  cases call with
  | publish context => exact ⟨⟨h.backlog, .inr ⟨by rintro i ⟨⟩; rfl, rfl⟩⟩, rfl, rfl⟩
  | clear => exact ⟨⟨h.backlog, .inr ⟨by rintro i ⟨⟩, rfl⟩⟩, rfl, rfl⟩
  | reclaim => exact ⟨⟨h.backlog, h.ready.imp id fun hp => ⟨hp.1, rfl⟩⟩, rfl, rfl⟩
  | render | renderInto => cases hr

end Call

theorem tidy_after (past : List Call) : (after past).Tidy := by
  induction past with
  | nil => exact tidy_empty
  | cons call past ih =>
    cases hr : call.renders with
    | true => exact (ih.block hr).1
    | false => exact (ih.edit hr).1

def handedBack (r : Running) : List Upkeep := [.retired r, .released r]

/-- The upkeep of any calls is one pair after the other, each given up and freed before the next.
The last one may still wait. -/
theorem exists_handedBack (past : List Call) :
    ∃ rs : List Running, upkeep past = rs.flatMap handedBack ++ (after past).waiting := by
  induction past with
  | nil => exact ⟨[], rfl⟩
  | cons call past ih =>
    obtain ⟨rs, hrs⟩ := ih
    rw [upkeep, after, hrs, List.append_assoc]
    cases hr : call.renders with
    | true => exact ⟨rs, by rw [((tidy_after past).block hr).2.2.1]⟩
    | false =>
      obtain ⟨_, free, freed⟩ := (tidy_after past).edit hr
      refine ⟨rs ++ (after past).retired.toList, ?_⟩
      rw [freed, waiting, waiting, free]
      cases (after past).retired <;> simp [handedBack]

/-- Once the renderer is in step, blocks leave alone what waits for the editor. -/
theorem waiting_of_blocks {past later : List Call} (h : (after past).InStep)
    (hl : ∀ call ∈ later, call.renders = true) :
    (after (later ++ past)).InStep ∧ (after (later ++ past)).waiting = (after past).waiting := by
  induction later with
  | nil => exact ⟨h, rfl⟩
  | cons call later ih =>
    rw [List.forall_mem_cons] at hl
    obtain ⟨inStep, waiting⟩ := ih hl.2
    obtain ⟨_, next, handed, idle⟩ := (tidy_after (later ++ past)).block hl.1
    rw [idle inStep, List.append_nil] at handed
    exact ⟨next, handed.symm.trans waiting⟩

/-- What a block gives up is what the next call of the editor frees, however many blocks lie between
them. -/
theorem released_of_retired {past later : List Call} {block call : Call} {r : Running}
    (hb : block.renders = true) (hr : .retired r ∈ block.upkeep (after past))
    (hl : ∀ call ∈ later, call.renders = true) (hc : call.renders = false) :
    call.upkeep (after (later ++ block :: past)) = [.released r] := by
  obtain ⟨_, inStep, handed, _⟩ := (tidy_after past).block hb
  have waits : .retired r ∈ (after (block :: past)).waiting :=
    handed ▸ List.mem_append_right _ hr
  change (after (block :: past)).InStep at inStep
  rw [← (waiting_of_blocks inStep hl).2] at waits
  rw [((tidy_after (later ++ block :: past)).edit hc).2.2]
  cases he : (after (later ++ block :: past)).retired <;> simp_all [waiting]

/-- A renderer that changes over was out of step, so a state is parked and no place is taken. -/
theorem Tidy.parked_of_switch (h : ch.Tidy) {i : Installed} (hi : ch.installed = some i)
    (other : (ch.active.any fun r => r.context.id == i.context.id) = false) :
    i.parked.isSome := by
  refine (h.ready.resolve_left fun hs => ?_).1 i hi
  cases ha : ch.active <;> simp_all [InStep]

theorem Tidy.free_of_switch (h : ch.Tidy) {ch' : Channel} {r : Running}
    (hs : ch.switch = (ch', some r)) : ch'.retired = none ∧ ch'.backlog = none := by
  rw [← switchUpkeep_fst] at hs
  have out : ¬ch.InStep := fun h => by simp [switchUpkeep_of_inStep h] at hs
  obtain ⟨hp, free⟩ := h.ready.resolve_left out
  obtain ⟨next, switched, -, retired, backlog⟩ := switchUpkeep_of_parked out hp
  obtain ⟨rfl, -⟩ : next = ch' ∧ ch.active = some r := by simpa [switched] using hs
  exact ⟨retired.trans free, backlog.trans h.backlog⟩

/-- Whatever is called in whatever order, the renderer makes no state and frees nothing: when it
changes over, a state is parked, and when it gives up what it ran, the place for that is free.
Nothing is kept back after any call. What the renderer gave up is freed once, by the next call of
the editor. The account is of the very channel that a block starts from. -/
theorem upkeep_off_renderer (past : List Call) :
    (after past).beforeBlockUpkeep.1 = (after past).beforeBlock ∧
    (∀ context, .made context ∉ upkeep past) ∧ (∀ r, .dropped r ∉ upkeep past) ∧
    (∀ i, (after past).handBack.installed = some i →
      ((after past).handBack.active.any fun r => r.context.id == i.context.id) = false →
      i.parked.isSome) ∧
    (∀ ch r, (after past).handBack.switch = (ch, some r) → ch.retired = none ∧ ch.backlog = none) ∧
    (after past).backlog = none ∧
    (∃ rs : List Running, upkeep past = rs.flatMap handedBack ++ (after past).waiting) ∧
    ∀ (later : List Call) (block call : Call) (r : Running), block.renders = true →
      .retired r ∈ block.upkeep (after past) →
      (∀ call ∈ later, call.renders = true) → call.renders = false →
      call.upkeep (after (later ++ block :: past)) = [.released r] := by
  have tidy := tidy_after past
  obtain ⟨rs, hrs⟩ := exists_handedBack past
  rw [handBack_of_backlog tidy.backlog]
  refine ⟨beforeBlockUpkeep_fst _, ?_, ?_, fun i hi => tidy.parked_of_switch hi,
    fun ch r => tidy.free_of_switch, tidy.backlog, ⟨rs, hrs⟩, fun _ _ _ _ => released_of_retired⟩
  · simp [hrs, handedBack, waiting]
  · simp [hrs, handedBack, waiting]

end Channel

end

namespace Channel

def vacant (id : ContextId) : Context := ⟨id, ⟨[], [], [], 0⟩⟩

/-- Two blocks after another context is published, the first one is still there to be freed, with
the state that its only block left. -/
theorem upkeep_off_renderer_vacant :
    let r : Running := ⟨vacant 0, ((vacant 0).plan.run (.fresh (vacant 0).plan) .detached []).state⟩
    let block : Call := .render .detached []
    let past : List Call := [.publish (vacant 1), block, .publish (vacant 0)]
    .retired r ∈ block.upkeep (after past) ∧
      Call.reclaim.upkeep (after ([block] ++ block :: past)) = [.released r] := by
  intro r block past
  have retired : .retired r ∈ block.upkeep (after past) := List.mem_singleton.2 rfl
  exact ⟨retired, (upkeep_off_renderer past).2.2.2.2.2.2.2 [block] block .reclaim r rfl retired
    (by simp [block, Call.renders]) rfl⟩

end Channel
end Patchbay
