import Patchbay.Channel

/-!
# Calls on a channel

The editor publishes, clears and reclaims, and the renderer renders, in any order. Beside the answer
of a call stands its upkeep: which states and contexts it makes, hands on or frees.
-/

namespace Patchbay

variable [Platform]

/-- What becomes of a context and its state besides being run. -/
inductive Upkeep where
  /-- The renderer makes a state, for want of a parked one. -/
  | made (context : Context)
  /-- The renderer gives up what it ran. -/
  | retired (r : Running)
  /-- The renderer frees what it could not hand back. -/
  | dropped (r : Running)
  /-- The editor frees what was handed back. -/
  | released (r : Running)

namespace Channel

/-! ### The upkeep of a block -/

section Upkeep
variable (ch : Channel)

def running (i : Installed) (state : State) : Channel :=
  { ch with installed := some { i with parked := none }, active := some ⟨i.context, state⟩ }

def switchUpkeep : (Channel × Option Running) × List Upkeep :=
  match ch.installed with
  | none => (({ ch with active := none }, ch.active), [])
  | some i =>
    if ch.active.any fun r => r.context.id == i.context.id then ((ch, none), [])
    else
      match i.parked with
      | some state => ((ch.running i state, ch.active), [])
      | none => ((ch.running i (.fresh i.context.plan), ch.active), [.made i.context])

def retireUpkeep (r : Running) : Channel × List Upkeep :=
  (({ ch.handBack with backlog := some r }).handBack,
    .retired r :: ch.handBack.backlog.toList.map .dropped)

/-- `beforeBlock`, with all that the renderer makes, gives up and frees. -/
def beforeBlockUpkeep : Channel × List Upkeep :=
  match ch.handBack.switchUpkeep with
  | ((ch, none), made) => (ch, made)
  | ((ch, some previous), made) =>
    let (ch, retired) := ch.retireUpkeep previous
    (ch, made ++ retired)

def reclaimUpkeep : List Upkeep := ch.reclaim.1.toList.map .released

end Upkeep

/-! ### Calls -/

/-- What can be asked of either end. -/
inductive Call where
  | publish (context : Context)
  | clear
  | reclaim
  | render (host : Host) (externals : Legs)
  | renderInto (length : Nat) (host : Host) (externals : Legs)

/-- What a call answers. -/
inductive Answer where
  | done
  | reclaimed (waiting : Bool)
  | rendered (host : Host) (output : Option Cells)
  | filled (host : Host) (cells : Cells) (count : Nat)

namespace Call

/-- Whether the renderer makes the call, and not the editor. -/
def renders : Call → Bool
  | render _ _ | renderInto _ _ _ => true
  | publish _ | clear | reclaim => false

def perform (ch : Channel) : Call → Channel × Answer
  | publish context => (ch.publish context, .done)
  | clear => (ch.clear, .done)
  | reclaim => (ch.reclaim.2, .reclaimed ch.reclaim.1.isSome)
  | render host externals =>
    let (ch, host, output) := ch.render host externals
    (ch, .rendered host output)
  | renderInto length host externals =>
    let (ch, host, cells, count) := ch.renderInto length host externals
    (ch, .filled host cells count)

def upkeep (ch : Channel) : Call → List Upkeep
  | publish _ | clear | reclaim => ch.reclaimUpkeep
  | render _ _ | renderInto _ _ _ => ch.beforeBlockUpkeep.2

end Call

/-! ### Sequences of calls, the latest first -/

def after : List Call → Channel
  | [] => .empty
  | call :: past => (call.perform (after past)).1

def upkeep : List Call → List Upkeep
  | [] => []
  | call :: past => upkeep past ++ call.upkeep (after past)

def outputs : List Call → List Answer
  | [] => []
  | call :: past =>
    if call.renders then (call.perform (after past)).2 :: outputs past else outputs past

end Channel
end Patchbay
