import Patchbay.Graph

/-!
# Channels

A channel hands compiled contexts from an editor to a renderer. The editor parks a fresh state
beside a context; the renderer takes it at the next block and hands the context it ran before, with
its state, back through a place for one. The editor frees what it finds there.
-/

namespace Patchbay

variable [Platform]

/-- A context with the state of its run. -/
structure Running where
  context : Context
  state : State

/-- A published context; its first state is there until the renderer takes it. -/
structure Installed where
  context : Context
  parked : Option State

/-- Both ends of a channel between two calls. -/
structure Channel where
  installed : Option Installed
  /-- What the renderer handed back and the editor has not freed yet. -/
  retired : Option Running
  active : Option Running
  /-- What the renderer could not hand back yet. -/
  backlog : Option Running

namespace Channel

variable (ch : Channel)

def empty : Channel := ⟨none, none, none, none⟩

def reclaim : Option Running × Channel := (ch.retired, { ch with retired := none })

def publish (context : Context) : Channel :=
  { ch.reclaim.2 with installed := some ⟨context, some (.fresh context.plan)⟩ }

/-- Takes the installed context back; the renderer falls silent. -/
def clear : Channel := { ch.reclaim.2 with installed := none }

def current : Option Context := ch.installed.map (·.context)

def activeContext : Option Context := ch.active.map (·.context)

def handBack : Channel :=
  match ch.backlog, ch.retired with
  | some r, none => { ch with retired := some r, backlog := none }
  | _, _ => ch

/-- Gives up a context, and with it anything still in the backlog. -/
def retire (r : Running) : Channel := ({ ch.handBack with backlog := some r }).handBack

/-- Brings the renderer to the installed context; the second part is what it ran before. -/
def switch : Channel × Option Running :=
  match ch.installed with
  | none => ({ ch with active := none }, ch.active)
  | some i =>
    if ch.active.any fun r => r.context.id == i.context.id then (ch, none)
    else
      let state := i.parked.getD (.fresh i.context.plan)
      ({ ch with installed := some { i with parked := none }
                 active := some ⟨i.context, state⟩ }, ch.active)

/-- The channel at the start of a block: what was left goes back, then the renderer switches. -/
def beforeBlock : Channel :=
  match ch.handBack.switch with
  | (ch, none) => ch
  | (ch, some previous) => ch.retire previous

/-- Runs one block of the installed context; without one there is no output. -/
def render (host : Host) (externals : Legs) : Channel × Host × Option Cells :=
  let ch := ch.beforeBlock
  match ch.active with
  | none => (ch, host, none)
  | some r =>
    let b := r.context.plan.run r.state host externals
    ({ ch with active := some { r with state := b.state } }, b.host, some b.output)

/-- Runs one block into a buffer of `length` cells and zeroes what the output does not cover. The
last part is the number of cells that it does cover. -/
def renderInto (length : Nat) (host : Host) (externals : Legs) : Channel × Host × Cells × Nat :=
  let (ch, host, output) := ch.render host externals
  let cells := (output.getD []).take length
  (ch, host, cells ++ List.replicate (length - cells.length) .zero, cells.length)

end Channel
end Patchbay
