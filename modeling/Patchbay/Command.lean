import Patchbay.Channel
import Patchbay.Command.Arguments
import Patchbay.Command.Listing
import Patchbay.Storage

/-!
# Commands

A command lists operators, checks a patch, or renders blocks of it. It looks at files, prints lines
and may end with an error after some of them.
-/

namespace Patchbay

variable [Platform]

/-- Why a command failed. -/
inductive CommandError where
  | unknownOperator (name : String)
  | unknownCategory (name : String)
  | patchNotFound (name : String)
  | storage (cause : StorageError)
  | compile (cause : CompileError)
  | faulted (count : Nat)
deriving DecidableEq

def CommandError.message : CommandError → String
  | unknownOperator name => "Unknown operator: " ++ name
  | unknownCategory name => "Unknown category: " ++ name
  | patchNotFound name => "Patch '" ++ name ++ "' not found"
  | storage cause => cause.message
  | compile cause => cause.message
  | faulted count => toString count ++ " faulted node(s)"

namespace Command

/-- The lines that were printed, and the error that came after them. -/
structure Outcome where
  lines : List String
  error : Option CommandError

def Outcome.ofExcept : Except CommandError (List String) → Outcome
  | .ok lines => ⟨lines, none⟩
  | .error e => ⟨[], some e⟩

/-! ### Operators -/

/-- The first operator of that name, whatever the case of its letters. -/
def findOperator? (catalog : Catalog) (name : String) : Option Operator :=
  let folded (s : String) := s.toList.map Char.toLower
  catalog.operators.find? fun op => folded op.name == folded name

/-- Describes one operator, or lists those of one category or of all. -/
def listOperators (catalog : Catalog) (name category : Option String) :
    Except CommandError (List String) :=
  match name, category with
  | some name, _ =>
    match findOperator? catalog name with
    | some op => .ok (operatorLines op)
    | none => .error (.unknownOperator name)
  | none, some category =>
    match Category.ofName? category with
    | some c => .ok (catalogLines catalog [c])
    | none => .error (.unknownCategory category)
  | none, none => .ok (catalogLines catalog Category.all)

/-! ### Patches -/

/-- A patch with its graph, the cells for its inputs and its plan. -/
structure Compiled where
  patch : Patch
  net : Net
  externals : Legs
  plan : Plan

def compile (home : Home) (look : Look) (name : String) : Except CommandError Compiled := do
  let path := (home.findPatch? look name).getD name
  if (look path).isNone then .error (.patchNotFound name)
  let patch ← (Patch.load look path).mapError .storage
  let net ← (patch.build Builtin.catalog).mapError .storage
  let externals := patch.externalCells net
  let plan ← (net.compile patch.output externals).mapError .compile
  .ok ⟨patch, net, externals, plan⟩

/-- Describes what a patch compiles to. Its faults are an error only if that is asked for. -/
def check (c : Compiled) (steps strict : Bool) : Outcome :=
  let faults := c.plan.faults
  let lines := planLines c.patch.name c.patch.description c.net c.plan ++
    (if steps then headedLines "Steps:" c.plan.listing else []) ++
    (if faults.isEmpty then [] else headedLines "Faults:" (faults.map Plan.faultText))
  ⟨lines, if strict ∧ !faults.isEmpty then some (.faulted faults.length) else none⟩

def Rendering.engine (r : Rendering) (e : Engine) : Engine :=
  { e with
    blockSize := r.blockSize.getD e.blockSize
    sampleRate := r.sampleRate.getD e.sampleRate
    seed := r.seed.getD e.seed }

/-- The outputs of some blocks in a row. The stream advances after each. -/
def renderBlocks (advance : Nat) (externals : Legs) : Nat → Channel → Host → List Cells
  | 0, _, _ => []
  | n + 1, ch, host =>
    let (ch, host, out) := ch.render host externals
    out.getD [] :: renderBlocks advance externals n ch (host.update (·.advance advance))

/-- Renders blocks with some notes held; a quiet run prints none of them. -/
def render (c : Compiled) (e : Engine) (r : Rendering) : List String :=
  let stream := r.notes.foldl (fun s n => s.setNote n true)
    (Stream.start e.hertz (UInt64.ofNat e.seed))
  let ch := Channel.empty.publish ⟨0, c.plan⟩
  if r.quiet then []
  else (renderBlocks e.blockSize c.externals r.blocks ch (.stream stream)).map
    (blockLine r.json c.plan.outputKind)

/-! ### Running -/

def paths (home : Home) (request : Request) : List String :=
  request.settings.getD home.engine :: match request.action with
    | .operators _ _ => []
    | .check patch _ _ => [patch, home.patchPath patch]
    | .render r => [r.patch, home.patchPath r.patch]

def act (home : Home) (look : Look) (engine : Engine) : Action → Outcome
  | .operators name category => .ofExcept (listOperators Builtin.catalog name category)
  | .check patch steps strict =>
    match compile home look patch with
    | .ok c => check c steps strict
    | .error e => ⟨[], some e⟩
  | .render r =>
    let e := r.engine engine
    .ofExcept do
      (e.check.mapError .setting).mapError .storage
      let c ← compile home look r.patch
      .ok (render c e r)

/-- Runs a request. The settings are read first, whatever the action. -/
def run (home : Home) (look : Look) (request : Request) : Outcome :=
  match Engine.loadOrDefault look (request.settings.getD home.engine) with
  | .ok engine => act home look engine request.action
  | .error e => ⟨[], some (.storage e)⟩

end Command
end Patchbay
