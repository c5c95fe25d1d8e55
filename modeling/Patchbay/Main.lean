import Patchbay.Command
import Patchbay.Generator

/-!
# The program

Reads the files that a command looks at, runs the command and prints what it says.
-/

open Patchbay

/-- Opens what stands at a path. What opens but does not read as text counts as a directory. -/
def entryAt (path : String) : IO (Option Files.Entry) := do
  let opened ← (IO.FS.Handle.mk path .read).toBaseIO
  match opened with
  | .error _ => return none
  | .ok handle =>
    match ← handle.readToEnd.toBaseIO with
    | .ok text => return some (.file text)
    | .error _ => return some .directory

def userHome : IO Home := do
  match (← IO.getEnv "XDG_CONFIG_HOME").filter Path.isAbsolute, ← IO.getEnv "HOME" with
  | some base, _ => return ⟨base⟩
  | none, some home => return ⟨Path.join home ".config"⟩
  | none, none => return ⟨"."⟩

def usage : List String :=
  ["Usage: waviate [--config FILE] <COMMAND>", "", "Commands:",
    "  operators [OPERATOR] [-c CATEGORY]", "  check <PATCH> [--steps] [--strict]",
    "  run <PATCH> [-n BLOCKS] [--block-size N] [--sample-rate N] [--seed N] [--note NOTE]...",
    "      [--json] [--quiet]"]

def runRequest (request : Command.Request) : IO UInt32 := do
  let home ← userHome
  let found ← (Command.paths home request).mapM fun path => do return (path, ← entryAt path)
  let outcome := Command.run home (fun path => (found.lookup path).join) request
  outcome.lines.forM IO.println
  match outcome.error with
  | none => return 0
  | some e => IO.eprintln ("Error: " ++ e.message); return 1

def main (args : List String) : IO UInt32 := do
  match Command.wish args with
  | .request request => runRequest request
  | .help => usage.forM IO.println; return 0
  | .version => IO.println Command.version; return 0
  | .usageError => usage.forM IO.eprintln; return 2
