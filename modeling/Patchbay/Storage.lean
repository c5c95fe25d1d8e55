import Patchbay.Engine
import Patchbay.Files
import Patchbay.Patch.Check
import Patchbay.Patch.Toml

/-!
# Stored patches and settings

Patches and engine settings are files. Patches that are not found where their name says are looked
for among the patches of the user.
-/

namespace Patchbay

variable [Platform]

/-- Why a file was not stored or not taken. -/
inductive StorageError where
  | unreadable (path : String)
  | notWritten (path : String)
  | noDirectory (path : String)
  /-- A text is no document, or one of another shape. -/
  | malformed
  /-- A number has no place in a document. -/
  | noText
  | setting (flaw : SettingFlaw)
  | rejected (cause : Rejection)
  | refused (cause : GraphError)
deriving DecidableEq

def StorageError.message : StorageError → String
  | unreadable path => "failed to read file '" ++ path ++ "'"
  | notWritten path => "failed to write file '" ++ path ++ "'"
  | noDirectory path => "failed to create directory '" ++ path ++ "'"
  | malformed => "failed to parse TOML"
  | noText => "failed to serialize TOML"
  | setting flaw => flaw.message
  | rejected cause => "validation failed: " ++ cause.message
  | refused cause => "graph rejected patch: " ++ cause.message

abbrev Look := String → Option Files.Entry

/-! ### Places -/

/-- Where the configuration of the user lies. -/
structure Home where
  base : String
deriving DecidableEq

namespace Home

variable (home : Home)

def directory : String := Path.join home.base "waviate"

def patches : String := Path.join home.directory "patches"

def engine : String := Path.join home.directory "engine.toml"

/-- Where a patch of the user with this name lies; the extension may be left out. -/
def patchPath (name : String) : String :=
  Path.join home.patches (if name.endsWith ".toml" then name else name ++ ".toml")

def findPatch? (look : Look) (name : String) : Option String :=
  [name, home.patchPath name].find? fun path => (look path).any Files.Entry.isFile

end Home

/-! ### Reading and writing -/

def orError {α : Type} (e : StorageError) (x : Option α) : Except StorageError α :=
  x.elim (.error e) .ok

def readText (look : Look) (path : String) : Except StorageError String :=
  match look path with
  | some (.file text) => .ok text
  | _ => .error (.unreadable path)

/-- An attempt to store something. What was made on the way stays when the attempt fails. -/
abbrev Storing := EStateM StorageError Files

def Files.provide (path : String) : Storing Unit := do
  let fs ← get
  if (fs.entry? path).isNone then
    let (fs, made) := fs.makeDirectories path
    set fs
    if !made then throw (.noDirectory path)

def Files.save (path text : String) : Storing Unit := do
  let parent := Path.parent path
  if parent ≠ "" then Files.provide parent
  match (← get).write? path text with
  | some fs => set fs
  | none => throw (.notWritten path)

/-- Makes the directory for the patches of the user unless something stands there. -/
def Files.providePatches (home : Home) : Storing Unit := Files.provide home.patches

namespace Patch

def read (text : String) : Except StorageError Patch := orError .malformed (ofToml? text)

def write (patch : Patch) : Except StorageError String := orError .noText patch.toToml?

def load (look : Look) (path : String) : Except StorageError Patch := do
  read (← readText look path)

def save (patch : Patch) (path : String) : Storing Unit := do
  Files.save path (← ofExcept patch.write)

/-- The graph of a patch that passes its check. The records become its nodes in order, so that the
position of the output is its handle. -/
def build (patch : Patch) (catalog : Catalog) : Except StorageError Net := do
  (patch.check catalog).mapError .rejected
  (Net.ofDocument patch.document catalog).mapError .refused

end Patch

namespace Engine

def read (text : String) : Except StorageError Engine := do
  let e ← orError .malformed (ofToml? text)
  e.check.mapError .setting
  .ok e

def write (e : Engine) : Except StorageError String := orError .noText e.toToml?

def load (look : Look) (path : String) : Except StorageError Engine := do
  read (← readText look path)

def loadOrDefault (look : Look) (path : String) : Except StorageError Engine :=
  if (look path).isSome then load look path else .ok {}

def save (e : Engine) (path : String) : Storing Unit := do
  Files.save path (← ofExcept e.write)

end Engine
end Patchbay
