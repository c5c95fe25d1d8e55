import Patchbay.Files.Path

/-!
# File trees

A tree of directories and text files. What lies above the tree counts as directories of which
nothing else is known.
-/

namespace Patchbay

/-- What stands at a place of a tree. -/
inductive Files.Entry where
  | file (text : String)
  | directory
deriving DecidableEq

def Files.Entry.isFile : Files.Entry → Bool
  | file _ => true
  | directory => false

/-- The way down to an entry, after the way up if it lies above the tree. -/
abbrev Location := List String

/-- The files and directories below a root. -/
structure Files where
  entries : List (Location × Files.Entry)

namespace Files

def empty : Files := ⟨[]⟩

variable (fs : Files)

def entryAt? (place : Location) : Option Entry :=
  if place.all (· == "..") then some .directory else fs.entries.lookup place

/-- Goes from a directory to one of its names, which need not exist but must not be too long. -/
def enter (place : Location) (name : String) : Option Location :=
  if fs.entryAt? place = some .directory ∧ name.utf8ByteSize ≤ Path.nameLimit then
    some (if Path.stays name then place
      else if name = ".." ∧ !place.all (· == "..") then place.dropLast
      else place ++ [name])
  else none

/-- The names on the way down a path. Absolute paths lie outside every tree. -/
def namesOf? (path : String) : Option (List String) :=
  if Path.isUsable path ∧ !Path.isAbsolute path then some (Path.names path) else none

def locate? (path : String) : Option Location := do (← namesOf? path).foldlM fs.enter []

def entry? (path : String) : Option Entry := (fs.locate? path).bind fs.entryAt?

def put (place : Location) (entry : Entry) : Files :=
  ⟨fs.entries.filter (·.1 ≠ place) ++ [(place, entry)]⟩

def write? (path text : String) : Option Files := do
  let place ← fs.locate? path
  if fs.entryAt? place = some .directory then none else some (fs.put place (.file text))

/-- Makes the directories that are missing on a way down, as long as that is possible, and tells
whether it was possible to the end. -/
def makeDown (fs : Files) (place : Location) : List String → Files × Bool
  | [] => (fs, true)
  | name :: names =>
    match fs.enter place name with
    | none => (fs, false)
    | some place =>
      match fs.entryAt? place with
      | some .directory => makeDown fs place names
      | some (.file _) => (fs, false)
      | none => makeDown (fs.put place .directory) place names

/-- Makes all directories of a path. What was made stays, even if the rest cannot be made. -/
def makeDirectories (path : String) : Files × Bool :=
  (namesOf? path).elim (fs, false) (fs.makeDown [])

def children (place : Location) : List (String × Entry) :=
  fs.entries.filterMap fun (p, entry) =>
    match p.getLast? with
    | some name => if p = place ++ [name] then some (name, entry) else none
    | none => none

/-- The paths of the files with an extension directly inside a directory, sorted. -/
def withExtension (directory extension : String) : List String :=
  match fs.locate? directory with
  | none => []
  | some place =>
    let names := (fs.children place).filterMap fun (name, entry) =>
      if entry.isFile ∧ (Path.splitName name).2 = some extension then some name else none
    (names.mergeSort (fun a b => !decide (b < a))).map (Path.join directory)

def ofLists (directories : List String) (files : List (String × String)) : Files :=
  let fs := directories.foldl (fun fs d => (fs.makeDirectories d).1) empty
  files.foldl (fun fs (path, text) =>
    let fs := (fs.makeDirectories (Path.parent path)).1
    (fs.write? path text).getD fs) fs

end Files
end Patchbay
