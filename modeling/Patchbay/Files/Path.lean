import Patchbay.Text.Blank

/-!
# Paths

A path is a text of names with slashes between them. An empty name and a single dot stay where they
are, two dots go up.
-/

namespace Patchbay.Path

def names (path : String) : List String := (cutAt '/' path.toList).map String.ofList

def stays (name : String) : Bool := name == "" || name == "."

def namesBack (path : String) : List String := (names path).reverse.dropWhile stays

/-- What a path names in its directory; going up names nothing. -/
def fileName? (path : String) : Option String :=
  (namesBack path).head?.filter (· != "..")

def parent (path : String) : String :=
  "/".intercalate (((namesBack path).drop 1).dropWhile stays).reverse

/-- A name in two parts around its last dot. A dot at the very front does not count. -/
def splitName (name : String) : String × Option String :=
  let back := name.toList.reverse
  match back.dropWhile (· != '.') with
  | _ :: c :: stem =>
    (String.ofList (c :: stem).reverse, some (String.ofList (back.takeWhile (· != '.')).reverse))
  | _ => (name, none)

def stem? (path : String) : Option String := (fileName? path).map fun n => (splitName n).1

def isAbsolute (path : String) : Bool := path.startsWith "/"

def nameLimit : Nat := 255

def sizeLimit : Nat := 4095

/-- Whether a path can name something at all: it has a character, but none that is null, and is not
too long. -/
def isUsable (path : String) : Bool :=
  path != "" && path.utf8ByteSize ≤ sizeLimit && !path.toList.contains '\x00'

def join (directory path : String) : String :=
  if isAbsolute path || directory == "" then path
  else if directory.endsWith "/" then directory ++ path
  else directory ++ "/" ++ path

end Patchbay.Path
