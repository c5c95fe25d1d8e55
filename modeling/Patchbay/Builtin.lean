import Patchbay.Builtin.Arithmetic
import Patchbay.Builtin.Logic
import Patchbay.Builtin.Transport
import Patchbay.Builtin.Vector
import Patchbay.Catalog

/-!
# The built-in catalog

All operators that every graph may use.
-/

namespace Patchbay.Builtin

variable [Platform]

def operators : List Operator := vector ++ arithmetic ++ logic ++ transport

def catalog : Catalog := Catalog.empty.addMissing operators

end Patchbay.Builtin
