import Patchbay.Toml.Moment

/-!
# TOML values

Patches and engine settings are kept as TOML. A table lists its entries in the order of the text.
-/

namespace Patchbay.Toml

/-- A value of a document. -/
inductive Value where
  | text (text : String)
  | integer (integer : Int)
  | decimal (decimal : Decimal)
  | boolean (boolean : Bool)
  | moment (moment : Moment)
  | array (elements : List Value)
  | table (entries : List (String × Value))

def minInteger : Int := Int64.minValue.toInt

def maxInteger : Int := Int64.maxValue.toInt

/-- Control characters other than the tab do not stand in a text as they are. -/
def isControl (c : Char) : Bool := (c.toNat < 0x20 && c != '\t') || c.toNat == 0x7f

def isBareKeyChar (c : Char) : Bool := c.isAlphanum || c == '-' || c == '_'

end Patchbay.Toml
