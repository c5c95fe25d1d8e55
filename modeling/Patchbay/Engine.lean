import Patchbay.Toml.Printer
import Patchbay.Toml.Reader

/-!
# Engine settings

The settings of the stream that patches run in. They are kept as TOML; what is not given takes its
default.
-/

namespace Patchbay

structure Engine where
  /-- Frames in a second. -/
  sampleRate : Nat := 48000
  /-- Frames by which the stream advances after a block. -/
  blockSize : Nat := 512
  /-- Which log messages are shown. -/
  logFilter : String := "warn"
  /-- The start of the noise. -/
  seed : Nat := 0
deriving DecidableEq, Inhabited

/-- Why a setting is not taken. -/
inductive SettingFlaw where
  | sampleRate
  | blockSize
deriving DecidableEq

def SettingFlaw.message : SettingFlaw → String
  | sampleRate => "invalid setting 'sample_rate': must be positive"
  | blockSize => "invalid setting 'block_size': must be at least 1"

namespace Engine

open Toml (Value member)

def check (e : Engine) : Except SettingFlaw Unit :=
  if e.sampleRate = 0 then .error .sampleRate
  else if e.blockSize = 0 then .error .blockSize
  else .ok ()

def hertz (e : Engine) : Decimal := .ofNat e.sampleRate

/-- Writes the settings, if their numbers have a place in a document. -/
def toToml? (e : Engine) : Option String :=
  Toml.render? [("sample_rate", .integer e.sampleRate), ("block_size", .integer e.blockSize),
    ("log_filter", .text e.logFilter), ("seed", .integer e.seed)]

def ofToml? (text : String) : Option Engine := do
  let members ← Toml.read? text
  let default : Engine := {}
  let sampleRate ← member members "sample_rate" (some default.sampleRate) (·.natural? UInt32.size)
  let blockSize ← member members "block_size" (some default.blockSize) (·.natural? UInt64.size)
  let logFilter ← member members "log_filter" (some default.logFilter) Value.text?
  let seed ← member members "seed" (some default.seed) (·.natural? UInt64.size)
  some { sampleRate, blockSize, logFilter, seed }

end Engine
end Patchbay
