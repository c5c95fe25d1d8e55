import Patchbay.Toml.Value

/-!
# Writing quoted text

Text is written in the plainest quotes that hold it: double, single, three double or three single
ones without an escape, and double ones with escapes where nothing else will do. A tab asks for no
other quotes, but is an escape wherever an escape can stand.
-/

namespace Patchbay.Toml

/-- Whether a character stands in no text as it is, not even on lines of its own. -/
def needsCode (c : Char) : Bool := isControl c && c != '\n'

/-- The greatest number of times that a character stands in a row, counting on from `n`. -/
def longestRun (c : Char) (n : Nat) : List Char → Nat
  | [] => n
  | d :: r => if d = c then longestRun c (n + 1) r else max n (longestRun c 0 r)

def fourDigits (n : Nat) : List Char :=
  [12, 8, 4, 0].map fun shift => (Nat.digitChar ((n >>> shift) % 16)).toUpper

def escapeText (c : Char) : List Char :=
  if c = '\x08' then ['\\', 'b']
  else if c = '\t' then ['\\', 't']
  else if c = '\n' then ['\\', 'n']
  else if c = '\x0c' then ['\\', 'f']
  else if c = '\r' then ['\\', 'r']
  else if c = '"' then ['\\', '"']
  else if c = '\\' then ['\\', '\\']
  else '\\' :: 'u' :: fourDigits c.toNat

/-- Escapes what cannot stand between double quotes. Line ends stand as they are if `lines` is set,
and so do up to `quotes` double quotes in a row, of which `seen` came last. -/
def escaped (lines : Bool) (quotes seen : Nat) : List Char → List Char
  | [] => []
  | c :: r =>
    if c = '"' then
      if seen < quotes then c :: escaped lines quotes (seen + 1) r
      else escapeText c ++ escaped lines quotes 0 r
    else if c = '\\' ∨ c = '\t' ∨ needsCode c ∨ c = '\n' ∧ !lines then
      escapeText c ++ escaped lines quotes 0 r
    else c :: escaped lines quotes 0 r

/-- Puts a text between two times three quotes. A text with a line end starts on its own line. -/
def tripled (quote : Char) (hasNewline : Bool) (body : List Char) : List Char :=
  let quotes := List.replicate 3 quote
  quotes ++ (if hasNewline then ['\n'] else []) ++ body ++ quotes

/-- Puts a text between double quotes, with escapes where they are needed. -/
def basic (cs : List Char) : List Char := ['"'] ++ escaped false 0 0 cs ++ ['"']

def literal (cs : List Char) : List Char := ['\''] ++ cs ++ ['\'']

def quoted (text : String) : String :=
  let cs := text.toList
  let hasCode := cs.any needsCode
  let hasNewline := cs.contains '\n'
  String.ofList <|
    if !hasCode && !hasNewline && !cs.contains '\\' && !cs.contains '"' then basic cs
    else if !hasCode && !hasNewline && !cs.contains '\'' then literal cs
    else if !hasCode && !cs.contains '\\' && longestRun '"' 0 cs ≤ 2 then
      tripled '"' hasNewline (escaped true 2 0 cs)
    else if !hasCode && longestRun '\'' 0 cs ≤ 2 then tripled '\'' hasNewline cs
    else if hasNewline then tripled '"' true (escaped true 2 0 cs)
    else basic cs

def quotedKey (key : String) : String :=
  let cs := key.toList
  let hasCode := cs.any isControl
  String.ofList <|
    if !cs.isEmpty && cs.all isBareKeyChar then cs
    else if !hasCode && !cs.contains '\\' && !cs.contains '"' then basic cs
    else if !hasCode && !cs.contains '\'' then literal cs
    else basic cs

end Patchbay.Toml
