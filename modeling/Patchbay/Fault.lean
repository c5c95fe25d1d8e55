import Patchbay.Decimal.Text

/-!
# Faults and failed compiles

A fault is a problem of one node: the node writes nothing and the rest of the graph goes on. A
compile error stops a whole compile.
-/

namespace Patchbay

/-- The handle of a node in one graph. Handles count up and are never given twice. -/
abbrev NodeId := Nat

def nodeLabel (n : NodeId) : String := "n" ++ toString n

/-- The longest output of one node, in cells. -/
def maxLength : Nat := 4194304

/-- Why a plan could not be made at all. -/
inductive CompileError where
  | outputNotFound (node : NodeId)
  | lengthMismatch (node : NodeId) (slot expected found : Nat)
deriving DecidableEq, Inhabited

def CompileError.message : CompileError → String
  | outputNotFound n => "output node " ++ nodeLabel n ++ " not found"
  | lengthMismatch n slot expected found =>
    "slot " ++ toString slot ++ " of node " ++ nodeLabel n ++ " expects length " ++
      toString expected ++ ", got " ++ toString found

/-- What is wrong with a property or an input value of a node. -/
inductive ConfigIssue where
  | unknownMode (mode : Decimal)
  | notFinite (text : String)
  | countLimit (count : Int)
  | lengthLimit (length : Nat)
deriving DecidableEq, Inhabited

def ConfigIssue.message : ConfigIssue → String
  | unknownMode m => "op_mode " ++ m.render .plain ++ " is not 0, 1, or 2"
  | notFinite t => "`" ++ t ++ "` is not a finite number"
  | countLimit n => "count " ++ toString n ++ " exceeds the limit of " ++ toString maxLength
  | lengthLimit n =>
    "output length " ++ toString n ++ " exceeds the limit of " ++ toString maxLength

/-- Why one node writes nothing. -/
inductive Fault where
  | missingLegs (required connected : Nat)
  | invalidConfig (issue : ConfigIssue)
  | inherited (node : NodeId)
  | promoted (cause : CompileError)
deriving DecidableEq, Inhabited

def Fault.message : Fault → String
  | missingLegs required connected =>
    "needs at least " ++ toString required ++ " connected inputs, found " ++ toString connected
  | invalidConfig issue => "invalid configuration: " ++ issue.message
  | inherited n => "upstream node " ++ nodeLabel n ++ " is faulted"
  | promoted cause => "sub-graph failed to compile: " ++ cause.message

end Patchbay
