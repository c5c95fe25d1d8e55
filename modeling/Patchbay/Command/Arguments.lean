import Patchbay.Decimal.Text

/-!
# Arguments

A command line names an action, its operands and its options. An option is long, with two dashes, or
a letter with one; its value follows after an equals sign, directly after a letter, or as the next
argument. Everything after a bare pair of dashes is an operand.
-/

namespace Patchbay.Command

/-- What a run is asked to render, and how. -/
structure Rendering where
  patch : String
  blocks : Nat := 1
  blockSize : Option Nat := none
  sampleRate : Option Nat := none
  seed : Option Nat := none
  notes : List Nat := []
  json : Bool := false
  quiet : Bool := false
deriving DecidableEq

inductive Action where
  | operators (name category : Option String)
  | check (patch : String) (steps strict : Bool)
  | render (rendering : Rendering)
deriving DecidableEq

/-- A command line that makes sense. -/
structure Request where
  /-- The file of the engine settings. -/
  settings : Option String
  action : Action
deriving DecidableEq

/-- What a command line asks for. -/
inductive Wish where
  | request (request : Request)
  | help
  | version
  | usageError
deriving DecidableEq

def version : String := "waviate 0.1.0"

/-! ### Numbers and names -/

def integer? (s : String) : Option Int :=
  let (minus, ds) := Decimal.splitSign s.toList
  if ds ≠ [] ∧ ds.all Char.isDigit then
    let n : Int := Decimal.ofDigits ds
    some (if minus then -n else n)
  else none

def count? (s : String) : Option Nat :=
  if s.startsWith "-" then none
  else (integer? s).bind fun n => if n < UInt64.size then some n.toNat else none

/-- A whole number below `size`. Zero may have a minus sign. -/
def small? (size : Nat) (s : String) : Option Nat :=
  (integer? s).bind fun n => if 0 ≤ n ∧ n < size then some n.toNat else none

def fileName? (s : String) : Option String := if s = "" then none else some s

/-! ### Tokens -/

/-- What an option does. -/
inductive Role where
  | flag
  /-- Takes a value that satisfies `fits`; only some options can be given again. -/
  | value (fits : String → Bool) (again : Bool)
  | help
  | version

/-- An option of an action. -/
structure Switch where
  name : String
  letter : Option Char := none
  role : Role := .flag

def Switch.reading {α : Type} (name : String) (letter : Option Char) (read : String → Option α)
    (again : Bool) : Switch :=
  ⟨name, letter, .value (fun text => (read text).isSome) again⟩

inductive Token where
  | operand (text : String)
  | flag (name : String)
  | value (name text : String)
deriving DecidableEq

/-- What comes after the last token. -/
inductive Ending where
  | nothing
  | help
  | version
  | invalid
  /-- The name of an action and the arguments after it. -/
  | action (name : String) (rest : List String)

/-- How one argument reads on its own. -/
inductive Spelling where
  | token (token : Token)
  | wantsValue (name : String)
  | ending (ending : Ending)

/-- The switch of an argument, when `attached` is the value that stands in the argument itself. -/
def Switch.spelling (s : Switch) (attached : Option String) : Spelling :=
  match s.role, attached with
  | .value _ _, some text => .token (.value s.name text)
  | .value _ _, none => .wantsValue s.name
  | .flag, none => .token (.flag s.name)
  | .help, none => .ending .help
  | .version, none => .ending .version
  | _, some _ => .ending .invalid

def afterLetter? : Role → List Char → Option String
  | .value _ _, '=' :: r => some (String.ofList r)
  | .value _ _, c :: r => some (String.ofList (c :: r))
  | _, _ => none

def spelling (switches : List Switch) (arg : String) : Spelling :=
  match arg.toList with
  | '-' :: '-' :: cs =>
    let name := String.ofList (cs.takeWhile (· != '='))
    let attached := (cs.dropWhile (· != '=')).tail?.map String.ofList
    (switches.find? (·.name == name)).elim (.ending .invalid) (·.spelling attached)
  | '-' :: c :: cs =>
    (switches.find? (·.letter == some c)).elim (.ending .invalid) fun s =>
      s.spelling (afterLetter? s.role cs)
  | _ => .token (.operand arg)

def isValue (arg : String) : Bool := arg == "-" || !arg.startsWith "-"

/-- The tokens of the arguments up to the first that ends them. With `nested` set, the first operand
ends them too: it names an action. -/
def tokens (switches : List Switch) (nested : Bool) : List String → List Token × Ending
  | [] => ([], .nothing)
  | "--" :: rest => if nested then ([], .invalid) else (rest.map .operand, .nothing)
  | arg :: rest =>
    let before (t : Token) (r : List Token × Ending) := (t :: r.1, r.2)
    match spelling switches arg with
    | .token (.operand name) =>
      if nested then ([], .action name rest)
      else before (.operand name) (tokens switches nested rest)
    | .token t => before t (tokens switches nested rest)
    | .wantsValue name =>
      match rest with
      | text :: rest =>
        if isValue text then before (.value name text) (tokens switches nested rest)
        else ([], .invalid)
      | [] => ([], .invalid)
    | .ending e => ([], e)

/-! ### Checks -/

def operands (ts : List Token) : List String :=
  ts.filterMap fun t => match t with
    | .operand text => some text
    | _ => none

def values (ts : List Token) (name : String) : List String :=
  ts.filterMap fun t => match t with
    | .value n text => if n = name then some text else none
    | _ => none

/-- Whether the tokens give a switch as often as it can be given, and only values that fit. -/
def Switch.accepts (s : Switch) (ts : List Token) : Bool :=
  match s.role with
  | .flag => ts.count (.flag s.name) ≤ 1
  | .value fits again =>
    let texts := values ts s.name
    texts.all fits && (again || texts.length ≤ 1)
  | _ => true

/-- Whether the tokens can begin a command line: at most one operand, and what every switch
accepts. Where they cannot, nothing after them counts. -/
def fitting (switches : List Switch) (ts : List Token) : Bool :=
  (operands ts).length ≤ 1 && switches.all (·.accepts ts)

def single? {α : Type} (ts : List Token) (name : String) (read : String → Option α) : Option α :=
  (values ts name).head?.bind read

def given (ts : List Token) (name : String) : Bool := ts.contains (.flag name)

/-! ### Actions -/

def settingsSwitch : Switch := .reading "config" none fileName? false

def helpSwitch : Switch := ⟨"help", some 'h', .help⟩

def mainSwitches : List Switch := [settingsSwitch, helpSwitch, ⟨"version", some 'V', .version⟩]

/-- How the arguments of one action are read. -/
structure Reader where
  switches : List Switch
  action? : List Token → Option Action

def Reader.operators : Reader where
  switches := [.reading "category" (some 'c') some false]
  action? ts := some (.operators (operands ts).head? (single? ts "category" some))

def Reader.check : Reader where
  switches := [⟨"steps", none, .flag⟩, ⟨"strict", none, .flag⟩]
  action? ts := (operands ts).head?.map fun patch =>
    .check patch (given ts "steps") (given ts "strict")

def Reader.render : Reader where
  switches :=
    [.reading "blocks" (some 'n') count? false, .reading "block-size" none count? false,
      .reading "sample-rate" none (small? UInt32.size) false, .reading "seed" none count? false,
      .reading "note" none (small? UInt8.size) true, ⟨"json", none, .flag⟩, ⟨"quiet", none, .flag⟩]
  action? ts := (operands ts).head?.map fun patch => .render
    { patch
      blocks := (single? ts "blocks" count?).getD 1
      blockSize := single? ts "block-size" count?
      sampleRate := single? ts "sample-rate" (small? UInt32.size)
      seed := single? ts "seed" count?
      notes := (values ts "note").filterMap (small? UInt8.size)
      json := given ts "json"
      quiet := given ts "quiet" }

def Reader.named? (name : String) : Option Reader :=
  if name = "operators" then some operators
  else if name = "check" then some check
  else if name = "run" then some render
  else none

/-- Reads the arguments after the name of an action. Settings that are named here count more than
`outer` ones. -/
def Reader.wish (reader : Reader) (outer : Option String) (args : List String) : Wish :=
  let switches := settingsSwitch :: helpSwitch :: reader.switches
  let (ts, ending) := tokens switches false args
  if !fitting switches ts then .usageError
  else
    match ending with
    | .nothing =>
      (reader.action? ts).elim .usageError fun action =>
        .request ⟨single? ts "config" fileName? <|> outer, action⟩
    | .help => .help
    | _ => .usageError

/-- Whether help can be asked for with these arguments: with none, or with one thing to do. -/
def hasHelp : List String → Bool
  | [] => true
  | [name] => name = "help" ∨ (Reader.named? name).isSome
  | _ => false

/-- Reads a command line from left to right. What is wrong, or asks for help or for the version,
counts before all that follows it. -/
def wish (args : List String) : Wish :=
  let (ts, ending) := tokens mainSwitches true args
  if !fitting mainSwitches ts then .usageError
  else
    match ending with
    | .help => .help
    | .version => .version
    | .action "help" rest => if hasHelp rest then .help else .usageError
    | .action name rest =>
      (Reader.named? name).elim .usageError (·.wish (single? ts "config" fileName?) rest)
    | _ => .usageError

end Patchbay.Command
