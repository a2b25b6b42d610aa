import ExprLang.Command.Run
import ExprLang.Text.Digit
import ExprLang.Text.Joined
import ExprLang.Text.Quoted

/-! Arguments of the command line. Switches may stand anywhere, short ones may be written together,
and long ones may be cut short. -/
namespace ExprLang

/-- The switches. -/
inductive Switch where
  | help
  | text
  | json
  | tokens
  | table
  | output
  | session
  | verbose
  deriving DecidableEq, Repr

namespace Switch

/-- The spellings of all switches, in the order of the help text. -/
def spellings : List (List Char × Switch) :=
  [("-h", help), ("--help", help), ("-s", text), ("--string", text), ("--json", json),
    ("--tokens", tokens), ("-P", table), ("--prec", table), ("-o", output), ("--out", output),
    ("--repl", session), ("--verbose", verbose)].map fun entry => (entry.1.toList, entry.2)

/-- A switch as messages name it: all its spellings. -/
def title (s : Switch) : String :=
  Text.joined "/" ((spellings.filter (·.2 == s)).map fun entry => String.ofList entry.1)

def takesValue : Switch → Bool
  | table | output => true
  | _ => false

def ofSpelling? (cs : List Char) : Option Switch := spellings.lookup cs

end Switch

/-- Why arguments cannot be understood. -/
inductive UsageError where
  | ambiguous (arg : String) (spellings : List String)
  | missingValue (s : Switch)
  | unusedValue (s : Switch) (value : String)
  | conflict (s earlier : Switch)
  | unrecognized (args : List String)
  | badTable (e : TableError)
  deriving DecidableEq, Repr

def UsageError.message : UsageError → String
  | .ambiguous arg spellings =>
    "ambiguous option: " ++ arg ++ " could match " ++ Text.joined ", " spellings
  | .missingValue s => "argument " ++ s.title ++ ": expected one argument"
  | .unusedValue s value =>
    "argument " ++ s.title ++ ": ignored explicit argument " ++ Text.quoted value
  | .conflict s earlier =>
    "argument " ++ s.title ++ ": not allowed with argument " ++ earlier.title
  | .unrecognized args => "unrecognized arguments: " ++ Text.joined " " args
  | .badTable e => e.message

/-- What an argument looks like by itself. -/
inductive Argument where
  /-- A source, or the value of a switch. -/
  | plain (text : String)
  /-- The mark behind which all arguments are plain. -/
  | endOfSwitches
  /-- A switch, in a long or a short spelling, and the text written together with it. -/
  | switch (s : Switch) (short : Bool) (attached : Option (List Char))
  /-- An argument that begins like a switch but is none. -/
  | unknown (text : String)
  deriving DecidableEq, Repr

namespace Argument

/-- A minus sign and digits, possibly with a point before the last ones. -/
def isNegativeNumber : List Char → Bool
  | '-' :: rest =>
    let rest := if rest.getLast? = some '\n' then rest.dropLast else rest
    let isDigit := fun c => (Text.digitValue? c).isSome
    match rest.dropWhile isDigit with
    | [] => !rest.isEmpty
    | '.' :: fraction => !fraction.isEmpty && fraction.all isDigit
    | _ => false
  | _ => false

/-- The parts before and after the first equals sign. -/
def cutAtEquals (cs : List Char) : List Char × Option (List Char) :=
  match cs.dropWhile (· != '=') with
  | [] => (cs, none)
  | _ :: value => (cs.takeWhile (· != '='), some value)

/-- The switches that an argument may mean, with their spellings and the texts attached to them. -/
def candidates (cs : List Char) : List (List Char × Argument) :=
  match cs with
  | '-' :: '-' :: _ =>
    let (name, value) := cutAtEquals cs
    (Switch.spellings.filter fun entry => name.isPrefixOf entry.1).map fun entry =>
      (entry.1, .switch entry.2 false value)
  | _ =>
    (Switch.spellings.filter fun entry => entry.1 == cs.take 2).map fun entry =>
      (entry.1, .switch entry.2 true (some (cs.drop 2)))

/-- An argument that begins with a minus sign and more. -/
def ofDashed (cs : List Char) : Except UsageError Argument :=
  let (name, value) := cutAtEquals cs
  match value, Switch.ofSpelling? name with
  | some value, some s => .ok (.switch s (name.length == 2) (some value))
  | _, _ =>
    match candidates cs with
    | [] =>
      if isNegativeNumber cs || cs.contains ' ' then .ok (.plain (String.ofList cs))
      else .ok (.unknown (String.ofList cs))
    | [(_, found)] => .ok found
    | found => .error (.ambiguous (String.ofList cs) (found.map fun entry => String.ofList entry.1))

/-- What an argument looks like, before the mark that ends the switches. -/
def ofText (arg : String) : Except UsageError Argument :=
  let cs := arg.toList
  match Switch.ofSpelling? cs with
  | some s => .ok (.switch s (cs.length == 2) none)
  | none => if cs.head? = some '-' && cs.length ≠ 1 then ofDashed cs else .ok (.plain arg)

/-- What the arguments look like, in order. -/
def ofTexts : List String → Except UsageError (List Argument)
  | [] => .ok []
  | "--" :: rest => .ok (.endOfSwitches :: rest.map .plain)
  | arg :: rest => do
    let first ← ofText arg
    return first :: (← ofTexts rest)

end Argument

/-- What the last of the switches written together gets as its value. -/
inductive Supply where
  | nothing
  | attached (value : String)
  | nextArgument
  deriving DecidableEq, Repr

namespace Switch

/-- Switches without a value, the last switch, and how that one gets its value. -/
abbrev Cluster := List Switch × Switch × Supply

def alone (s : Switch) : Cluster := ([], s, if s.takesValue then .nextArgument else .nothing)

/-- A short switch with a text attached: its value, or the letters of more short switches. -/
def shortCluster (s : Switch) (attached : List Char) : Except UsageError Cluster :=
  if s.takesValue then .ok ([], s, .attached (String.ofList attached))
  else
    match attached with
    | [] => .error (.unusedValue s "")
    | letter :: rest =>
      match ofSpelling? ['-', letter] with
      | none => .error (.unusedValue s (String.ofList attached))
      | some following => do
        let (before, last, supply) ←
          if rest.isEmpty then .ok following.alone else following.shortCluster rest
        return (s :: before, last, supply)

/-- The switches that are written together in one argument. All but the last one stand alone. -/
def cluster (s : Switch) (short : Bool) : Option (List Char) → Except UsageError Cluster
  | none => .ok s.alone
  | some attached =>
    if short then s.shortCluster attached
    else if s.takesValue then .ok ([], s, .attached (String.ofList attached))
    else .error (.unusedValue s (String.ofList attached))

end Switch

/-- What the arguments set. -/
structure Settings where
  source : Option String
  isText : Bool
  /-- The switch that chose what is shown. -/
  mode : Option Switch
  /-- Specifications of a table. One may be missing where a value was written. -/
  specs : List (Option String)
  output : String
  session : Bool
  verbose : Bool
  help : Bool
  unrecognized : List String
  deriving DecidableEq, Repr

namespace Settings

def initial : Settings := ⟨none, false, none, [], "", false, false, false, []⟩

/-- A plain argument is the source, unless there is one. -/
def takePlain (s : Settings) (text : String) : Settings :=
  match s.source with
  | none => { s with source := some text }
  | some _ => { s with unrecognized := s.unrecognized ++ [text] }

def refuse (s : Settings) (text : String) : Settings :=
  { s with unrecognized := s.unrecognized ++ [text] }

/-- Choose what is shown. JSON and tokens exclude each other. -/
def chooseMode (s : Settings) (choice : Switch) : Except UsageError Settings :=
  match s.mode with
  | some earlier =>
    if earlier = choice then .ok s else .error (.conflict choice earlier)
  | none => .ok { s with mode := some choice }

/-- Set a switch that needs no value. -/
def set (s : Settings) : Switch → Except UsageError Settings
  | .help => .ok { s with help := true }
  | .text => .ok { s with isText := true }
  | .json => s.chooseMode .json
  | .tokens => s.chooseMode .tokens
  | .session => .ok { s with session := true }
  | .verbose => .ok { s with verbose := true }
  | .table | .output => .ok s

/-- Set a switch to a value. The output goes to the last file that is named. The mark that ends the
switches is no value: it names no file and leaves a specification missing. -/
def setValue (s : Settings) (value : String) : Switch → Settings
  | .table => { s with specs := s.specs ++ [if value = "--" then none else some value] }
  | .output => { s with output := if value = "--" then "" else value }
  | _ => s

/-- Set switches in order, up to a wish for help. -/
def setAll (s : Settings) : List Switch → Except UsageError Settings
  | [] => .ok s
  | switch :: rest => do
    let s ← s.set switch
    if s.help then return s else s.setAll rest

/-- Take in the arguments one after the other, up to a wish for help. The mark that ends the
switches goes with the source, if that is the argument before or behind it. -/
def takeAll (s : Settings) : List Argument → Except UsageError Settings
  | [] => .ok s
  | .plain text :: .endOfSwitches :: rest =>
    if s.source.isNone then (s.takePlain text).takeAll rest
    else ((s.takePlain text).refuse "--").takeAll rest
  | .plain text :: rest => (s.takePlain text).takeAll rest
  | .endOfSwitches :: rest => (if s.source.isNone then s else s.refuse "--").takeAll rest
  | .unknown text :: rest => (s.refuse text).takeAll rest
  | .switch first short attached :: rest =>
    match first.cluster short attached, rest with
    | .error e, _ => .error e
    | .ok (before, last, .nothing), rest => do
      let s ← s.setAll (before ++ [last])
      if s.help then return s else s.takeAll rest
    | .ok (before, last, .attached value), rest => do
      let s ← s.setAll before
      if s.help then return s else (s.setValue value last).takeAll rest
    | .ok (before, last, .nextArgument), .plain value :: rest => do
      let s ← s.setAll before
      if s.help then return s else (s.setValue value last).takeAll rest
    | .ok (_, last, .nextArgument), _ => .error (.missingValue last)

/-- What arguments set. A wish for help hides all that comes after it. -/
def ofArguments (args : List String) : Except UsageError Settings := do
  let s ← initial.takeAll (← Argument.ofTexts args)
  if s.help || s.unrecognized.isEmpty then return s else throw (.unrecognized s.unrecognized)

end Settings
end ExprLang
