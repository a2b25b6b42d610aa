import ExprLang.Command.Arguments
import ExprLang.Session

/-! The whole command: what its arguments ask for, and what it prints, writes and answers. -/
namespace ExprLang

/-- What a command finds: the table that the environment asks for, what is typed, and files. -/
structure World where
  platform : Platform
  setting : Option String
  typed : List Typed
  files : Files

/-- An error that a command does not report by itself. -/
inductive Uncaught where
  | file (e : FileError)
  | missingSpec
  deriving DecidableEq, Repr

def Uncaught.message : Uncaught → String
  | .file e => e.message
  | .missingSpec => "'list' object has no attribute 'split'"

/-- What a command leaves behind. -/
structure Outcome where
  transcript : Transcript
  errors : String
  files : Files
  /-- The status of a command that breaks off. -/
  status : Option Nat
  uncaught : Option Uncaught

namespace Command

def usage : String :=
  "usage: kaleido [-h] [-s] [--json | --tokens] [-P OP=N] [-o OUTFILE] [--repl]\n" ++
  "               [--verbose]\n" ++
  "               [source]\n"

def helpText : String :=
  usage ++
  "\n" ++
  "positional arguments:\n" ++
  "  source                Filename or raw source (with -s)\n" ++
  "\n" ++
  "options:\n" ++
  "  -h, --help            show this help message and exit\n" ++
  "  -s, --string          Interpret source as literal string\n" ++
  "  --json                Print the AST as JSON\n" ++
  "  --tokens              Print the token stream instead of parsing\n" ++
  "  -P OP=N, --prec OP=N  Set the precedence of a binary operator (repeatable)\n" ++
  "  -o OUTFILE, --out OUTFILE\n" ++
  "                        Output to file\n" ++
  "  --repl                Launch interactive REPL\n" ++
  "  --verbose             Verbose REPL mode (if --repl)\n"

/-- What arguments ask for. -/
inductive Plan where
  | session (table : Option Table) (verbose : Bool)
  | run (r : Request)
  | help
  | refuse (e : UsageError)
  | fail (e : Uncaught)

def modeOf : Option Switch → Mode
  | some .json => .json
  | some .tokens => .tokens
  | _ => .source

/-- Why settings lead to no table. -/
inductive SpecsError where
  | badTable (e : TableError)
  | missing
  deriving DecidableEq, Repr

/-- All specifications, unless one is missing. Those in front of it are still read, so a fault in
them comes first. -/
def presentSpecs (specs : List (Option String)) : Except SpecsError (List String) :=
  if specs.contains none then do
    let front := (specs.takeWhile (·.isSome)).filterMap id
    let _ ← (Entries.standard.putEntries (Entries.specEntries front)).mapError .badTable
    throw .missing
  else return specs.filterMap id

/-- The table that the settings ask for, if they ask for one. -/
def tableOf (s : Settings) : Except SpecsError (Option Table) := do
  let specs ← presentSpecs s.specs
  if specs.isEmpty then return none
  else (Table.ofSpecs specs .standard).map some |>.mapError .badTable

/-- What settings ask for. Without a source there is a session. -/
def Plan.ofSettings (s : Settings) : Plan :=
  if s.help then .help
  else
    match tableOf s, s.source, s.session with
    | .error (.badTable e), _, _ => .refuse (.badTable e)
    | .error .missing, _, _ => .fail .missingSpec
    | .ok table, some source, false =>
      .run ⟨source, s.isText, modeOf s.mode, .ok (table.getD .standard), s.output⟩
    | .ok table, _, _ => .session table s.verbose

/-- What arguments ask for. Without arguments there is a session. -/
def plan (args : List String) : Plan :=
  if args.isEmpty then .session none false
  else
    match Settings.ofArguments args with
    | .error e => .refuse e
    | .ok settings => .ofSettings settings

def refusal (e : UsageError) : String := usage ++ "kaleido: error: " ++ e.message ++ "\n"

/-- The error of a run that the command leaves unreported: the system refused its files. -/
def uncaught? : RunError → Option Uncaught
  | .file .nullInName | .file (.notText _) | .file (.notWritable _) => none
  | .file e => some (.file e)
  | _ => none

/-- The outcome of a run. -/
def ofRun (done : RunOutcome) : Outcome :=
  match done.result with
  | .ok _ => ⟨⟨[done.printed], 0⟩, "", done.files, none, none⟩
  | .error e =>
    match uncaught? e with
    | some error => ⟨⟨[done.printed], 0⟩, "", done.files, none, some error⟩
    | none => ⟨⟨[done.printed], 0⟩, "[error] >>> " ++ e.message ++ "\n", done.files, some 1, none⟩

/-- Do what is asked for. -/
def perform (w : World) : Plan → Outcome
  | .session table verbose =>
    ⟨Session.run w.platform.session (table.map .ok) w.setting verbose w.typed, "", w.files, none,
      none⟩
  | .run r => ofRun (r.run w.platform w.files)
  | .help => ⟨⟨[helpText], 0⟩, "", w.files, some 0, none⟩
  | .refuse e => ⟨⟨[""], 0⟩, refusal e, w.files, some 2, none⟩
  | .fail e => ⟨⟨[""], 0⟩, "", w.files, none, some e⟩

def run (w : World) (args : List String) : Outcome := perform w (plan args)

end Command
end ExprLang
