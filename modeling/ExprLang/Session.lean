import ExprLang.Command.Render
import ExprLang.Precedence.Spec

/-! Interactive sessions: each line that is typed is parsed on its own, and its items are
reported. -/
namespace ExprLang

/-- What ends the report on a line without an error of syntax. -/
inductive Crash where
  | badTable (e : TableError)
  | tooDeep
  deriving DecidableEq, Repr

/-- The last line of the trace that a crash leaves on the screen. -/
def Crash.traceLine : Crash → String
  | .badTable e => "ValueError: " ++ e.message
  | .tooDeep => "RecursionError"

/-- What is printed about a line, and the crash that ended it, if one did. -/
structure Report where
  printed : String
  crash : Option Crash
  deriving DecidableEq, Repr

namespace Report

def after (text : String) (r : Report) : Report := { r with printed := text ++ r.printed }

/-- Items in order, each with its source text if that is wanted, and the error behind them. The
limit is that on the depth of source texts. -/
def ofItems (limit : Nat) (verbose : Bool) (error : Option SyntaxError) : List Item → Report
  | [] =>
    match error with
    | none => ⟨"", none⟩
    | some e => ⟨"[error] >>> " ++ e.message ++ "\n", none⟩
  | item :: rest =>
    let described := item.description ++ "\n"
    if verbose then
      if item.depth ≤ limit then
        (ofItems limit verbose error rest).after (described ++ "[ast] >>> " ++ item.source ++ "\n")
      else ⟨described, some .tooDeep⟩
    else (ofItems limit verbose error rest).after described

/-- The report on a text. The items in front of an error are reported before it. -/
def ofText (limits : Limits) (table : Except TableError Table) (verbose : Bool) (text : String) :
    Report :=
  match table with
  | .error e => ⟨"", some (.badTable e)⟩
  | .ok t =>
    match begin? text with
    | .error e => ofItems limits.source verbose (some e) []
    | .ok s =>
      let progress := Progress.ofLookahead (.ofTable t) limits.levels s
      ofItems limits.source verbose progress.error progress.items

/-- The report as a session shows it: a crash leaves a trace. -/
def shown (r : Report) : String :=
  match r.crash with
  | none => r.printed
  | some crash =>
    r.printed ++ "[error] >>>\nTraceback (most recent call last):\n" ++ crash.traceLine ++ "\n\n"

end Report

/-- What comes from the keyboard: a line, or the wish to break off. -/
inductive Typed where
  | line (text : String)
  | interrupt
  deriving DecidableEq, Repr

/-- What a session does with a line: it ends, or it prints something and goes on. -/
inductive Reaction where
  | leave
  | goOn (printed : String) (verbose : Bool)
  deriving DecidableEq, Repr

/-- What was printed up to each reading of a line and behind the last one, and how many lines were
read. -/
structure Transcript where
  screens : List String
  read : Nat
  deriving DecidableEq, Repr

namespace Session

def tableVariable : String := "KALEIDO_PREC"

def banner : String := "Kaleido REPL. Type 'exit' or 'quit' to leave.\n"

def prompt : String := "ready> "

def farewell : String := "Exiting Kaleido REPL.\n"

/-- The reaction to a line. White space at its ends does not matter. -/
def react (limits : Limits) (table : Except TableError Table) (verbose : Bool) (line : String) :
    Reaction :=
  let text := String.ofList (Text.trim Text.isBlank line.toList)
  if text = "exit" ∨ text = "quit" then .leave
  else if text.isEmpty || text.toList.head? = some '#' then .goOn "" verbose
  else if text.toLower = "verbose-mode" then
    .goOn ("[mode] >>> Verbose mode " ++ (if verbose then "OFF" else "ON") ++ "\n") (!verbose)
  else .goOn (Report.ofText limits table verbose text).shown verbose

/-- What is printed behind each prompt, up to the end of the session. -/
def screens (limits : Limits) (table : Except TableError Table) (verbose : Bool) :
    List Typed → List String
  | [] | .interrupt :: _ => ["\n" ++ farewell]
  | .line text :: rest =>
    match react limits table verbose text with
    | .leave => [farewell]
    | .goOn printed verbose => (printed ++ prompt) :: screens limits table verbose rest

/-- A session over a table. The end of the input counts as no line. -/
def transcript (limits : Limits) (table : Except TableError Table) (verbose : Bool)
    (typed : List Typed) : Transcript :=
  let answers := screens limits table verbose typed
  ⟨(banner ++ prompt) :: answers, min answers.length typed.length⟩

/-- The table of a session: the given one, or else the one that the environment asks for. A fault of
the latter keeps the session from opening; a fault of the former shows only at the first line. -/
def chooseTable (table : Option (Except TableError Table)) (setting : Option String) :
    Except TableError (Except TableError Table) :=
  match table with
  | some table => .ok table
  | none => (Table.ofEnvironment setting).map fun asked => .ok (asked.getD .standard)

/-- What is printed if the environment keeps a session from opening. -/
def refusal (e : TableError) : String :=
  "[error] >>> " ++ tableVariable ++ ": " ++ e.message ++ "\n"

/-- A session with the given table, or else with the one that the environment asks for. -/
def run (limits : Limits) (table : Option (Except TableError Table)) (setting : Option String)
    (verbose : Bool) (typed : List Typed) : Transcript :=
  match chooseTable table setting with
  | .error e => ⟨[refusal e], 0⟩
  | .ok table => transcript limits table verbose typed

end Session
end ExprLang
