import ExprLang.Command.Files
import ExprLang.Command.Render

/-! One run over a file or a text: read, render, and print the result or write it to a file. -/
namespace ExprLang

/-- What a command runs on: where its files go, and how deep a run and a session can go. -/
structure Platform where
  storage : Storage
  run : Limits
  session : Limits

/-- What is asked for. Without an output file, the result is printed. -/
structure Request where
  source : String
  isText : Bool
  mode : Mode
  table : Except TableError Table
  output : String

/-- Why a run has no result. -/
inductive RunError where
  | wrongSuffix
  | file (e : FileError)
  | render (e : RenderError)
  deriving DecidableEq, Repr

def sourceSuffix : String := ".kal"

def RunError.message : RunError → String
  | .wrongSuffix => "Only " ++ sourceSuffix ++ " files are supported."
  | .file e => e.message
  | .render e => e.message

/-- What a run leaves behind. -/
structure RunOutcome where
  result : Except RunError String
  printed : String
  files : Files

namespace Request

def text (r : Request) (files : Files) : Except RunError String :=
  if r.isText then .ok r.source
  else if sourceSuffix.toList.isSuffixOf r.source.toList then (files.read r.source).mapError .file
  else .error .wrongSuffix

/-- The result as a text. Nothing is printed or written yet. -/
def rendered (r : Request) (platform : Platform) (files : Files) : Except RunError String := do
  (render platform.run r.mode r.table (← r.text files)).mapError .render

/-- Run a request. -/
def run (r : Request) (platform : Platform) (files : Files) : RunOutcome :=
  match r.rendered platform files with
  | .error e => ⟨.error e, "", files⟩
  | .ok result =>
    if r.output.isEmpty then ⟨.ok result, result ++ "\n", files⟩
    else
      match files.write platform.storage r.output (result ++ "\n") with
      | (some e, files) => ⟨.error (.file e), "", files⟩
      | (none, files) => ⟨.ok result, "", files⟩

end Request
end ExprLang
