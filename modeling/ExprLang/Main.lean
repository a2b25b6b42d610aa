import ExprLang.Command.Line

/-! The command as a program. -/
namespace ExprLang.Command

/-- Files take in every text, and trees may be some hundred levels deep. -/
def platform : Platform := ⟨.ample, ⟨300, 400, 400⟩, ⟨300, 400, 400⟩⟩

/-- Answer one line after the other, up to the end of the session. -/
partial def converse (table : Except TableError Table) (verbose : Bool) : IO Unit := do
  IO.print Session.prompt
  (← IO.getStdout).flush
  let line ← (← IO.getStdin).getLine
  if line.isEmpty then IO.print ("\n" ++ Session.farewell)
  else
    match Session.react platform.session table verbose line with
    | .leave => IO.print Session.farewell
    | .goOn printed verbose =>
      IO.print printed
      converse table verbose

/-- Open a session, unless the environment asks for a faulty table. -/
def openSession (table : Option Table) (verbose : Bool) : IO Unit := do
  match Session.chooseTable (table.map .ok) (← IO.getEnv Session.tableVariable) with
  | .error e => IO.print (Session.refusal e)
  | .ok table =>
    IO.print Session.banner
    converse table verbose

/-- What is found on the way that a name leads: directories and files. The files are taken for empty
unless they are to be read. -/
def lookAt (files : Files) (name : String) (toRead : Bool) : IO Files := do
  let here ← IO.currentDir
  let mut files := files
  let mut way := Files.origin name
  for part in Files.parts name do
    way := Files.enter way part
    let text := Files.wayText way
    let path := here / text
    if ← path.isDir then
      files := { files with directories := text :: files.directories }
    else if (← path.pathExists) && (files.entries.lookup text).isNone then
      let bytes ← if toRead then IO.FS.readBinFile path else pure .empty
      files := { files with entries := (text, bytes.toList) :: files.entries }
  return files

/-- Do one run, and write the files that it changed. -/
def execute (r : Request) : IO UInt32 := do
  let files ← if r.isText then pure ⟨[], []⟩ else lookAt ⟨[], []⟩ r.source true
  let files ← lookAt files r.output false
  let done := r.run platform files
  let outcome := ofRun done
  IO.print done.printed
  IO.eprint outcome.errors
  for (name, bytes) in done.files.entries do
    if files.entries.lookup name != some bytes then
      IO.FS.writeBinFile name ⟨bytes.toArray⟩
  match outcome.uncaught with
  | some e =>
    IO.eprintln e.message
    return 1
  | none => return (outcome.status.getD 0).toUInt32

end ExprLang.Command

/-- Do what the arguments ask for. -/
def main (args : List String) : IO UInt32 := do
  match ExprLang.Command.plan args with
  | .session table verbose =>
    ExprLang.Command.openSession table verbose
    return 0
  | .run request => ExprLang.Command.execute request
  | .help =>
    IO.print ExprLang.Command.helpText
    return 0
  | .refuse e =>
    IO.eprint (ExprLang.Command.refusal e)
    return 2
  | .fail e =>
    IO.eprintln e.message
    return 1
