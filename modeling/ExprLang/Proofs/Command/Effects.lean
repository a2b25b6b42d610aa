import ExprLang.Command.Line

/-! A run in steps, each of which looks at the files, changes one or prints. Of the steps that may
fail, only the writing of the result comes behind one that changes something: the output has been
opened, and so emptied, by then. -/
namespace ExprLang

/-- What has been printed, and the files as they are. -/
structure Scene where
  printed : String
  files : Files

/-- A run in steps. A step that fails ends the run, and what the steps before it did stays done. -/
abbrev Steps := ExceptT RunError (StateM Scene)

namespace Files

/-- The file that a name leads to, if there is one. -/
def found (files : Files) (name : String) : Except FileError String := do
  let file ← files.locate name
  if (files.entries.lookup file).isSome then return file else throw (.noSuchFile name)

/-- The text that a file holds. -/
def content (files : Files) (file : String) : Except FileError String := do
  let bytes := (files.entries.lookup file).getD []
  return String.ofList (Text.unifyLineEnds (← (Text.decodeUtf8 bytes).mapError .notText))

/-- A file that is there is emptied, and one that is not is made. -/
def emptied (files : Files) (file : String) : Files :=
  { files with entries := files.entries.filter (·.1 != file) ++ [(file, [])] }

/-- More bytes at the end of a file. -/
def extended (files : Files) (file : String) (bytes : List UInt8) : Files :=
  { files with entries := files.entries.map fun entry =>
      if entry.1 = file then (entry.1, entry.2 ++ bytes) else entry }

end Files

namespace Steps

variable {α β : Type}

def look (seen : Files → Except RunError α) : Steps α :=
  ExceptT.mk fun scene => (seen scene.files, scene)

def change (after : Scene → Scene) : Steps Unit :=
  ExceptT.mk fun scene => (.ok (), after scene)

/-- Open a file to write. From here on it is empty. -/
def openToWrite (name : String) : Steps String := do
  let file ← look fun files => (files.locate name).mapError .file
  change fun scene => { scene with files := scene.files.emptied file }
  return file

/-- Write a text behind what a file holds, or as much of it as is taken in. -/
def write (storage : Storage) (file text : String) : Steps Unit := do
  change fun scene => { scene with files := scene.files.extended file (storage.kept text) }
  match storage.error? text with
  | none => return ()
  | some e => throw (.file e)

def print (text : String) : Steps Unit :=
  change fun scene => { scene with printed := scene.printed ++ text }

variable {x : Steps α} {scene : Scene}

end Steps

namespace Request

/-- Get the text that is asked about. -/
def textBySteps (r : Request) : Steps String :=
  if r.isText then return r.source
  else if sourceSuffix.toList.isSuffixOf r.source.toList then do
    let file ← Steps.look fun files => (files.found r.source).mapError .file
    Steps.look fun files => (files.content file).mapError .file
  else throw .wrongSuffix

/-- Get the result as a text. -/
def renderedBySteps (r : Request) (platform : Platform) : Steps String := do
  let text ← r.textBySteps
  Steps.look fun _ => (render platform.run r.mode r.table text).mapError .render

/-- Put a result where it is wanted. -/
def deliver (r : Request) (platform : Platform) (result : String) : Steps Unit :=
  if r.output.isEmpty then Steps.print (result ++ "\n")
  else do
    let file ← Steps.openToWrite r.output
    Steps.write platform.storage file (result ++ "\n")

/-- Run a request one step after the other. -/
def bySteps (r : Request) (platform : Platform) : Steps String := do
  let result ← r.renderedBySteps platform
  r.deliver platform result
  return result

end Request

namespace Command

end Command

/-- One character stands for half of another one. -/
def half? (c : Char) : Option Nat := if c = '\uE0FF' then some 0xDCFF else none

end ExprLang
