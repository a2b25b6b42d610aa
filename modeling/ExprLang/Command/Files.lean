import ExprLang.Text.Joined
import ExprLang.Text.Quoted
import ExprLang.Text.Utf8

/-! Files, and the names that lead to them from the directory at hand. -/
namespace ExprLang

/-- Files by their ways from the directory at hand, and the directories below or elsewhere that are
known. -/
structure Files where
  entries : List (String × List UInt8)
  directories : List String
  deriving DecidableEq, Repr

/-- Why a file cannot be read or written. -/
inductive FileError where
  | noSuchFile (name : String)
  | notDirectory (name : String)
  | isDirectory (name : String)
  | nameTooLong (name : String)
  | nullInName
  | notText (fault : Text.Utf8Fault)
  | notWritable (fault : Text.HalfFault)
  | noSpace
  deriving DecidableEq, Repr

def FileError.message : FileError → String
  | .noSuchFile name => "[Errno 2] No such file or directory: " ++ Text.quoted name
  | .notDirectory name => "[Errno 20] Not a directory: " ++ Text.quoted name
  | .isDirectory name => "[Errno 21] Is a directory: " ++ Text.quoted name
  | .nameTooLong name => "[Errno 36] File name too long: " ++ Text.quoted name
  | .nullInName => "embedded null byte"
  | .notText fault => fault.message
  | .notWritable fault => fault.message
  | .noSpace => "[Errno 28] No space left on device"

/-- What becomes of a text that is written into a file: the bytes that the file holds then, and an
error unless these are the whole text. -/
structure Storage where
  kept : String → List UInt8
  error? : String → Option FileError
  whole : ∀ text, error? text = none → Text.decodeUtf8 (kept text) = .ok text.toList

namespace Storage

/-- Every text is taken in. -/
def ample : Storage where
  kept text := Text.encodeUtf8 text.toList
  error? _ := none
  whole text _ := Text.decodeUtf8_encodeUtf8 text.toList

/-- Some characters stand for halves of characters, which have no bytes. Nothing is taken in of a
text with one of them. -/
def strict (half? : Char → Option Nat) : Storage where
  kept text :=
    match Text.halfFault? half? 0 text.toList with
    | none => Text.encodeUtf8 text.toList
    | some _ => []
  error? text := (Text.halfFault? half? 0 text.toList).map .notWritable
  whole text h := by
    rw [Option.map_eq_none_iff.mp h]
    exact Text.decodeUtf8_encodeUtf8 text.toList

end Storage

namespace Files

def nameLimit : Nat := 4095

def partLimit : Nat := 255

/-- A way, written as a name. The root is the way of one empty part. -/
def wayText (way : List String) : String := Text.joined "/" way

/-- The parts of a name. Slashes that follow each other count as one. -/
def parts (name : String) : List String :=
  ((Text.cutAt '/' name.toList).filter (!·.isEmpty)).map String.ofList

/-- The directory that a name starts from: the one at hand, or the root. -/
def origin (name : String) : List String := if name.toList.head? = some '/' then [""] else []

/-- The directory that a directory lies in. -/
def parent (way : List String) : List String :=
  match way.getLast? with
  | none | some ".." => way ++ [".."]
  | some "" => way
  | some _ => way.dropLast

/-- One part further, whatever is there. -/
def enter (way : List String) (part : String) : List String :=
  if part = "." then way else if part = ".." then parent way else way ++ [part]

/-- Follow the parts of a name from a directory to a file, which need not exist. All parts but the
last have to be directories. -/
def follow (files : Files) (name : String) : (way : List String) → List String →
    Except FileError String
  | _, [] => .error (.isDirectory name)
  | way, part :: rest =>
    let next := enter way part
    if part = "." || part = ".." then files.follow name next rest
    else if rest.isEmpty && name.toList.getLast? = some '/' then .error (.isDirectory name)
    else if partLimit < part.utf8ByteSize then .error (.nameTooLong name)
    else if files.directories.contains (wayText next) then files.follow name next rest
    else if rest.isEmpty then .ok (wayText next)
    else if files.entries.any (·.1 == wayText next) then .error (.notDirectory name)
    else .error (.noSuchFile name)

/-- The file that a name leads to. A slash at the end asks for a directory. -/
def locate (files : Files) (name : String) : Except FileError String :=
  if name.toList.contains '\x00' then .error .nullInName
  else if name.isEmpty then .error (.noSuchFile name)
  else if nameLimit < name.utf8ByteSize then .error (.nameTooLong name)
  else files.follow name (origin name) (parts name)

/-- The text of a file. All line ends are read as line feeds. -/
def read (files : Files) (name : String) : Except FileError String := do
  match files.entries.lookup (← files.locate name) with
  | none => .error (.noSuchFile name)
  | some bytes =>
    return String.ofList (Text.unifyLineEnds (← (Text.decodeUtf8 bytes).mapError .notText))

/-- Put a text into a file, in place of what was there. Once there is a place for the file, what was
there is gone, whether or not the text can be written. -/
def write (storage : Storage) (files : Files) (name text : String) : Option FileError × Files :=
  match files.locate name with
  | .error e => (some e, files)
  | .ok file =>
    (storage.error? text,
      { files with entries := files.entries.filter (·.1 != file) ++ [(file, storage.kept text)] })

end Files
end ExprLang
