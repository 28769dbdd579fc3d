import KeyLayout.Files.Path
import KeyLayout.Text.Line
import KeyLayout.Text.Utf8

namespace KeyLayout

/-! What is found at a path, and how it is read as text. -/

inductive FileFault where
  | missing
  | notDirectory
  | isDirectory
  | longName
  deriving DecidableEq

namespace FileFault

def number : FileFault → Nat
  | .missing => 2
  | .notDirectory => 20
  | .isDirectory => 21
  | .longName => 36

def description : FileFault → Text
  | .missing => "No such file or directory"
  | .notDirectory => "Not a directory"
  | .isDirectory => "Is a directory"
  | .longName => "File name too long"

end FileFault

/-- Why no file can have a name. -/
inductive NameFault where
  | surrogates (error : Utf8.EncodeError)
  | nullByte
  deriving DecidableEq

def NameFault.message : NameFault → Text
  | .surrogates error => error.message
  | .nullByte => "embedded null byte"

inductive PathStatus where
  | file (bytes : List UInt8)
  | directory
  | absent (fault : FileFault)
  | unnamable (fault : NameFault)
  deriving DecidableEq

/-- Why a file cannot be opened. -/
inductive OpenError where
  | refused (fault : FileFault) (path : Text)
  | unnamable (fault : NameFault)
  deriving DecidableEq

def OpenError.message : OpenError → Text
  | .refused fault path =>
      Text.join ["[Errno ", Text.ofNat fault.number, "] ", fault.description, ": ",
        Text.quote path]
  | .unnamable fault => fault.message

inductive ReadError where
  | opening (error : OpenError)
  | undecodable (error : Utf8.DecodeError)
  deriving DecidableEq

namespace ReadError

def message : ReadError → Text
  | .opening error => error.message
  | .undecodable error => error.message

/-- The file system refused, rather than the path or the bytes. -/
def isSystem : ReadError → Bool
  | .opening (.refused ..) => true
  | _ => false

end ReadError

/-- The text of a file: UTF-8, every kind of newline as a line feed. -/
def Text.ofFile (bytes : List UInt8) : Except Utf8.DecodeError Text :=
  (Utf8.decode bytes).map unifyNewlines

def PathStatus.readText (status : PathStatus) (path : Path) : Except ReadError Text :=
  match status with
  | .file bytes => (Text.ofFile bytes).mapError .undecodable
  | .directory => .error (.opening (.refused .isDirectory path.toText))
  | .absent fault => .error (.opening (.refused fault path.toText))
  | .unnamable fault => .error (.opening (.unnamable fault))

/-- Access to files, one path at a time. -/
structure Files (m : Type → Type) where
  status : Path → m PathStatus

end KeyLayout
