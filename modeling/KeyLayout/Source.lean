import KeyLayout.Session
import KeyLayout.Table

namespace KeyLayout

/-! Where the texts of named layouts come from: a table, or the files of directories. -/

inductive SourceError where
  | missing (name : Text)
  | notFound (name : Text) (directories : List Path)
  | read (error : ReadError)

namespace SourceError

def message : SourceError → Text
  | .missing name => name
  | .notFound name directories =>
      Text.join ["No key map named ", Text.quote name, " in ",
        Text.bracket (directories.map fun directory => Text.quote directory.toText)]
  | .read error => error.message

/-- There is no such layout or its file cannot be opened. -/
def isUnavailable : SourceError → Bool
  | .missing _ | .notFound .. => true
  | .read error => error.isSystem

end SourceError

abbrev LayoutTexts := Table Text Text

def LayoutTexts.read (texts : LayoutTexts) (name : Text) : Except SourceError Text :=
  match texts.get? name with
  | some text => .ok text
  | none => .error (.missing name)

/-- Directories that are searched one after the other. -/
structure LayoutDirectories where
  directories : List Path

namespace LayoutDirectories

variable {m : Type → Type} [Monad m]

def suffixText : Text := ".kcm"

/-- The file names to try for a layout; the suffix need not be given. -/
def fileNames (name : Text) : List Text :=
  if suffixText.isSuffixOf name then [name] else [name ++ suffixText, name]

def candidates (source : LayoutDirectories) (name : Text) : List Path :=
  source.directories.flatMap fun directory =>
    (fileNames name).map fun file => directory.append (.ofText file)

/-- The first path at which there is a file.  Only a name that is too long is not passed
over. -/
def firstFile (files : Files m) : List Path → Session m SourceError (Option Path)
  | [] => return none
  | path :: rest => do
      match ← Session.status files path with
      | .file _ => return some path
      | .absent .longName => throw (.read (.opening (.refused .longName path.toText)))
      | _ => firstFile files rest

def find (source : LayoutDirectories) (files : Files m) (name : Text) :
    Session m SourceError Path := do
  match ← firstFile files (source.candidates name) with
  | some path => return path
  | none => throw (.notFound name source.directories)

def read (source : LayoutDirectories) (files : Files m) (name : Text) :
    Session m SourceError Text := do
  let path ← source.find files name
  Session.note (.reading name path.toText)
  (Session.readText files path).mapError .read

end LayoutDirectories

end KeyLayout
