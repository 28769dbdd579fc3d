import KeyLayout.KeyMap.Lookup
import KeyLayout.Tool.Transcript

namespace KeyLayout

/-! The tool that checks layout files and counts what they define. -/

structure CheckRequest where
  files : List Path
  format : Given Format := .absent
  verbose : Bool := false
  deriving DecidableEq

namespace CheckRequest

def usage : Usage where
  options := [.help, .format, .verbose]
  operands := [.many]

end CheckRequest

def Invocation.format (invocation : Invocation) : Given Format :=
  (invocation.given .format).convert Format.ofName?

/-- The format that is asked for, or else either. -/
def Format.ofGiven (given : Given Format) : Except ToolError Format :=
  match given.orDefault? .any with
  | some format => .ok format
  | none => .error .noFormat

namespace CheckRequest

def ofArguments (arguments : List Text) : Except Dismissal CheckRequest :=
  match usage.invocation arguments with
  | .error dismissal => .error dismissal
  | .ok invocation =>
      .ok {
        files := invocation.operands.flatten.map Path.ofText
        format := invocation.format
        verbose := invocation.has .verbose }

/-- A file that cannot be opened is reported; one that is no UTF-8 is an error. -/
def isPrintable : ToolError → Bool
  | .load (.parse _) => true
  | .load (.source error) => error.isUnavailable
  | _ => false

def summary (path : Path) (map : KeyMap) : Text :=
  Transcript.lineOf (Text.join [path.toText, ": ", map.type.name, ", ",
    Text.ofNat map.keys.size, " keys, ", Text.ofNat map.characters.length, " characters"])

variable {m : Type → Type} [Monad m]

def summarize (files : Files m) (given : Given Format) (path : Path) :
    Session m ToolError Text := do
  let format ← Session.ofExcept (Format.ofGiven given)
  let map ← (KeyMap.ofFile files path format).mapError .load
  return summary path map

def checkFile (files : Files m) (request : CheckRequest) (path : Path) :
    m (Except ToolError Transcript) := do
  let report ← (summarize files request.format path).report
  return Transcript.ofReport request.verbose isPrintable report

/-- One file after the other; a bad one does not keep the next from being checked. -/
def checkFiles (files : Files m) (request : CheckRequest) (transcript : Transcript) :
    List Path → m (Except ToolError Transcript)
  | [] => return .ok transcript
  | path :: rest => do
      match ← checkFile files request path with
      | .error error => return .error error
      | .ok checked => checkFiles files request (transcript.append checked) rest

def run (files : Files m) (request : CheckRequest) : m (Except ToolError Transcript) :=
  checkFiles files request {} request.files

end CheckRequest

end KeyLayout
