import KeyLayout.CommandLine.Usage
import KeyLayout.Configured
import KeyLayout.Typing.Synthesizer

namespace KeyLayout

/-! What the tools print, and which errors they print instead of failing with them. -/

inductive ToolError where
  | load (error : LoadError)
  | settings (error : SettingsError)
  | combination (fault : CombinationFault)
  | typing (error : TypingError)
  | unknownKey (label : Text)
  /-- An argument that consists of a separator only names nothing. -/
  | noKey
  | noFormat
  | noSettings
  | noMetaState

namespace ToolError

def message : ToolError → Text
  | .load error => error.message
  | .settings error => error.message
  | .combination fault => fault.message
  | .typing error => error.message
  | .unknownKey label => Text.join ["Unknown key code name ", Text.quote label]
  | .noKey => "No key is named"
  | .noFormat => "[] is not a valid Format"
  | .noSettings => "No settings file is named"
  | .noMetaState => "No modifiers are named"

/-- The errors that end a run in good order. -/
def isExpected : ToolError → Bool
  | .settings error => error.isExpected
  | .typing (.notAModifier _) => false
  | .noKey | .noSettings | .noMetaState => false
  | _ => true

end ToolError

/-- What a run prints to either stream, and whether something was wrong.  Writing
to the streams is taken never to fail, also where one cannot encode the text; the command
line shows lone surrogates as replacement characters. -/
structure Transcript where
  failed : Bool := false
  output : Text := []
  complaints : Text := []
  deriving DecidableEq

namespace Transcript

def status (transcript : Transcript) : Nat :=
  if transcript.failed then 1 else 0

/-- The second run after the first. -/
def append (first second : Transcript) : Transcript where
  failed := first.failed || second.failed
  output := first.output ++ second.output
  complaints := first.complaints ++ second.complaints

/-- The notes that are shown; warnings always are. -/
def shownNotes (verbose : Bool) (notes : List Note) : Text :=
  (notes.filter fun note => verbose || note.level = .warning).flatMap Note.line

def lineOf (text : Text) : Text :=
  text ++ [.scalar '\n']

/-- The run that ends as the report says, if its error is one that may be printed. -/
def ofReport (verbose : Bool) (printable : ToolError → Bool)
    (report : Report ToolError Text) : Except ToolError Transcript :=
  let notes := shownNotes verbose report.notes
  match report.outcome with
  | .ok output => .ok { output := output, complaints := notes }
  | .error error =>
      if printable error then
        .ok { failed := true, complaints := notes ++ lineOf error.message }
      else
        .error error

end Transcript

end KeyLayout
