import KeyLayout.Tool.Check
import KeyLayout.Tool.Lookup
import KeyLayout.Tool.Type

namespace KeyLayout

/-! The tools by their names. -/

inductive Tool where
  | check
  | type
  | lookup
  deriving DecidableEq

namespace Tool

def all : List Tool := [.check, .type, .lookup]

def name : Tool → Text
  | .check => "check"
  | .type => "type"
  | .lookup => "lookup"

def ofName? (name : Text) : Option Tool :=
  all.find? (·.name == name)

end Tool

/-- How a run ends. -/
inductive Ending where
  | dismissed (dismissal : Dismissal)
  | finished (transcript : Transcript)
  | failed (error : ToolError)

variable {m : Type → Type} [Monad m]

/-- Runs on the request if the command line holds one. -/
def Ending.ofRequest {ρ : Type} (request : Except Dismissal ρ)
    (run : ρ → m (Except ToolError Transcript)) : m Ending := do
  match request with
  | .error dismissal => return .dismissed dismissal
  | .ok request =>
      match ← run request with
      | .ok transcript => return .finished transcript
      | .error error => return .failed error

def Tool.run (tool : Tool) (files : Files m) (arguments : List Text) : m Ending :=
  match tool with
  | .check => Ending.ofRequest (CheckRequest.ofArguments arguments) (CheckRequest.run files)
  | .type => Ending.ofRequest (TypeRequest.ofArguments arguments) (TypeRequest.run files)
  | .lookup =>
      Ending.ofRequest (LookupRequest.ofArguments arguments) (LookupRequest.run files)

end KeyLayout
