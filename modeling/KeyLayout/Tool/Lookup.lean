import KeyLayout.KeyMap.Lookup
import KeyLayout.Tool.Check

namespace KeyLayout

/-! The tool that shows what a key produces. -/

structure LookupRequest where
  layout : Path
  key : Option Text
  modifiers : Text := "base"
  format : Given Format := .absent
  verbose : Bool := false
  deriving DecidableEq

namespace LookupRequest

def usage : Usage where
  options := [.help, .format, .verbose]
  operands := [.one, .one, .optional]

def ofArguments (arguments : List Text) : Except Dismissal LookupRequest :=
  match usage.invocation arguments with
  | .error dismissal => .error dismissal
  | .ok invocation =>
      match invocation.operands with
      | [layout, key, modifiers] =>
          .ok {
            layout := .ofText layout.flatten
            key := key.head?
            modifiers := modifiers.head?.getD (Text.ofString "base")
            format := invocation.format
            verbose := invocation.has .verbose }
      | _ => .error .misuse

def keyOf : Option Text → Except ToolError KeyCode
  | none => .error .noKey
  | some label =>
      match KeyCode.ofLabel? label with
      | none => .error (.unknownKey label)
      | some code => .ok code

def shownCharacter : Option CodePoint → Text
  | none => "None"
  | some point => Text.quote [point]

def shownFallback : Option FallbackAction → Text
  | none => "None"
  | some action => Text.join [action.code.label, " ", action.state.format]

def description (map : KeyMap) (code : KeyCode) (state : MetaState) : Text :=
  [Text.join ["character: ", shownCharacter (map.character? code state)],
    Text.join ["label:     ", shownCharacter (map.label? code)],
    Text.join ["number:    ", shownCharacter (map.number? code)],
    Text.join ["fallback:  ", shownFallback (map.fallbackAction? code state)]].flatMap
      Transcript.lineOf

variable {m : Type → Type} [Monad m]

def describe (files : Files m) (request : LookupRequest) : Session m ToolError Text := do
  let format ← Session.ofExcept (Format.ofGiven request.format)
  let map ← (KeyMap.ofFile files request.layout format).mapError .load
  let code ← Session.ofExcept (keyOf request.key)
  let state ← Session.ofExcept ((MetaState.parse request.modifiers).mapError .combination)
  return description map code state

def run (files : Files m) (request : LookupRequest) : m (Except ToolError Transcript) := do
  let report ← (describe files request).report
  return Transcript.ofReport request.verbose ToolError.isExpected report

end LookupRequest

end KeyLayout
