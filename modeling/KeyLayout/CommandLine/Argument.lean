import KeyLayout.KeyboardType
import KeyLayout.Numeral

namespace KeyLayout

/-! Options, and how an argument of a command line is read: as an option, or as one of
the operands. -/

inductive OptionName where
  | help
  | verbose
  | format
  | settings
  | metaState
  | deviceId
  deriving DecidableEq

namespace OptionName

/-- What follows two dashes. -/
def word : OptionName → Text
  | .help => "help"
  | .verbose => "verbose"
  | .format => "format"
  | .settings => "settings"
  | .metaState => "meta-state"
  | .deviceId => "device-id"

/-- What may follow a single dash.  No option with a value has a letter. -/
def letter? : OptionName → Option CodePoint
  | .help => some (.scalar 'h')
  | .verbose => some (.scalar 'v')
  | _ => none

def takesValue : OptionName → Bool
  | .help | .verbose => false
  | _ => true

def accepts (name : OptionName) (value : Text) : Bool :=
  match name with
  | .format => (Format.ofName? value).isSome
  | .deviceId => (Numeral.decimalInteger? value).isSome
  | _ => true

def ofLetter? (offered : List OptionName) (letter : CodePoint) : Option OptionName :=
  offered.find? fun name => name.letter? = some letter

end OptionName

inductive Argument where
  | operand
  /-- After it, everything is an operand. -/
  | separator
  | word (name : OptionName) (value : Option Text)
  | letters (letters : Text)
  /-- It looks like an option but is none. -/
  | stray
  deriving DecidableEq

/-- The start of more than one option and the whole of none. -/
structure Ambiguous where
  text : Text

namespace Argument

def dash : CodePoint := .scalar '-'

def separatorText : Text := [dash, dash]

def equalsMark : CodePoint := .scalar '='

def isOption : Argument → Bool
  | .operand | .separator => false
  | _ => true

/-- The part before the first equals sign, and the part after it if there is one. -/
def splitValue (text : Text) : Text × Option Text :=
  (text.takeWhile (· ≠ equalsMark),
    match text.dropWhile (· ≠ equalsMark) with
    | [] => none
    | _ :: value => some value)

def dropFinalNewline (text : Text) : Text :=
  if text.getLast? = some (.scalar '\n') then text.dropLast else text

def isDigit (point : CodePoint) : Bool :=
  point.decimalValue?.isSome

/-- Digits, or a fraction whose integral part may be empty. -/
def isNumber (text : Text) : Bool :=
  match text.dropWhile isDigit with
  | [] => !text.isEmpty
  | .scalar '.' :: fraction => !fraction.isEmpty && fraction.all isDigit
  | _ => false

/-- After a dash: a negative number or a phrase is an operand all the same. -/
def unnamed (rest : Text) : Argument :=
  if isNumber (dropFinalNewline rest) ∨ rest.contains (.scalar ' ') then .operand else .stray

/-- After two dashes: the word of an option, or enough of its start. -/
def ofWord (offered : List OptionName) (rest : Text) : Except Ambiguous Argument :=
  let (start, value) := splitValue rest
  match offered.find? (·.word = start) with
  | some name => .ok (.word name value)
  | none =>
      match offered.filter (start.isPrefixOf ·.word) with
      | [] => .ok (unnamed (dash :: rest))
      | [name] => .ok (.word name value)
      | _ => .error ⟨start⟩

def ofText (offered : List OptionName) : Text → Except Ambiguous Argument
  | .scalar '-' :: .scalar '-' :: rest => ofWord offered rest
  | .scalar '-' :: letter :: rest =>
      match OptionName.ofLetter? offered letter with
      | some _ => .ok (.letters (letter :: rest))
      | none => .ok (unnamed (letter :: rest))
  | _ => .ok .operand

/-- The arguments with what they are read as. -/
def ofTexts (offered : List OptionName) :
    List Text → Except Ambiguous (List (Text × Argument))
  | [] => .ok []
  | text :: rest =>
      if text = separatorText then
        .ok ((text, .separator) :: rest.map (·, .operand))
      else
        match ofText offered text with
        | .error error => .error error
        | .ok argument => ((text, argument) :: ·) <$> ofTexts offered rest

end Argument

end KeyLayout
