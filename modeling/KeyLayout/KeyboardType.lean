import KeyLayout.Text.CodePoint

namespace KeyLayout

/-! What kind of keyboard a layout is for, and what kind of layout is being read. -/

inductive KeyboardType where
  | unknown
  | numeric
  | predictive
  | alpha
  | full
  | specialFunction
  | overlay
  deriving DecidableEq

namespace KeyboardType

def all : List KeyboardType :=
  [.unknown, .numeric, .predictive, .alpha, .full, .specialFunction, .overlay]

def name : KeyboardType → Text
  | .unknown => "UNKNOWN"
  | .numeric => "NUMERIC"
  | .predictive => "PREDICTIVE"
  | .alpha => "ALPHA"
  | .full => "FULL"
  | .specialFunction => "SPECIAL_FUNCTION"
  | .overlay => "OVERLAY"

def ofName? (name : Text) : Option KeyboardType :=
  all.find? (·.name == name)

/-- The number that stands for the type in the byte form. -/
def code (type : KeyboardType) : Nat :=
  all.idxOf type

def ofCode? (code : Int) : Option KeyboardType :=
  match code with
  | .ofNat index => all[index]?
  | .negSucc _ => none

end KeyboardType

/-- A base layout may declare the keyboard type; an overlay may only add keys or
override them; a layout read as either may do both. -/
inductive Format where
  | base
  | overlay
  | any
  deriving DecidableEq

namespace Format

def all : List Format := [.base, .overlay, .any]

def name : Format → Text
  | .base => "base"
  | .overlay => "overlay"
  | .any => "any"

def ofName? (name : Text) : Option Format :=
  all.find? (·.name == name)

end Format

end KeyLayout
