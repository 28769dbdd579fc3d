import KeyLayout.CommandLine.Operand

namespace KeyLayout

/-! Matching a command line against the options and operands that a tool has.  Options
may stand anywhere; of repeated ones the last counts. -/

structure Usage where
  options : List OptionName
  operands : List Arity

/-- Why a tool is not run. -/
inductive Dismissal where
  | help
  | misuse
  deriving DecidableEq

def Dismissal.status : Dismissal → Nat
  | .help => 0
  | .misuse => 2

/-- What a command line says of an option with a value.  A separator in place of the value
leaves it blank. -/
inductive Given (α : Type) where
  | absent
  | blank
  | value (value : α)
  deriving DecidableEq

namespace Given

variable {α β : Type}

def value? : Given α → Option α
  | .value found => some found
  | _ => none

/-- A value that cannot be converted counts as blank. -/
def convert (convert? : α → Option β) : Given α → Given β
  | .absent => .absent
  | .blank => .blank
  | .value found =>
      match convert? found with
      | some converted => .value converted
      | none => .blank

/-- The value, or the default of an option that is absent. -/
def orDefault? (default : α) : Given α → Option α
  | .absent => some default
  | .blank => none
  | .value found => some found

end Given

/-- The options with the values they have, and the arguments of the operands, both in
order. -/
structure Invocation where
  options : List (OptionName × Option Text) := []
  operands : List (List Text) := []
  deriving DecidableEq

namespace Invocation

def has (invocation : Invocation) (name : OptionName) : Bool :=
  invocation.options.any (·.1 = name)

def given (invocation : Invocation) (name : OptionName) : Given Text :=
  match invocation.options.reverse.lookup name with
  | none => .absent
  | some none => .blank
  | some (some value) => .value value

end Invocation

/-- What is known of a command line that was read up to some argument. -/
structure PartialMatch where
  pending : List Arity
  found : Invocation := {}
  surplus : Bool := false
  deriving DecidableEq

namespace PartialMatch

def withOption (matched : PartialMatch) (name : OptionName) (value : Option Text) :
    PartialMatch :=
  { matched with found.options := matched.found.options ++ [(name, value)] }

/-- Help is given as soon as it is asked for. -/
def takeFlag (matched : PartialMatch) (name : OptionName) : Except Dismissal PartialMatch :=
  if name = .help then .error .help else .ok (matched.withOption name none)

/-- The first separator among the arguments is no part of them, be it the only one. -/
def takeValue (matched : PartialMatch) (name : OptionName) (value : Text) :
    Except Dismissal PartialMatch :=
  if value = Argument.separatorText then .ok (matched.withOption name none)
  else if name.accepts value then .ok (matched.withOption name (some value))
  else .error .misuse

/-- The flags of the letters after a dash.  An equals sign may set the first letter off
from the others. -/
def flags? (offered : List OptionName) (letters : Text) : Option (List OptionName) :=
  let flagOf := OptionName.ofLetter? offered
  match letters with
  | first :: .scalar '=' :: next :: rest => (first :: next :: rest).mapM flagOf
  | letters => letters.mapM flagOf

/-- All letters have to be flags before one of them takes effect. -/
def takeLetters (matched : PartialMatch) (offered : List OptionName) (letters : Text) :
    Except Dismissal PartialMatch :=
  match flags? offered letters with
  | none => .error .misuse
  | some names => names.foldlM takeFlag matched

/-- The first separator among the arguments is no part of them. -/
def takeOperand (matched : PartialMatch) (texts : List Text) : PartialMatch :=
  { matched with
    pending := matched.pending.tail
    found.operands := matched.found.operands ++ [texts.erase Argument.separatorText] }

/-- The operands get their shares; the arguments that nobody wants are left over. -/
def takeShares (matched : PartialMatch) (arguments : List (Text × Argument)) :
    List Nat → PartialMatch × List (Text × Argument)
  | [] => (matched, arguments)
  | count :: counts =>
      takeShares (matched.takeOperand ((arguments.take count).map (·.1)))
        (arguments.drop count) counts

def takeOperands (matched : PartialMatch) (arguments : List (Text × Argument)) :
    PartialMatch × List (Text × Argument) :=
  matched.takeShares arguments (Arity.shares matched.pending (arguments.map (·.2)))

/-- Arguments that nobody wants are remembered only as such. -/
def takeSurplus (matched : PartialMatch) (arguments : List (Text × Argument)) :
    PartialMatch :=
  { matched with surplus := matched.surplus || !arguments.isEmpty }

/-- Operands are looked for before every option, and once more after the last one. -/
def run (offered : List OptionName) (matched : PartialMatch)
    (arguments : List (Text × Argument)) : Except Dismissal PartialMatch :=
  match arguments with
  | [] => .ok (matched.takeOperands []).1
  | (_, .word name none) :: rest =>
      if name.takesValue then
        match rest with
        | (value, .operand) :: rest =>
            match matched.takeValue name value with
            | .error dismissal => .error dismissal
            | .ok matched => run offered matched rest
        | _ => .error .misuse
      else
        match matched.takeFlag name with
        | .error dismissal => .error dismissal
        | .ok matched => run offered matched rest
  | (_, .word name (some value)) :: rest =>
      if name.takesValue then
        match matched.takeValue name value with
        | .error dismissal => .error dismissal
        | .ok matched => run offered matched rest
      else
        .error .misuse
  | (_, .letters letters) :: rest =>
      match matched.takeLetters offered letters with
      | .error dismissal => .error dismissal
      | .ok matched => run offered matched rest
  | (_, .stray) :: rest => run offered { matched with surplus := true } rest
  | argument :: rest =>
      let (matched, left) := matched.takeOperands (argument :: rest)
      if left.all (!·.2.isOption) then
        .ok (matched.takeSurplus left)
      else if left.length ≤ rest.length then
        run offered matched left
      else
        run offered (matched.takeSurplus [argument]) (rest.dropWhile (!·.2.isOption))
termination_by arguments.length
decreasing_by
  all_goals simp only [List.length_cons]
  · omega
  · omega
  · omega
  · omega
  · omega
  · omega
  · exact Nat.lt_succ_of_le (List.dropWhile_suffix _).length_le

end PartialMatch

/-- Surplus arguments, and missing ones, dismiss the whole command line. -/
def Usage.invocation (usage : Usage) (texts : List Text) : Except Dismissal Invocation :=
  match Argument.ofTexts usage.options texts with
  | .error _ => .error .misuse
  | .ok arguments =>
      match PartialMatch.run usage.options { pending := usage.operands } arguments with
      | .error dismissal => .error dismissal
      | .ok matched =>
          if matched.surplus ∨ matched.pending.any Arity.isRequired then .error .misuse
          else .ok matched.found

end KeyLayout
