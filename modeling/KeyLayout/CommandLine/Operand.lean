import KeyLayout.CommandLine.Argument

namespace KeyLayout

/-! How the operands of a tool share the arguments that are no options.  Every operand
takes as many as it can, as long as those after it can have theirs. -/

/-- How many arguments an operand takes. -/
inductive Arity where
  | one
  | optional
  | many
  deriving DecidableEq

namespace Arity

def isRequired (arity : Arity) : Bool :=
  arity ≠ .optional

def isSeparator (argument : Argument) : Bool :=
  argument = .separator

/-- The numbers from the first down to the second. -/
def downFrom (high low : Nat) : List Nat :=
  (List.range' low (high + 1 - low)).reverse

/-- How many of the foremost arguments the operand can have, most first.  A separator
counts, although it is no part of the value. -/
def counts (arity : Arity) (arguments : List Argument) : List Nat :=
  let separators := (arguments.takeWhile isSeparator).length
  match arguments.dropWhile isSeparator with
  | .operand :: rest =>
      let trailing := (rest.takeWhile isSeparator).length
      match arity with
      | .one => downFrom (separators + 1 + trailing) (separators + 1)
      | .optional => downFrom (separators + 1 + trailing) 0
      | .many =>
          let others := (rest.takeWhile fun argument => !argument.isOption).length
          downFrom (separators + 1 + others) (separators + 1)
  | _ => if arity.isRequired then [] else downFrom separators 0

/-- The shares of all operands, taken from the front. -/
def shares? : List Arity → List Argument → Option (List Nat)
  | [], _ => some []
  | arity :: rest, arguments =>
      (arity.counts arguments).findSome? fun count =>
        (shares? rest (arguments.drop count)).map (count :: ·)

/-- The shares of as many operands as can be served. -/
def shares (arities : List Arity) (arguments : List Argument) : List Nat :=
  ((downFrom arities.length 0).findSome? fun served =>
    shares? (arities.take served) arguments).getD []

end Arity

end KeyLayout
