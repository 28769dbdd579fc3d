namespace KeyLayout

/-! Numbers of the binary64 format as exact values. -/

/-- A finite number is its mantissa times the power of two of its exponent. -/
inductive Binary64 where
  | finite (negative : Bool) (mantissa : Nat) (exponent : Int)
  | infinite (negative : Bool)
  | notANumber
  deriving DecidableEq

namespace Binary64

/-- The mantissa of a normal number has this many bits. -/
def precision : Nat := 53

def leastExponent : Int := -1074

def greatestExponent : Int := 971

/-- The quotient rounded to the nearest integer, and from halfway to the even one. -/
def roundQuotient (numerator denominator : Nat) : Nat :=
  let quotient := numerator / denominator
  let rest := 2 * (numerator % denominator)
  if rest < denominator then quotient
  else if rest > denominator then quotient + 1
  else quotient + quotient % 2

def natPower (base : Nat) (exponent : Int) : Nat :=
  Nat.pow base exponent.toNat

/-- The exponent with which the quotient has a mantissa of full precision, but no less
than the least one. -/
def exponentFor (numerator denominator : Nat) : Int :=
  let estimate : Int := (numerator.log2 : Int) - denominator.log2 - precision
  let fits := numerator * natPower 2 (-estimate) <
    denominator * natPower 2 precision * natPower 2 estimate
  let exponent := if fits then estimate else estimate + 1
  if exponent < leastExponent then leastExponent else exponent

/-- The number with this mantissa and exponent, unless it is out of range. -/
def limited (negative : Bool) (mantissa : Nat) (exponent : Int) : Binary64 :=
  if exponent > greatestExponent then .infinite negative
  else .finite negative mantissa exponent

/-- A mantissa that has grown by one bit in rounding gives it up to the exponent. -/
def ofRounded (negative : Bool) (mantissa : Nat) (exponent : Int) : Binary64 :=
  if mantissa = natPower 2 precision then limited negative (mantissa / 2) (exponent + 1)
  else limited negative mantissa exponent

/-- The number nearest to the quotient. -/
def ofQuotient (negative : Bool) (numerator denominator : Nat) : Binary64 :=
  let exponent := exponentFor numerator denominator
  ofRounded negative
    (roundQuotient (numerator * natPower 2 (-exponent)) (denominator * natPower 2 exponent))
    exponent

/-- Decimal exponents beyond this are out of reach of the format on either side. -/
def decimalReach : Int := 400

/-- The number nearest to the digits times the power of ten. -/
def ofDecimal (negative : Bool) (digits : Nat) (exponent : Int) : Binary64 :=
  let magnitude := (Nat.toDigits 10 digits).length + exponent
  if digits = 0 ∨ magnitude < -decimalReach then .finite negative 0 leastExponent
  else if magnitude > decimalReach then .infinite negative
  else ofQuotient negative (digits * natPower 10 exponent) (natPower 10 (-exponent))

/-- The integer part, which only a finite number has. -/
def truncate? : Binary64 → Option Int
  | .finite negative mantissa exponent =>
      let value : Int := mantissa * natPower 2 exponent / natPower 2 (-exponent)
      some (if negative then -value else value)
  | _ => none

end Binary64

end KeyLayout
