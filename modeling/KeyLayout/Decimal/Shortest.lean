import KeyLayout.Decimal.Binary64
import KeyLayout.Text.CodePoint

namespace KeyLayout

/-! The shortest decimal that reads back as a binary64 number, the nearest one of those. -/

/-- The digits times the power of ten. -/
structure Decimal where
  digits : Nat
  exponent : Int
  deriving DecidableEq

namespace Decimal

/-- The power of ten at or below the quotient. -/
def leadingExponent (numerator denominator : Nat) : Int :=
  if denominator ≤ numerator then
    ((Nat.toDigits 10 (numerator / denominator)).length : Int) - 1
  else
    let ratio := (denominator + numerator - 1) / numerator
    Int.negOfNat (Nat.toDigits 10 (ratio - 1)).length

/-- The decimals with a given last place around a number, the nearer one first. -/
def neighbours (numerator denominator : Nat) (place : Int) : List Decimal :=
  let scaled := numerator * Binary64.natPower 10 (-place)
  let unit := denominator * Binary64.natPower 10 place
  let below := scaled / unit
  let rest := 2 * (scaled % unit)
  let lower : Decimal := ⟨below, place⟩
  let upper : Decimal := ⟨below + 1, place⟩
  if rest < unit ∨ (rest = unit ∧ below % 2 = 0) then [lower, upper] else [upper, lower]

/-- Whether the decimal rounds to the number with this mantissa and exponent. -/
def readsAs (mantissa : Nat) (exponent : Int) (decimal : Decimal) : Bool :=
  decimal.digits ≠ 0 &&
    Binary64.ofDecimal false decimal.digits decimal.exponent =
      .finite false mantissa exponent

/-- Seventeen digits always read back. -/
def mostDigits : Nat := 17

def shortest (mantissa : Nat) (exponent : Int) : Decimal :=
  let numerator := mantissa * Binary64.natPower 2 exponent
  let denominator := Binary64.natPower 2 (-exponent)
  let leading := leadingExponent numerator denominator
  let places := (List.range mostDigits).map fun (count : Nat) => leading - (count : Int)
  ((places.flatMap (neighbours numerator denominator)).find?
    (readsAs mantissa exponent)).getD ⟨0, 0⟩

/-- The decimal without zeros at the end of its digits. -/
def digitTexts (decimal : Decimal) : Text × Int :=
  let digits := Nat.toDigits 10 decimal.digits
  let kept := (digits.reverse.dropWhile (· = '0')).reverse
  (kept.map CodePoint.scalar, decimal.exponent + digits.length - 1)

end Decimal

/-- From which power of ten on a number is written with an exponent, on either side. -/
structure NumberStyle where
  leastPositional : Int
  greatestPositional : Int
  exponentWidth : Nat

/-- Sixteen digits before the point, or three zeros after it, are still written out. -/
def Binary64.style : NumberStyle := ⟨-4, 15, 2⟩

namespace Binary64

def zeros (count : Int) : Text :=
  List.replicate count.toNat (CodePoint.scalar '0')

/-- Digits whose first one stands for the power of ten `leading`, without an exponent. -/
def positional (digits : Text) (leading : Int) : Text :=
  if leading < 0 then
    Text.join ["0.", zeros (-leading - 1), digits]
  else
    let whole := digits.take (leading.toNat + 1)
    let fraction := digits.drop (leading.toNat + 1)
    Text.join [whole, zeros (leading + 1 - digits.length), ".",
      if fraction.isEmpty then "0" else fraction]

def withExponent (digits : Text) (leading : Int) : Text :=
  let magnitude := Text.ofNat leading.natAbs
  let fraction := digits.drop 1
  Text.join [digits.take 1, if fraction.isEmpty then [] else "." ++ fraction, "e",
    if leading < 0 then "-" else "+",
    zeros ((style.exponentWidth : Int) - magnitude.length), magnitude]

def format : Binary64 → Text
  | .notANumber => "nan"
  | .infinite negative => if negative then "-inf" else "inf"
  | .finite negative mantissa exponent =>
      let sign : Text := if negative then "-" else ""
      if mantissa = 0 then
        sign ++ "0.0"
      else
        let (digits, leading) := (Decimal.shortest mantissa exponent).digitTexts
        if style.leastPositional ≤ leading ∧ leading ≤ style.greatestPositional then
          sign ++ positional digits leading
        else
          sign ++ withExponent digits leading

end Binary64

end KeyLayout
