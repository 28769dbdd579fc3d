import KeyLayout.Text.Blank
import KeyLayout.Text.Digit

namespace KeyLayout.Numeral

/-! Integers in words of digits.  Digits of any script count as decimal digits, and an
underscore may stand between two digits. -/

/-- Decimal numerals with more digits than this are neither read nor written. -/
def decimalLimit : Nat := 4300

/-- The decimal numeral of an integer, unless it has too many digits. -/
def write? (value : Int) : Option Text :=
  if value.natAbs < Nat.pow 10 decimalLimit then some (Text.ofInt value) else none

/-- What is said instead of an integer that cannot be written. -/
def tooLong : Text :=
  Text.join ["Exceeds the limit (", Text.ofNat decimalLimit,
    " digits) for integer string conversion; use sys.set_int_max_str_digits() to increase ",
    "the limit"]

/-- Every decimal digit as the ASCII digit of its value. -/
def unifyDigits (text : Text) : Text :=
  text.map fun point =>
    match point.decimalValue? with
    | some value => .scalar (Char.ofNat (0x30 + value))
    | none => point

/-- The values of the digits, which single underscores may separate. -/
def digits? (base : Nat) : Text → Option (List Nat)
  | [] => none
  | [point] => (point.digitValue? base).map ([·])
  | point :: .scalar '_' :: rest => do
      let digit ← point.digitValue? base
      return digit :: (← digits? base rest)
  | point :: rest => do
      let digit ← point.digitValue? base
      return digit :: (← digits? base rest)

def value (base : Nat) (digits : List Nat) : Nat :=
  digits.foldl (fun total digit => total * base + digit) 0

def decimal? (text : Text) : Option Nat := do
  let digits ← digits? 10 text
  if digits.length ≤ decimalLimit then some (value 10 digits) else none

def dropUnderscore : Text → Text
  | .scalar '_' :: rest => rest
  | text => text

/-- The base that a letter after a leading zero announces. -/
def announcedBase? : CodePoint → Option Nat
  | .scalar 'x' | .scalar 'X' => some 16
  | .scalar 'o' | .scalar 'O' => some 8
  | .scalar 'b' | .scalar 'B' => some 2
  | _ => none

/-- A numeral whose base is announced by its first two characters.  A decimal one that
starts with a zero denotes zero or nothing. -/
def prefixed? (text : Text) : Option Nat :=
  match text with
  | .scalar '0' :: letter :: rest =>
      match announcedBase? letter with
      | some base => (digits? base (dropUnderscore rest)).map (value base)
      | none => (decimal? text).filter (· = 0)
  | _ => decimal? text

def signed? (read : Text → Option Nat) : Text → Option Int
  | .scalar '-' :: rest => (read rest).map fun value => -Int.ofNat value
  | .scalar '+' :: rest => (read rest).map Int.ofNat
  | text => (read text).map Int.ofNat

/-- White space around a numeral; the control codes that separate records are none. -/
def isMargin (point : CodePoint) : Bool :=
  point.isBlank && !(0x1C ≤ point.toNat && point.toNat ≤ 0x1F)

def trimMargin (text : Text) : Text :=
  ((text.dropWhile isMargin).reverse.dropWhile isMargin).reverse

def prefixedInteger? (text : Text) : Option Int :=
  signed? prefixed? (unifyDigits (trimMargin text))

def decimalInteger? (text : Text) : Option Int :=
  signed? decimal? (unifyDigits (trimMargin text))

/-- A zero and after it more digits, all of ASCII. -/
def isLeadingZero : Text → Bool
  | .scalar '0' :: point :: rest => (point :: rest).all CodePoint.isAsciiDigit
  | _ => false

end KeyLayout.Numeral
