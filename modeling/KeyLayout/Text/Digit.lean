import KeyLayout.Text.CodePoint

namespace KeyLayout

/-! Digits.  Every script writes its ten decimal digits as consecutive code points, so
the table of their zeros holds them all. -/

def Text.decimalZeros : List Nat :=
  [0x30, 0x660, 0x6F0, 0x7C0, 0x966, 0x9E6, 0xA66, 0xAE6, 0xB66, 0xBE6, 0xC66, 0xCE6, 0xD66,
    0xDE6, 0xE50, 0xED0, 0xF20, 0x1040, 0x1090, 0x17E0, 0x1810, 0x1946, 0x19D0, 0x1A80, 0x1A90,
    0x1B50, 0x1BB0, 0x1C40, 0x1C50, 0xA620, 0xA8D0, 0xA900, 0xA9D0, 0xA9F0, 0xAA50, 0xABF0,
    0xFF10, 0x104A0, 0x10D30, 0x11066, 0x110F0, 0x11136, 0x111D0, 0x112F0, 0x11450, 0x114D0,
    0x11650, 0x116C0, 0x11730, 0x118E0, 0x11950, 0x11C50, 0x11D50, 0x11DA0, 0x16A60, 0x16AC0,
    0x16B50, 0x1D7CE, 0x1D7D8, 0x1D7E2, 0x1D7EC, 0x1D7F6, 0x1E140, 0x1E2F0, 0x1E950, 0x1FBF0]

namespace CodePoint

/-- The value of a decimal digit of any script. -/
def decimalValue? (point : CodePoint) : Option Nat :=
  (Text.decimalZeros.find? fun first =>
    first ≤ point.toNat && point.toNat < first + 10).map (point.toNat - ·)

def isAsciiDigit (point : CodePoint) : Bool :=
  0x30 ≤ point.toNat && point.toNat ≤ 0x39

/-- The value of an ASCII digit or letter; letters count on from ten in either case. -/
def alphanumericValue? (point : CodePoint) : Option Nat :=
  let value := point.toNat
  if 0x30 ≤ value && value ≤ 0x39 then some (value - 0x30)
  else if 0x41 ≤ value && value ≤ 0x5A then some (value - 0x41 + 10)
  else if 0x61 ≤ value && value ≤ 0x7A then some (value - 0x61 + 10)
  else none

/-- The value of a digit below the base. -/
def digitValue? (base : Nat) (point : CodePoint) : Option Nat :=
  point.alphanumericValue?.filter (· < base)

end CodePoint

/-- The number that the digits denote in the base, or nothing if one is no digit. -/
def Text.digitsValue? (base : Nat) (text : Text) : Option Nat :=
  text.foldlM (fun total point => (point.digitValue? base).map (total * base + ·)) 0

end KeyLayout
