import KeyLayout.Text.Printable

namespace KeyLayout

/-! Texts in quotation marks, as messages show them.  The mark is the apostrophe,
unless the text holds that and not the double mark. -/

def CodePoint.apostrophe : CodePoint := .scalar '\x27'

def CodePoint.doubleMark : CodePoint := .scalar '\x22'

def CodePoint.backslash : CodePoint := .scalar '\\'

namespace Text

/-- Lower-case hexadecimal digits, led by zeros up to the width. -/
def paddedHex (width value : Nat) : Text :=
  let digits := Text.hexOfNat value
  List.replicate (width - digits.length) (.scalar '0') ++ digits

/-- The shortest of the three numeric escapes that holds the code point. -/
def numericEscape (value : Nat) : Text :=
  if value < 0x100 then
    .backslash :: .scalar 'x' :: paddedHex 2 value
  else if value < 0x10000 then
    .backslash :: .scalar 'u' :: paddedHex 4 value
  else
    .backslash :: .scalar 'U' :: paddedHex 8 value

def quotePoint (mark point : CodePoint) : Text :=
  if point = mark ∨ point = .backslash then [.backslash, point]
  else if point = .scalar '\n' then [.backslash, .scalar 'n']
  else if point = .scalar '\r' then [.backslash, .scalar 'r']
  else if point = .scalar '\t' then [.backslash, .scalar 't']
  else if point.isPrintable then [point]
  else numericEscape point.toNat

def quotationMark (text : Text) : CodePoint :=
  if text.contains .apostrophe && !text.contains .doubleMark then .doubleMark
  else .apostrophe

def quote (text : Text) : Text :=
  let mark := quotationMark text
  mark :: text.flatMap (quotePoint mark) ++ [mark]

/-- A bracketed list, its entries separated by a comma and a space. -/
def bracket (entries : List Text) : Text :=
  .scalar '[' :: joinWith ", " entries ++ [.scalar ']']

end Text

end KeyLayout
