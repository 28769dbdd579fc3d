import KeyLayout.KeyCode
import KeyLayout.Modifier.Combination

namespace KeyLayout

/-! What may be wrong with a layout text, and how it is said. -/

inductive LiteralFault where
  | escape (text : Text)
  | length (text : Text)

def LiteralFault.message : LiteralFault → Text
  | .escape text => Text.join ["Malformed escape sequence in character literal ", text]
  | .length text =>
      Text.join ["Character literal must contain exactly one character: ", text]

inductive DeviceCodeKind where
  | scan
  | usage
  deriving DecidableEq

def DeviceCodeKind.name : DeviceCodeKind → Text
  | .scan => "scan"
  | .usage => "usage"

inductive SyntaxFault where
  | openLiteral (text : Text)
  | missing (what : Text)
  | mismatch (what found : Text)
  | unknownDirective (name : Text)
  | unknownKeyCode (name : Text)
  | unknownType (name : Text)
  | typeInOverlay
  | repeatedType
  | lateType
  | undeclarableType
  | overlayTypeInBase
  | repeatedDeviceCode (kind : DeviceCodeKind) (code : Nat)
  | repeatedKey (code : KeyCode)
  | emptyKey (code : KeyCode)
  | openBlock (code : KeyCode)
  | combination (fault : CombinationFault)
  | literal (fault : LiteralFault)
  | codePointRange (text : Text)
  | malformedValue (text : Text)
  | strayToken (text : Text)
  | missingValue
  | repeatedCharacter
  | repeatedTarget
  | repeatedLabel
  | unfitLabel
  | repeatedNumber
  | unfitNumber
  | repeatedBehavior (mask : MetaState)
  | other (message : Text)

namespace SyntaxFault

def message : SyntaxFault → Text
  | .openLiteral text => Text.join ["Unterminated character literal: ", Text.quote text]
  | .missing what => Text.join ["Expected ", what, ", found end of line"]
  | .mismatch what found => Text.join ["Expected ", what, ", got ", Text.quote found]
  | .unknownDirective name => Text.join ["Unrecognized directive ", Text.quote name]
  | .unknownKeyCode name => Text.join ["Unknown key code name ", Text.quote name]
  | .unknownType name => Text.join ["Unknown keyboard type ", Text.quote name]
  | .typeInOverlay => "Directive 'type' is not allowed in an overlay key map"
  | .repeatedType => "Duplicate keyboard type declaration"
  | .lateType => "Keyboard type must be declared before any key block"
  | .undeclarableType => "Keyboard type UNKNOWN cannot be declared"
  | .overlayTypeInBase => "A base key map must declare a keyboard type other than OVERLAY"
  | .repeatedDeviceCode kind code =>
      Text.join ["Duplicate entry for ", kind.name, " code 0x", Text.hexOfNat code]
  | .repeatedKey code => Text.join ["Duplicate entry for key code ", code.label]
  | .emptyKey code =>
      Text.join ["Empty key ", code.label, ": no label, number or behaviors"]
  | .openBlock code => Text.join ["Unterminated key block for ", code.label]
  | .combination fault => fault.message
  | .literal fault => fault.message
  | .codePointRange text => Text.join ["Code point out of range: ", text]
  | .malformedValue text => Text.join ["Malformed key behavior value ", Text.quote text]
  | .strayToken text => Text.join ["Unexpected ", Text.quote text, " in key behavior"]
  | .missingValue => "Expected a character literal, 'none', 'fallback' or 'replace'"
  | .repeatedCharacter => "Cannot combine multiple character literals or 'none'"
  | .repeatedTarget => "Cannot combine multiple fallback or replacement key codes"
  | .repeatedLabel => "Duplicate label for key"
  | .unfitLabel => "A key label must be a single character"
  | .repeatedNumber => "Duplicate number for key"
  | .unfitNumber => "A key number must be a single character"
  | .repeatedBehavior mask =>
      Text.join ["Duplicate key behavior for modifier ", mask.format]
  | .other message => message

end SyntaxFault

/-- A fault and the line of the layout that has it. -/
structure ParseError where
  layout : Option Text
  line : Int
  fault : SyntaxFault

def ParseError.location (error : ParseError) : Text :=
  match error.layout with
  | none => "line " ++ Text.ofInt error.line
  | some layout => Text.join [layout, ":", Text.ofInt error.line]

def ParseError.message (error : ParseError) : Text :=
  Text.join [error.location, ": ", error.fault.message]

end KeyLayout
