import KeyLayout.Grammar.Fault
import KeyLayout.Grammar.Token
import KeyLayout.Numeral

namespace KeyLayout

/-! Taking one expected thing from the front of a line. -/

namespace Token

def expect (what : Text) : List Token → Except SyntaxFault (Token × List Token)
  | [] => .error (.missing what)
  | token :: rest => .ok (token, rest)

def expectWord (what : Text) : List Token → Except SyntaxFault (Text × List Token)
  | [] => .error (.missing what)
  | .word text :: rest => .ok (text, rest)
  | token :: _ => .error (.mismatch what token.text)

theorem length_expect {what : Text} {tokens rest : List Token} {token : Token}
    (hexpect : expect what tokens = .ok (token, rest)) :
    rest.length < tokens.length := by
  cases tokens with
  | nil => contradiction
  | cons head tail =>
      cases hexpect
      exact Nat.lt_succ_self _

theorem length_expectWord {what text : Text} {tokens rest : List Token}
    (hexpect : expectWord what tokens = .ok (text, rest)) :
    rest.length < tokens.length := by
  cases tokens with
  | nil => contradiction
  | cons head tail =>
      cases head <;> cases hexpect
      exact Nat.lt_succ_self _

end Token

def KeyCode.what : Text := "a key code name"

def KeyCode.read (label : Text) : Except SyntaxFault KeyCode :=
  match KeyCode.ofLabel? label with
  | some code => .ok code
  | none => .error (.unknownKeyCode label)

/-- A device code.  A zero before other digits makes them octal. -/
def DeviceCode.read (text : Text) : Except SyntaxFault Nat :=
  if Numeral.isLeadingZero text then
    match Numeral.digits? 8 text with
    | some digits => .ok (Numeral.value 8 digits)
    | none => .error (.mismatch "an octal integer after a leading zero" text)
  else
    match Numeral.prefixedInteger? text with
    | some (.ofNat code) => .ok code
    | some (.negSucc _) => .error (.mismatch "a non-negative integer" text)
    | none => .error (.mismatch "an integer" text)

end KeyLayout
