import KeyLayout.Grammar.Block
import KeyLayout.KeyMap.Basic
import KeyLayout.Note

namespace KeyLayout

/-! A key map under construction, and the steps that extend it by one directive or by
one statement of a block. -/

structure Draft where
  map : KeyMap
  typeDeclared : Bool := false
  blockSeen : Bool := false
  pending : Option PendingKey := none
  deriving DecidableEq

/-- What a step makes of a draft, the tokens that it leaves on the line, and what it
notes. -/
structure DraftStep where
  draft : Draft
  rest : List Token
  notes : List Note := []

namespace Draft

def ofName (name : Text) : Draft where
  map := { name := name }

/-- The draft with its type declared, if a layout of the format may declare it. -/
def withType (format : Format) (draft : Draft) (type : KeyboardType) (rest : List Token) :
    Except SyntaxFault DraftStep :=
  if type = .unknown then
    .error .undeclarableType
  else if type = .overlay ∧ format = .base then
    .error .overlayTypeInBase
  else
    .ok {
      draft := { draft with map := { draft.map with type := type }, typeDeclared := true }
      rest := rest
      notes := [.keyboardType draft.map.name type] }

def declareType (format : Format) (draft : Draft) (tokens : List Token) :
    Except SyntaxFault DraftStep :=
  if format = .overlay then
    .error .typeInOverlay
  else if draft.typeDeclared then
    .error .repeatedType
  else if draft.blockSeen then
    .error .lateType
  else do
    let (name, rest) ← Token.expectWord "a keyboard type" tokens
    match KeyboardType.ofName? name with
    | none => .error (.unknownType name)
    | some type => draft.withType format type rest

def openBlock (line : Nat) (draft : Draft) (code : KeyCode) (rest : List Token) :
    Except SyntaxFault DraftStep :=
  if draft.map.keys.contains code then
    .error (.repeatedKey code)
  else
    .ok {
      draft := { draft with blockSeen := true, pending := some { code := code, line := line } }
      rest := rest }

def deviceTable (draft : Draft) : DeviceCodeKind → Table DeviceCode KeyCode
  | .scan => draft.map.scanCodes
  | .usage => draft.map.usageCodes

def addDeviceCode (draft : Draft) (kind : DeviceCodeKind) (device : Nat) (code : KeyCode) :
    Draft :=
  match kind with
  | .scan =>
      { draft with map :=
        { draft.map with scanCodes := draft.map.scanCodes.insert (.ofNat device) code } }
  | .usage =>
      { draft with map :=
        { draft.map with usageCodes := draft.map.usageCodes.insert (.ofNat device) code } }

/-- The kind of device code that is mapped, its text, and the tokens after it. -/
def expectDeviceCode (tokens : List Token) :
    Except SyntaxFault (DeviceCodeKind × Text × List Token) := do
  let (token, rest) ← Token.expect "a scan code or 'usage'" tokens
  if token.text = Text.ofString "usage" then do
    let (code, rest) ← Token.expect "a usage code" rest
    return (.usage, code.text, rest)
  else
    return (.scan, token.text, rest)

/-- The entry is added and, if a brace follows, the block of its key is opened. -/
def addEntry (line : Nat) (draft : Draft) (kind : DeviceCodeKind) (device : Nat)
    (code : KeyCode) (rest : List Token) : Except SyntaxFault DraftStep :=
  if (draft.deviceTable kind).contains (.ofNat device) then
    .error (.repeatedDeviceCode kind device)
  else
    match rest with
    | .punctuation .openBrace :: rest =>
        (draft.addDeviceCode kind device code).openBlock line code rest
    | _ => .ok { draft := draft.addDeviceCode kind device code, rest := rest }

def mapDeviceCode (line : Nat) (draft : Draft) (tokens : List Token) :
    Except SyntaxFault DraftStep := do
  let (key, rest) ← Token.expectWord "'key'" tokens
  if key ≠ Text.ofString "key" then
    .error (.mismatch "'key' after 'map'" key)
  else do
    let (kind, text, rest) ← expectDeviceCode rest
    let device ← DeviceCode.read text
    let (label, rest) ← Token.expectWord KeyCode.what rest
    let code ← KeyCode.read label
    draft.addEntry line kind device code rest

def beginKey (line : Nat) (draft : Draft) (tokens : List Token) :
    Except SyntaxFault DraftStep := do
  let (label, rest) ← Token.expectWord KeyCode.what tokens
  let code ← KeyCode.read label
  let (token, rest) ← Token.expect "'\x7b'" rest
  if token = .punctuation .openBrace then
    draft.openBlock line code rest
  else
    .error (.mismatch "'\x7b' after key name" token.text)

def readDirective (format : Format) (line : Nat) (draft : Draft) (token : Token)
    (rest : List Token) : Except SyntaxFault DraftStep :=
  match token with
  | .word name =>
      if name = Text.ofString "type" then draft.declareType format rest
      else if name = Text.ofString "map" then draft.mapDeviceCode line rest
      else if name = Text.ofString "key" then draft.beginKey line rest
      else .error (.unknownDirective name)
  | _ => .error (.mismatch "a directive" token.text)

def closeBlock (draft : Draft) (pending : PendingKey) (rest : List Token) :
    Except SyntaxFault DraftStep :=
  if pending.isEmpty then
    .error (.emptyKey pending.code)
  else
    .ok {
      draft := { draft with
        map := { draft.map with keys := draft.map.keys.insert pending.code pending.finish }
        pending := none }
      rest := rest
      notes := [.finishedKey draft.map.name pending.code] }

def readStatement (draft : Draft) (pending : PendingKey) (token : Token)
    (rest : List Token) : Except SyntaxFault DraftStep :=
  match token with
  | .punctuation .closeBrace => draft.closeBlock pending rest
  | .punctuation .semicolon => .ok { draft := draft, rest := rest }
  | _ => do
      let after := rest.dropWhile (!Statement.isSeparator ·)
      let statement ← Statement.read after.head?
        (token :: rest.takeWhile (!Statement.isSeparator ·))
      let pending ← pending.apply statement
      return { draft := { draft with pending := some pending }, rest := after }

/-- One directive, or inside a block one statement, that starts with the token. -/
def step (format : Format) (line : Nat) (draft : Draft) (token : Token)
    (rest : List Token) : Except SyntaxFault DraftStep :=
  match draft.pending with
  | none => draft.readDirective format line token rest
  | some pending => draft.readStatement pending token rest

end Draft

end KeyLayout
