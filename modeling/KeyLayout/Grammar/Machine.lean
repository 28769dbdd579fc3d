import KeyLayout.Grammar.Draft
import KeyLayout.Grammar.Position

namespace KeyLayout

/-! Reading a layout turn by turn.  Whether a block is open is kept apart from the key of
the block, and whether a token is there from the taking of it, so that a turn may come to
a halt where either is missing. -/

/-- Directives are read outside of blocks, and statements inside. -/
inductive Mode where
  | directives
  | block
  deriving DecidableEq

inductive Halt where
  /-- The layout is at fault. -/
  | fault (error : ParseError)
  /-- A statement was to be read where no token is. -/
  | noToken
  /-- A block was to be read or left that is of no key. -/
  | noKey

structure Machine where
  position : Position
  draft : Draft
  mode : Mode := .directives

namespace Machine

def start (name : Text) (lines : List TokenLine) : Machine where
  position := .ofLines name lines
  draft := .ofName name

def fail {α : Type} (machine : Machine) (fault : SyntaxFault) : Report Halt α :=
  .fail (.fault (machine.position.error fault))

def lift {α : Type} (outcome : Except ParseError α) : Report Halt α :=
  .ofExcept (outcome.mapError .fault)

def expectLineEnd (machine : Machine) : Report Halt Machine :=
  if machine.position.atLineEnd then
    return { machine with position := machine.position.afterLine }
  else
    machine.fail (.mismatch "end of line" (Token.spaced machine.position.unread))

def openBlock (machine : Machine) (code : KeyCode) : Report Halt Machine :=
  if machine.draft.map.keys.contains code then
    machine.fail (.repeatedKey code)
  else
    return { machine with
      draft := { machine.draft with
        blockSeen := true
        pending := some { code := code, line := machine.position.lineNumber } }
      mode := .block }

def withType (format : Format) (machine : Machine) (type : KeyboardType) :
    Report Halt Machine :=
  if type = .unknown then
    machine.fail .undeclarableType
  else if type = .overlay ∧ format = .base then
    machine.fail .overlayTypeInBase
  else do
    Report.tell [.keyboardType machine.position.layout type]
    expectLineEnd { machine with
      draft := { machine.draft with
        map := { machine.draft.map with type := type }
        typeDeclared := true } }

def declareType (format : Format) (machine : Machine) : Report Halt Machine :=
  if format = .overlay then
    machine.fail .typeInOverlay
  else if machine.draft.typeDeclared then
    machine.fail .repeatedType
  else if machine.draft.blockSeen then
    machine.fail .lateType
  else do
    let (name, position) ← lift (machine.position.expectWord "a keyboard type")
    let machine := { machine with position := position }
    match KeyboardType.ofName? name with
    | none => machine.fail (.unknownType name)
    | some type => machine.withType format type

/-- The entry is added and, if a brace follows, the block of its key is opened. -/
def addEntry (machine : Machine) (kind : DeviceCodeKind) (device : Nat) (code : KeyCode) :
    Report Halt Machine :=
  if (machine.draft.deviceTable kind).contains (.ofNat device) then
    machine.fail (.repeatedDeviceCode kind device)
  else
    let added := { machine with draft := machine.draft.addDeviceCode kind device code }
    match added.position.next with
    | some (.punctuation .openBrace, next) => openBlock { added with position := next } code
    | _ => added.expectLineEnd

def mapDeviceCode (machine : Machine) : Report Halt Machine := do
  let (key, position) ← lift (machine.position.expectWord "'key'")
  if key ≠ Text.ofString "key" then
    lift (.error (position.error (.mismatch "'key' after 'map'" key)))
  else
    let (kind, text, position) ← lift position.expectDeviceCode
    let device ← lift ((DeviceCode.read text).mapError position.error)
    let (label, position) ← lift (position.expectWord KeyCode.what)
    let code ← lift ((KeyCode.read label).mapError position.error)
    addEntry { machine with position := position } kind device code

def beginKey (machine : Machine) : Report Halt Machine := do
  let (label, position) ← lift (machine.position.expectWord KeyCode.what)
  let code ← lift ((KeyCode.read label).mapError position.error)
  let (token, position) ← lift (position.expect "'\x7b'")
  let machine := { machine with position := position }
  if token = .punctuation .openBrace then
    machine.openBlock code
  else
    machine.fail (.mismatch "'\x7b' after key name" token.text)

def readDirective (format : Format) (machine : Machine) : Report Halt Machine := do
  let (name, position) ← lift (machine.position.expectWord "a directive")
  let machine := { machine with position := position }
  if name = Text.ofString "type" then machine.declareType format
  else if name = Text.ofString "map" then machine.mapDeviceCode
  else if name = Text.ofString "key" then machine.beginKey
  else machine.fail (.unknownDirective name)

def closeBlock (machine : Machine) : Report Halt Machine :=
  match machine.draft.pending with
  | none => .fail .noKey
  | some pending =>
      if pending.isEmpty then
        machine.fail (.emptyKey pending.code)
      else do
        Report.tell [.finishedKey machine.position.layout pending.code]
        return { machine with
          draft := { machine.draft with
            map := { machine.draft.map with
              keys := machine.draft.map.keys.insert pending.code pending.finish }
            pending := none }
          mode := .directives }

/-- One property of the key whose block is open is set to the value. -/
def set (value : Value) (machine : Machine) (property : Property) : Report Halt Machine :=
  match machine.draft.pending with
  | none => .fail .noKey
  | some pending => do
      let pending ← lift ((pending.set value property).mapError machine.position.error)
      return { machine with draft := { machine.draft with pending := some pending } }

def readStatement (machine : Machine) : Report Halt Machine :=
  match machine.position.next with
  | none => .fail .noToken
  | some (.punctuation .closeBrace, next) => do
      let closed ← closeBlock { machine with position := next }
      closed.expectLineEnd
  | some (.punctuation .semicolon, next) => return { machine with position := next }
  | some (token, next) => do
      let (properties, position) ← lift (next.readHead token)
      let (value, position) ← lift (position.readValue {})
      properties.foldlM (set value) { machine with position := position }

/-- A turn leaves a line without unread tokens, and on any other reads one directive, or
one statement inside of a block. -/
def turn (format : Format) (machine : Machine) : Report Halt Machine :=
  if machine.position.atLineEnd then
    return { machine with position := machine.position.afterLine }
  else
    match machine.mode with
    | .directives => machine.readDirective format
    | .block => machine.readStatement

/-- The machine after so many turns, fewer if the end comes first. -/
def after (format : Format) (machine : Machine) : Nat → Report Halt Machine
  | 0 => return machine
  | count + 1 =>
      if machine.position.atEnd then
        return machine
      else do
        let next ← machine.turn format
        next.after format count

/-- The finished map; a block that is still open is at fault in the line that began it. -/
def finish (format : Format) (machine : Machine) : Report Halt KeyMap :=
  match machine.mode with
  | .block =>
      match machine.draft.pending with
      | none => .fail .noKey
      | some pending =>
          .fail (.fault ⟨some machine.position.layout, pending.line, .openBlock pending.code⟩)
  | .directives =>
      if format = .overlay then
        return { machine.draft.map with type := .overlay }
      else if format = .base ∧ !machine.draft.typeDeclared then do
        Report.tell [.undeclaredType machine.position.layout]
        return machine.draft.map
      else
        return machine.draft.map

/-- The key map that the lines describe, if so many turns read them. -/
def read (format : Format) (name : Text) (lines : List TokenLine) (count : Nat) :
    Report Halt KeyMap := do
  let machine ← (start name lines).after format count
  let map ← machine.finish format
  Report.tell [.loaded name map.keys.size]
  return map

end Machine

end KeyLayout
