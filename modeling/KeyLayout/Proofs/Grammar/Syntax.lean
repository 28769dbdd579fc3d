import KeyLayout.Grammar.Reading
import KeyLayout.Proofs.Behavior.Specificity

namespace KeyLayout

/-! The grammar of layout texts and what a text means that it derives, written without
regard to how texts are read. -/

/-- The end of a line counts among the symbols of a text. -/
inductive Symbol where
  | token (token : Token)
  | lineEnd
  deriving DecidableEq

namespace Symbol

def ofTokens (tokens : List Token) : List Symbol :=
  tokens.map .token

def ofLines (lines : List TokenLine) : List Symbol :=
  lines.flatMap fun line => ofTokens line.tokens ++ [.lineEnd]

/-- What stands between two statements. -/
inductive Separates : Symbol → Prop
  | semicolon : Separates (.token (.punctuation .semicolon))
  | lineEnd : Separates .lineEnd

end Symbol

/-- A token that gives a character, or says that there is none. -/
inductive Token.Gives : Token → Option CodePoint → Prop
  | literal {text : Text} {point : CodePoint} (hdecode : Literal.decode text = .ok point) :
      Gives (.literal text) (some point)
  | none : Gives (.word "none") none
  | space : Gives (.word "space") (some ' ')
  | tab : Gives (.word "tab") (some '\t')
  | newline : Gives (.word "newline") (some '\n')
  | codePoint {digits : Text} {point : CodePoint}
      (hlength : 1 ≤ digits.length ∧ digits.length ≤ 6)
      (hdigits : Text.digitsValue? 16 digits = some point.toNat) :
      Gives (.word (Text.ofString "U+" ++ digits)) (some point)

inductive ValuePart where
  | character (point : Option CodePoint)
  | target (target : Target)
  deriving DecidableEq

namespace ValuePart

def character? : ValuePart → Option (Option CodePoint)
  | .character point => some point
  | .target _ => none

def target? : ValuePart → Option Target
  | .character _ => none
  | .target own => some own

inductive Derives : List Token → ValuePart → Prop
  | character {token : Token} {point : Option CodePoint} (hgives : token.Gives point) :
      Derives [token] (.character point)
  | fallback {label : Text} {code : KeyCode} (hlabel : KeyCode.ofLabel? label = some code) :
      Derives [.word "fallback", .word label] (.target ⟨.fallback, code⟩)
  | replacement {label : Text} {code : KeyCode}
      (hlabel : KeyCode.ofLabel? label = some code) :
      Derives [.word "replace", .word label] (.target ⟨.replacement, code⟩)

inductive DerivesAll : List Token → List ValuePart → Prop
  | nil : DerivesAll [] []
  | cons {first rest : List Token} {part : ValuePart} {parts : List ValuePart}
      (hfirst : Derives first part) (hrest : DerivesAll rest parts) :
      DerivesAll (first ++ rest) (part :: parts)

end ValuePart

/-- At least one part, and at most one of each kind. -/
inductive Value.Derives : List Token → Value → Prop
  | parts {tokens : List Token} {parts : List ValuePart}
      (hparts : ValuePart.DerivesAll tokens parts) (hsome : parts ≠ [])
      (hcharacter : (parts.filterMap ValuePart.character?).length ≤ 1)
      (htarget : (parts.filterMap ValuePart.target?).length ≤ 1) :
      Derives tokens
        ⟨(parts.filterMap ValuePart.character?).head?,
          (parts.filterMap ValuePart.target?).head?⟩

inductive Property.Derives : Token → Property → Prop
  | label : Derives (.word "label") .label
  | number : Derives (.word "number") .number
  | mask {text : Text} {mask : MetaState} (hparse : MetaState.parse text = .ok mask) :
      Derives (.word text) (.mask mask)

/-- One or more properties with commas between them. -/
inductive Property.DerivesAll : List Token → List Property → Prop
  | single {token : Token} {property : Property} (hproperty : Derives token property) :
      DerivesAll [token] [property]
  | cons {token : Token} {property : Property} {rest : List Token}
      {properties : List Property} (hproperty : Derives token property)
      (hrest : DerivesAll rest properties) :
      DerivesAll (token :: .punctuation .comma :: rest) (property :: properties)

namespace Statement

inductive Derives : List Token → Statement → Prop
  | bare {tokens : List Token} {value : Value} (hvalue : Value.Derives tokens value) :
      Derives (.punctuation .colon :: tokens) ⟨[.mask 0], value⟩
  | plain {first tokens : List Token} {properties : List Property} {value : Value}
      (hproperties : Property.DerivesAll first properties)
      (hvalue : Value.Derives tokens value) :
      Derives (first ++ tokens) ⟨properties, value⟩
  | colon {first tokens : List Token} {properties : List Property} {value : Value}
      (hproperties : Property.DerivesAll first properties)
      (hvalue : Value.Derives tokens value) :
      Derives (first ++ .punctuation .colon :: tokens) ⟨properties, value⟩

/-- The inside of a block: statements, each two with separators between them, and any
number of separators before and after. -/
inductive DerivesAll : List Symbol → List Statement → Prop
  | nil : DerivesAll [] []
  | skip {separator : Symbol} {rest : List Symbol} {statements : List Statement}
      (hseparator : separator.Separates) (hrest : DerivesAll rest statements) :
      DerivesAll (separator :: rest) statements
  | last {tokens : List Token} {statement : Statement}
      (hstatement : Derives tokens statement) :
      DerivesAll (Symbol.ofTokens tokens) [statement]
  | cons {tokens : List Token} {statement : Statement} {separator : Symbol}
      {rest : List Symbol} {statements : List Statement}
      (hstatement : Derives tokens statement) (hseparator : separator.Separates)
      (hrest : DerivesAll rest statements) :
      DerivesAll (Symbol.ofTokens tokens ++ separator :: rest) (statement :: statements)

/-- What is set, one property at a time. -/
def settings (statements : List Statement) : List (Property × Value) :=
  statements.flatMap fun statement =>
    statement.properties.map fun property => (property, statement.value)

end Statement

structure DeviceEntry where
  kind : DeviceCodeKind
  device : Nat
  code : KeyCode
  deriving DecidableEq

inductive DeviceEntry.Derives : List Token → DeviceEntry → Prop
  | scan {number : Token} {device : Nat} {label : Text} {code : KeyCode}
      (hdevice : DeviceCode.read number.text = .ok device)
      (hlabel : KeyCode.ofLabel? label = some code) :
      Derives [.word "map", .word "key", number, .word label] ⟨.scan, device, code⟩
  | usage {usage number : Token} {device : Nat} {label : Text} {code : KeyCode}
      (husage : usage.text = "usage") (hdevice : DeviceCode.read number.text = .ok device)
      (hlabel : KeyCode.ofLabel? label = some code) :
      Derives [.word "map", .word "key", usage, number, .word label] ⟨.usage, device, code⟩

/-- What a layout declares.  A block that follows a device code counts apart from it. -/
inductive Item where
  | type (type : KeyboardType)
  | entry (entry : DeviceEntry)
  | block (code : KeyCode) (statements : List Statement)

namespace Item

/-- A block from its opening brace on. -/
inductive DerivesBlock : List Symbol → List Statement → Prop
  | braces {body : List Symbol} {statements : List Statement}
      (hbody : Statement.DerivesAll body statements) :
      DerivesBlock
        (.token (.punctuation .openBrace) ::
          (body ++ [.token (.punctuation .closeBrace), .lineEnd])) statements

inductive Derives : List Symbol → List Item → Prop
  | type {name : Text} {type : KeyboardType}
      (htype : KeyboardType.ofName? name = some type) :
      Derives (Symbol.ofTokens [.word "type", .word name] ++ [.lineEnd]) [.type type]
  | entry {tokens : List Token} {entry : DeviceEntry} (hentry : entry.Derives tokens) :
      Derives (Symbol.ofTokens tokens ++ [.lineEnd]) [.entry entry]
  | block {label : Text} {code : KeyCode} {block : List Symbol}
      {statements : List Statement} (hlabel : KeyCode.ofLabel? label = some code)
      (hblock : DerivesBlock block statements) :
      Derives (Symbol.ofTokens [.word "key", .word label] ++ block) [.block code statements]
  | entryBlock {tokens : List Token} {entry : DeviceEntry} {block : List Symbol}
      {statements : List Statement} (hentry : entry.Derives tokens)
      (hblock : DerivesBlock block statements) :
      Derives (Symbol.ofTokens tokens ++ block) [.entry entry, .block entry.code statements]

inductive DerivesAll : List Symbol → List Item → Prop
  | nil : DerivesAll [] []
  | cons {first rest : List Symbol} {items others : List Item} (hfirst : Derives first items)
      (hrest : DerivesAll rest others) : DerivesAll (first ++ rest) (items ++ others)

end Item

/-- What a block may set: something, nothing twice, and a label or number only to a
character and to no other key as well. -/
structure Statement.Fitting (settings : List (Property × Value)) : Prop where
  ne_nil : settings ≠ []
  nodup : (settings.map Prod.fst).Nodup
  plain : ∀ setting ∈ settings, setting.1 = .label ∨ setting.1 = .number →
    ∃ point, setting.2 = ⟨some (some point), none⟩

namespace Item

/-- What a layout of the format may declare. -/
def Fitting (format : Format) : Item → Prop
  | .type declared =>
      format ≠ .overlay ∧ declared ≠ .unknown ∧ ¬(declared = .overlay ∧ format = .base)
  | .entry _ => True
  | .block _ statements => Statement.Fitting (Statement.settings statements)

/-- The second item may not stand anywhere after the first one: a type after a type or a
block, and a device code or a key a second time. -/
def Bars : Item → Item → Prop
  | .type _, .type _ => True
  | .block _ _, .type _ => True
  | .entry first, .entry second => first.kind = second.kind ∧ first.device = second.device
  | .block first _, .block second _ => first = second
  | _, _ => False

def type? : Item → Option KeyboardType
  | .type declared => some declared
  | _ => none

def device? (kind : DeviceCodeKind) : Item → Option (DeviceCode × KeyCode)
  | .entry own => if own.kind = kind then some (.ofNat own.device, own.code) else none
  | _ => none

def block? : Item → Option (KeyCode × List (Property × Value))
  | .block code statements => some (code, Statement.settings statements)
  | _ => none

end Item

/-- The behavior is for the mask and does what the value says, and nothing else. -/
structure Value.States (value : Value) (mask : MetaState) (behavior : Behavior) : Prop where
  mask : behavior.mask = mask
  character : ∀ point, behavior.character = some point ↔ value.character = some (some point)
  fallback : ∀ code, behavior.fallback = some code ↔ value.target = some ⟨.fallback, code⟩
  replacement : ∀ code,
    behavior.replacement = some code ↔ value.target = some ⟨.replacement, code⟩

namespace Statement

/-- The behaviors that the settings of a block state, in their order. -/
inductive StatesAll : List (Property × Value) → List Behavior → Prop
  | nil : StatesAll [] []
  | label {value : Value} {settings : List (Property × Value)} {behaviors : List Behavior}
      (hrest : StatesAll settings behaviors) : StatesAll ((.label, value) :: settings) behaviors
  | number {value : Value} {settings : List (Property × Value)} {behaviors : List Behavior}
      (hrest : StatesAll settings behaviors) : StatesAll ((.number, value) :: settings) behaviors
  | mask {mask : MetaState} {value : Value} {behavior : Behavior}
      {settings : List (Property × Value)} {behaviors : List Behavior}
      (hstates : value.States mask behavior) (hrest : StatesAll settings behaviors) :
      StatesAll ((.mask mask, value) :: settings) (behavior :: behaviors)

/-- What the settings of a block say about its key.  A number that is not set is taken from
the behaviors. -/
structure Declares (settings : List (Property × Value)) (key : Key) : Prop where
  label : ∀ point, key.label = some point ↔ (.label, ⟨some (some point), none⟩) ∈ settings
  number : ∀ point, key.number = some point ↔
    (.number, ⟨some (some point), none⟩) ∈ settings ∨
      .number ∉ settings.map Prod.fst ∧ Behavior.Dials key.behaviors point
  behaviors : ∃ stated, StatesAll settings stated ∧ Behavior.Sorts stated key.behaviors

end Statement

/-- What the items of a layout say about its key map. -/
structure Item.DeclareAll (name : Text) (format : Format) (items : List Item) (map : KeyMap) :
    Prop where
  name : map.name = name
  type : map.type =
    if format = .overlay then .overlay else (items.filterMap type?).getLast?.getD .unknown
  keys : List.Forall₂
    (fun block entry => entry.1 = block.1 ∧ Statement.Declares block.2 entry.2)
    (items.filterMap block?) map.keys.entries
  scanCodes : map.scanCodes.entries = items.filterMap (device? .scan)
  usageCodes : map.usageCodes.entries = items.filterMap (device? .usage)
  remapping : map.remapping.entries = []
  overlaid : map.overlaid = false

end KeyLayout
