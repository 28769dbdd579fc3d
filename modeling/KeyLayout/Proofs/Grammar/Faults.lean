import KeyLayout.Grammar.Reading

namespace KeyLayout

/-! What a step may complain of.  That a block is left open is no fault of any line: only
the end of the text shows it. -/

def SyntaxFault.isOpenBlock : SyntaxFault → Bool
  | .openBlock _ => true
  | _ => false

/-- Whatever fault is met is not that of an open block. -/
def FaultsInLine {α : Type} (outcome : Except SyntaxFault α) : Prop :=
  ∀ fault, outcome = .error fault → fault.isOpenBlock = false

namespace FaultsInLine

variable {α β : Type} {first : Except SyntaxFault α} {next : α → Except SyntaxFault β}

theorem ok {value : α} : FaultsInLine (.ok value) :=
  fun _ hfault => nomatch hfault

theorem error {fault : SyntaxFault} (hfault : fault.isOpenBlock = false) :
    FaultsInLine (.error fault : Except SyntaxFault α) := by
  intro other hother
  cases hother
  exact hfault

theorem bind (hfirst : FaultsInLine first) (hnext : ∀ value, FaultsInLine (next value)) :
    FaultsInLine (first >>= next) := by
  cases first with
  | error fault => exact error (hfirst fault rfl)
  | ok value => exact hnext value

theorem foldlM {step : β → α → Except SyntaxFault β}
    (hstep : ∀ state item, FaultsInLine (step state item)) {items : List α} {start : β} :
    FaultsInLine (items.foldlM step start) := by
  induction items generalizing start with
  | nil => exact ok
  | cons item rest ih =>
      rw [List.foldlM_cons]
      exact bind (hstep start item) fun _ => ih

end FaultsInLine

/-! One lemma for each reader, from single tokens up to steps. -/

namespace Token

theorem faultsInLine_expect {what : Text} {tokens : List Token} :
    FaultsInLine (expect what tokens) := by
  cases tokens with
  | nil => exact .error rfl
  | cons => exact .ok

theorem faultsInLine_expectWord {what : Text} {tokens : List Token} :
    FaultsInLine (expectWord what tokens) := by
  cases tokens with
  | nil => exact .error rfl
  | cons token rest =>
      cases token with
      | word => exact .ok
      | literal => exact .error rfl
      | punctuation => exact .error rfl

end Token

theorem KeyCode.faultsInLine_read {label : Text} : FaultsInLine (read label) := by
  unfold read
  split
  · exact .ok
  · exact .error rfl

theorem DeviceCode.faultsInLine_read {text : Text} : FaultsInLine (read text) := by
  unfold read
  split
  · split
    · exact .ok
    · exact .error rfl
  · split
    · exact .ok
    · exact .error rfl
    · exact .error rfl

theorem ValueWord.faultsInLine_read {name : Text} : FaultsInLine (read name) := by
  unfold read
  split
  · exact .ok
  split
  · exact .ok
  split
  · exact .ok
  split
  · exact .ok
  split
  · exact .error rfl
  split
  · exact .error rfl
  · exact .ok

namespace Value

variable {after : Option Token} {value : Value} {tokens : List Token}

theorem isOpenBlock_endFault {what : Text} :
    (endFault what after).isOpenBlock = false := by
  cases after <;> rfl

theorem faultsInLine_withCharacter {point : Option CodePoint} :
    FaultsInLine (value.withCharacter point) := by
  unfold withCharacter
  split
  · exact .error rfl
  · exact .ok

theorem faultsInLine_extend : FaultsInLine (extend after value tokens) := by
  -- a word that announces another key takes two tokens
  induction hlength : tokens.length using Nat.strongRecOn generalizing value tokens with
  | ind length ih =>
      subst hlength
      have hshorter {rest : List Token} (hrest : rest.length < tokens.length) {value : Value} :
          FaultsInLine (extend after value rest) := ih _ hrest rfl
      cases tokens with
      | nil =>
          rw [extend]
          split
          · exact .error rfl
          · exact .ok
      | cons token rest =>
          have hrest {value : Value} : FaultsInLine (extend after value rest) := hshorter (by simp)
          cases token with
          | punctuation mark => exact .error rfl
          | literal text =>
              rw [extend]
              refine .bind ?_ fun point => .bind faultsInLine_withCharacter fun _ => hrest
              cases Literal.decode text with
              | error => exact .error rfl
              | ok => exact .ok
          | word name =>
              rw [extend]
              refine .bind ValueWord.faultsInLine_read fun word => ?_
              cases word with
              | character point => exact .bind faultsInLine_withCharacter fun _ => hrest
              | target kind =>
                  dsimp only
                  split
                  · exact .error rfl
                  cases rest with
                  | nil => exact .error isOpenBlock_endFault
                  | cons label rest =>
                      cases label with
                      | word label =>
                          exact .bind KeyCode.faultsInLine_read fun code =>
                            hshorter (by simp only [List.length_cons]; omega)
                      | literal => exact .error rfl
                      | punctuation => exact .error rfl

end Value

namespace Property

theorem faultsInLine_read {token : Token} : FaultsInLine (read token) := by
  unfold read
  split
  · split
    · exact .ok
    split
    · exact .ok
    split
    · exact .ok
    · exact .error rfl
  · exact .error rfl

theorem faultsInLine_readList {after : Option Token} {tokens : List Token} :
    FaultsInLine (readList after tokens) := by
  fun_induction readList after tokens with
  | case1 => exact .error Value.isOpenBlock_endFault
  | case2 token rest ih => exact .bind faultsInLine_read fun _ => .bind ih fun _ => .ok
  | case3 token rest => exact .bind faultsInLine_read fun _ => .ok

end Property

theorem Statement.faultsInLine_read {after : Option Token} {tokens : List Token} :
    FaultsInLine (read after tokens) := by
  have hvalue {tokens : List Token} : FaultsInLine (Value.read after tokens) :=
    Value.faultsInLine_extend
  unfold read
  split
  · exact .bind hvalue fun _ => .ok
  · refine .bind Property.faultsInLine_readList fun (properties, rest) => ?_
    dsimp only
    split
    · exact .bind hvalue fun _ => .ok
    · exact .bind hvalue fun _ => .ok

namespace PendingKey

variable {pending : PendingKey}

theorem faultsInLine_set {value : Value} {property : Property} :
    FaultsInLine (pending.set value property) := by
  cases property with
  | label =>
      rw [set]
      split
      · exact .error rfl
      split
      · exact .error rfl
      · exact .ok
  | number =>
      rw [set]
      split
      · exact .error rfl
      split
      · exact .error rfl
      · exact .ok
  | mask mask =>
      rw [set]
      split
      · exact .error rfl
      · exact .ok

theorem faultsInLine_apply {statement : Statement} : FaultsInLine (pending.apply statement) :=
  .foldlM fun _ _ => faultsInLine_set

end PendingKey

namespace Draft

variable {format : Format} {line : Nat} {draft : Draft} {code : KeyCode} {token : Token}
  {tokens rest : List Token}

theorem faultsInLine_declareType :
    FaultsInLine (draft.declareType format tokens) := by
  unfold declareType
  split
  · exact .error rfl
  split
  · exact .error rfl
  split
  · exact .error rfl
  refine .bind Token.faultsInLine_expectWord fun (name, rest) => ?_
  dsimp only
  split
  · exact .error rfl
  unfold withType
  split
  · exact .error rfl
  split
  · exact .error rfl
  · exact .ok

theorem faultsInLine_openBlock : FaultsInLine (draft.openBlock line code rest) := by
  unfold openBlock
  split
  · exact .error rfl
  · exact .ok

theorem faultsInLine_addEntry {kind : DeviceCodeKind} {device : Nat} :
    FaultsInLine (draft.addEntry line kind device code rest) := by
  unfold addEntry
  split
  · exact .error rfl
  split
  · exact faultsInLine_openBlock
  · exact .ok

theorem faultsInLine_expectDeviceCode : FaultsInLine (expectDeviceCode tokens) := by
  refine .bind Token.faultsInLine_expect fun (token, rest) => ?_
  dsimp only
  split
  · exact .bind Token.faultsInLine_expect fun _ => .ok
  · exact .ok

theorem faultsInLine_mapDeviceCode : FaultsInLine (draft.mapDeviceCode line tokens) := by
  refine .bind Token.faultsInLine_expectWord fun (key, rest) => ?_
  dsimp only
  split
  · exact .error rfl
  · exact .bind faultsInLine_expectDeviceCode fun (kind, text, rest) =>
      .bind DeviceCode.faultsInLine_read fun device =>
        .bind Token.faultsInLine_expectWord fun (label, rest) =>
          .bind KeyCode.faultsInLine_read fun code => faultsInLine_addEntry

theorem faultsInLine_beginKey : FaultsInLine (draft.beginKey line tokens) := by
  refine .bind Token.faultsInLine_expectWord fun (label, rest) =>
    .bind KeyCode.faultsInLine_read fun code =>
      .bind Token.faultsInLine_expect fun (token, rest) => ?_
  dsimp only
  split
  · exact faultsInLine_openBlock
  · exact .error rfl

theorem faultsInLine_readDirective :
    FaultsInLine (draft.readDirective format line token rest) := by
  unfold readDirective
  split
  · split
    · exact faultsInLine_declareType
    split
    · exact faultsInLine_mapDeviceCode
    split
    · exact faultsInLine_beginKey
    · exact .error rfl
  · exact .error rfl

theorem faultsInLine_readStatement {pending : PendingKey} :
    FaultsInLine (draft.readStatement pending token rest) := by
  unfold readStatement
  split
  · unfold closeBlock
    split
    · exact .error rfl
    · exact .ok
  · exact .ok
  · exact .bind Statement.faultsInLine_read fun statement =>
      .bind PendingKey.faultsInLine_apply fun _ => .ok

theorem faultsInLine_step : FaultsInLine (draft.step format line token rest) := by
  unfold step
  split
  · exact faultsInLine_readDirective
  · exact faultsInLine_readStatement

end Draft

end KeyLayout
