import KeyLayout.Grammar.Cursor
import KeyLayout.Grammar.Draft

namespace KeyLayout

/-! Reading a whole layout.  Outside blocks a line holds one directive; inside a block
it may hold any number of statements. -/

/-- Whatever step is reached leaves at most so many tokens. -/
def DraftStep.LeavesAtMost (count : Nat) (outcome : Except SyntaxFault DraftStep) : Prop :=
  ∀ next, outcome = .ok next → next.rest.length ≤ count

namespace DraftStep.LeavesAtMost

theorem error {count : Nat} {fault : SyntaxFault} :
    LeavesAtMost count (.error fault) :=
  fun _ hok => nomatch hok

theorem ok {count : Nat} {next : DraftStep} (hrest : next.rest.length ≤ count) :
    LeavesAtMost count (.ok next) := by
  intro reached hok
  cases hok
  exact hrest

theorem mono {less count : Nat} {outcome : Except SyntaxFault DraftStep}
    (hleaves : LeavesAtMost less outcome) (hle : less ≤ count) :
    LeavesAtMost count outcome :=
  fun next hok => Nat.le_trans (hleaves next hok) hle

theorem bind {α : Type} {count : Nat} {first : Except SyntaxFault α}
    {next : α → Except SyntaxFault DraftStep}
    (hnext : ∀ value, first = .ok value → LeavesAtMost count (next value)) :
    LeavesAtMost count (first >>= next) := by
  cases first with
  | error => exact error
  | ok value => exact hnext value rfl

end DraftStep.LeavesAtMost

open DraftStep (LeavesAtMost)

namespace Draft

theorem declareType_leaves (format : Format) (draft : Draft) (tokens : List Token) :
    LeavesAtMost tokens.length (draft.declareType format tokens) := by
  unfold declareType
  split
  · exact .error
  split
  · exact .error
  split
  · exact .error
  refine .bind fun (name, rest) hword => ?_
  have hlength := Token.length_expectWord hword
  dsimp only
  split
  · exact .error
  · unfold withType
    split
    · exact .error
    split
    · exact .error
    · exact .ok (Nat.le_of_lt hlength)

theorem openBlock_leaves (line : Nat) (draft : Draft) (code : KeyCode) (rest : List Token) :
    LeavesAtMost rest.length (draft.openBlock line code rest) := by
  unfold openBlock
  split
  · exact .error
  · exact .ok (Nat.le_refl _)

theorem addEntry_leaves (line : Nat) (draft : Draft) (kind : DeviceCodeKind) (device : Nat)
    (code : KeyCode) (rest : List Token) :
    LeavesAtMost rest.length (draft.addEntry line kind device code rest) := by
  unfold addEntry
  split
  · exact .error
  split
  · exact (openBlock_leaves _ _ _ _).mono (Nat.le_succ _)
  · exact .ok (Nat.le_refl _)

theorem length_expectDeviceCode {tokens rest : List Token} {kind : DeviceCodeKind}
    {text : Text} (hexpect : expectDeviceCode tokens = .ok (kind, text, rest)) :
    rest.length < tokens.length := by
  cases tokens with
  | nil => contradiction
  | cons token tail =>
      simp only [expectDeviceCode, Token.expect, bind, Except.bind, pure, Except.pure] at hexpect
      split at hexpect
      · cases tail with
        | nil => contradiction
        | cons => cases hexpect; simp only [List.length_cons]; omega
      · cases hexpect
        exact Nat.lt_succ_self _

theorem mapDeviceCode_leaves (line : Nat) (draft : Draft) (tokens : List Token) :
    LeavesAtMost tokens.length (draft.mapDeviceCode line tokens) := by
  unfold mapDeviceCode
  refine .bind fun (key, afterKey) hkey => ?_
  have hkey : afterKey.length < tokens.length := Token.length_expectWord hkey
  dsimp only
  split
  · exact .error
  refine .bind fun (kind, text, afterDevice) hdevice => .bind fun device _ =>
    .bind fun (label, afterLabel) hlabel => .bind fun code _ => ?_
  have hdevice : afterDevice.length < afterKey.length := length_expectDeviceCode hdevice
  have hlabel : afterLabel.length < afterDevice.length := Token.length_expectWord hlabel
  exact (addEntry_leaves _ _ _ _ _ _).mono (by
    change afterLabel.length ≤ _
    omega)

theorem beginKey_leaves (line : Nat) (draft : Draft) (tokens : List Token) :
    LeavesAtMost tokens.length (draft.beginKey line tokens) := by
  unfold beginKey
  refine .bind fun (label, afterLabel) hlabel => .bind fun code _ =>
    .bind fun (brace, afterBrace) hbrace => ?_
  have hlabel : afterLabel.length < tokens.length := Token.length_expectWord hlabel
  have hbrace : afterBrace.length < afterLabel.length := Token.length_expect hbrace
  dsimp only
  split
  · exact (openBlock_leaves _ _ _ _).mono (by omega)
  · exact .error

theorem readDirective_leaves (format : Format) (line : Nat) (draft : Draft) (token : Token)
    (rest : List Token) :
    LeavesAtMost rest.length (draft.readDirective format line token rest) := by
  unfold readDirective
  split
  · split
    · exact declareType_leaves _ _ _
    split
    · exact mapDeviceCode_leaves _ _ _
    split
    · exact beginKey_leaves _ _ _
    · exact .error
  · exact .error

theorem readStatement_leaves (draft : Draft) (pending : PendingKey) (token : Token)
    (rest : List Token) :
    LeavesAtMost rest.length (draft.readStatement pending token rest) := by
  unfold readStatement
  split
  · unfold closeBlock
    split
    · exact .error
    · exact .ok (Nat.le_refl _)
  · exact .ok (Nat.le_refl _)
  · exact .bind fun _ _ => .bind fun _ _ => .ok (List.dropWhile_sublist _).length_le

theorem step_leaves (format : Format) (line : Nat) (draft : Draft) (token : Token)
    (rest : List Token) :
    LeavesAtMost rest.length (draft.step format line token rest) := by
  unfold step
  split
  · exact readDirective_leaves _ _ _ _ _
  · exact readStatement_leaves _ _ _ _

/-- The finished map; a block that is still open is at fault in the line that began it. -/
def finish (format : Format) (draft : Draft) : Report ParseError KeyMap :=
  match draft.pending with
  | some pending => .fail ⟨some draft.map.name, pending.line, .openBlock pending.code⟩
  | none =>
      if format = .overlay then
        ⟨[], .ok { draft.map with type := .overlay }⟩
      else if format = .base ∧ !draft.typeDeclared then
        ⟨[.undeclaredType draft.map.name], .ok draft.map⟩
      else
        ⟨[], .ok draft.map⟩

end Draft

/-- A draft and the place in the text up to which it has been read. -/
structure Reading where
  draft : Draft
  cursor : Cursor

namespace Reading

def expectLineEnd (reading : Reading) : Except ParseError Reading :=
  match reading.cursor.unread with
  | [] => .ok { reading with cursor := reading.cursor.afterLine }
  | unread => .error (reading.cursor.error (.mismatch "end of line" (Token.spaced unread)))

/-- Leaves a line without unread tokens; on any other takes one step, after which the
line has to end unless a block is open. -/
def advance (format : Format) (reading : Reading) : Report ParseError Reading :=
  match reading.cursor.unread with
  | [] => ⟨[], .ok { reading with cursor := reading.cursor.afterLine }⟩
  | token :: rest =>
      match reading.draft.step format reading.cursor.lineNumber token rest with
      | .error fault => .fail (reading.cursor.error fault)
      | .ok next =>
          let reached : Reading := ⟨next.draft, reading.cursor.withUnread next.rest⟩
          match next.draft.pending with
          | some _ => ⟨next.notes, .ok reached⟩
          | none => ⟨next.notes, reached.expectLineEnd⟩

theorem expectLineEnd_weight {reading next : Reading}
    (hend : reading.expectLineEnd = .ok next) (hlines : reading.cursor.lines ≠ []) :
    next.cursor.weight < reading.cursor.weight := by
  unfold expectLineEnd at hend
  split at hend
  · cases hend
    exact Cursor.weight_afterLine hlines
  · contradiction

theorem advance_weight {format : Format} {reading next : Reading}
    (hnext : (reading.advance format).outcome = .ok next)
    (hlines : reading.cursor.lines ≠ []) :
    next.cursor.weight < reading.cursor.weight := by
  unfold advance at hnext
  split at hnext
  · cases hnext
    exact Cursor.weight_afterLine hlines
  · next token rest hunread =>
      split at hnext
      · contradiction
      · next step hstep =>
          have hleaves := Draft.step_leaves _ _ _ _ _ step hstep
          have hweight : (reading.cursor.withUnread step.rest).weight <
              reading.cursor.weight :=
            Cursor.weight_withUnread hlines (by rw [hunread]; simp only [List.length_cons]; omega)
          dsimp only at hnext
          split at hnext
          · cases hnext
            exact hweight
          · have hend := expectLineEnd_weight hnext (Cursor.withUnread_lines_ne_nil hlines)
            exact Nat.lt_trans hend hweight

def run (format : Format) (reading : Reading) : Report ParseError Draft :=
  if _ : reading.cursor.lines = [] then
    ⟨[], .ok reading.draft⟩
  else
    let step := reading.advance format
    match _ : step.outcome with
    | .error error => ⟨step.notes, .error error⟩
    | .ok next =>
        let rest := run format next
        ⟨step.notes ++ rest.notes, rest.outcome⟩
termination_by reading.cursor.weight
decreasing_by exact advance_weight (by assumption) (by assumption)

end Reading

/-- The key map that a layout text describes. -/
def KeyMap.ofText (name text : Text) (format : Format) : Report ParseError KeyMap := do
  let cursor ← Report.ofExcept (Cursor.ofText name text)
  let draft ← Reading.run format ⟨Draft.ofName name, cursor⟩
  let map ← draft.finish format
  Report.tell [.loaded name map.keys.size]
  return map

end KeyLayout
