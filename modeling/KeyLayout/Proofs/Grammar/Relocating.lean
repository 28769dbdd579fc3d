import KeyLayout.Proofs.Grammar.Numbering
import KeyLayout.Proofs.Grammar.Running

namespace KeyLayout

/-! Numbering the lines of a layout in another way moves its faults along and changes
nothing else. -/

variable {move : Nat → Nat} {format : Format} {name : Text}

def TokenLine.moved (move : Nat → Nat) (line : TokenLine) : TokenLine :=
  { line with number := move line.number }

def PendingKey.moved (move : Nat → Nat) (pending : PendingKey) : PendingKey :=
  { pending with line := move pending.line }

def ParseError.moved (move : Nat → Nat) (error : ParseError) : ParseError :=
  { error with line := move error.line.toNat }

def Cursor.moved (move : Nat → Nat) (cursor : Cursor) : Cursor :=
  { cursor with
    lastLine := move cursor.lastLine
    lines := cursor.lines.map (TokenLine.moved move) }

def Draft.moved (move : Nat → Nat) (draft : Draft) : Draft :=
  { draft with pending := draft.pending.map (PendingKey.moved move) }

def DraftStep.moved (move : Nat → Nat) (step : DraftStep) : DraftStep :=
  { step with draft := step.draft.moved move }

def Reading.moved (move : Nat → Nat) (reading : Reading) : Reading :=
  ⟨reading.draft.moved move, reading.cursor.moved move⟩

/-- The report as the lines are numbered now, with the change that this makes to its value. -/
def Report.moved {α : Type} (move : Nat → Nat) (change : α → α) (report : Report ParseError α) :
    Report ParseError α :=
  ⟨report.notes, (report.outcome.map change).mapError (ParseError.moved move)⟩

theorem Report.bind_moved {α β : Type} {change : α → α} {changed : β → β}
    {report : Report ParseError α} {next other : α → Report ParseError β}
    (hnext : ∀ value, report.outcome = .ok value →
      other (change value) = (next value).moved move changed) :
    report.moved move change >>= other = (report >>= next).moved move changed := by
  obtain ⟨notes, outcome⟩ := report
  cases outcome with
  | error error => rfl
  | ok value =>
      change Report.mk (notes ++ (other (change value)).notes) (other (change value)).outcome = _
      rw [hnext value rfl]
      rfl

namespace PendingKey

variable {pending : PendingKey}

@[simp] theorem label_moved : (pending.moved move).label = pending.label := rfl

@[simp] theorem number_moved : (pending.moved move).number = pending.number := rfl

@[simp] theorem behaviors_moved : (pending.moved move).behaviors = pending.behaviors := rfl

theorem set_moved (value : Value) (property : Property) :
    (pending.moved move).set value property = moved move <$> pending.set value property := by
  cases property with
  | label =>
      rw [set, set, label_moved]
      split
      · rfl
      · cases value.plainCharacter? <;> rfl
  | number =>
      rw [set, set, number_moved]
      split
      · rfl
      · cases value.plainCharacter? <;> rfl
  | mask mask =>
      rw [set, set, behaviors_moved]
      split
      · rfl
      · rfl

theorem apply_moved (statement : Statement) :
    (pending.moved move).apply statement = moved move <$> pending.apply statement := by
  obtain ⟨properties, value⟩ := statement
  unfold apply
  dsimp only
  induction properties generalizing pending with
  | nil => rfl
  | cons property rest ih =>
      rw [List.foldlM_cons, List.foldlM_cons, set_moved, map_bind, bind_map_left]
      exact bind_congr fun next => ih

end PendingKey

namespace Draft

variable {line device : Nat} {draft : Draft} {code : KeyCode} {token : Token}
  {tokens rest : List Token} {kind : DeviceCodeKind} {pending : PendingKey}

@[simp] theorem map_moved : (draft.moved move).map = draft.map := rfl

@[simp] theorem typeDeclared_moved : (draft.moved move).typeDeclared = draft.typeDeclared := rfl

@[simp] theorem pending_moved :
    (draft.moved move).pending = draft.pending.map (PendingKey.moved move) := rfl

@[simp] theorem blockSeen_moved : (draft.moved move).blockSeen = draft.blockSeen := rfl

theorem withType_moved (type : KeyboardType) :
    (draft.moved move).withType format type rest =
      DraftStep.moved move <$> draft.withType format type rest := by
  rw [withType, withType]
  split
  · rfl
  split
  · rfl
  · rfl

theorem declareType_moved : (draft.moved move).declareType format tokens =
    DraftStep.moved move <$> draft.declareType format tokens := by
  rw [declareType, declareType, typeDeclared_moved, blockSeen_moved]
  split
  · rfl
  split
  · rfl
  split
  · rfl
  rw [map_bind]
  refine bind_congr fun found => ?_
  obtain ⟨name, rest⟩ := found
  dsimp only
  cases KeyboardType.ofName? name with
  | none => rfl
  | some type => exact withType_moved type

theorem openBlock_moved : (draft.moved move).openBlock (move line) code rest =
    DraftStep.moved move <$> draft.openBlock line code rest := by
  rw [openBlock, openBlock, map_moved]
  split
  · rfl
  · rfl

theorem addDeviceCode_moved : (draft.moved move).addDeviceCode kind device code =
    (draft.addDeviceCode kind device code).moved move := by
  cases kind <;> rfl

theorem addEntry_moved : (draft.moved move).addEntry (move line) kind device code rest =
    DraftStep.moved move <$> draft.addEntry line kind device code rest := by
  have htable : (draft.moved move).deviceTable kind = draft.deviceTable kind := by
    cases kind <;> rfl
  unfold addEntry
  rw [htable, addDeviceCode_moved]
  split
  · rfl
  split
  · exact openBlock_moved
  · rfl

theorem mapDeviceCode_moved : (draft.moved move).mapDeviceCode (move line) tokens =
    DraftStep.moved move <$> draft.mapDeviceCode line tokens := by
  rw [mapDeviceCode, mapDeviceCode, map_bind]
  refine bind_congr fun first => ?_
  dsimp only
  split
  · rfl
  simp only [map_bind]
  refine bind_congr fun device => bind_congr fun number => bind_congr fun label =>
    bind_congr fun code => addEntry_moved

theorem beginKey_moved : (draft.moved move).beginKey (move line) tokens =
    DraftStep.moved move <$> draft.beginKey line tokens := by
  simp only [beginKey, map_bind]
  refine bind_congr fun label => bind_congr fun code => bind_congr fun brace => ?_
  split
  · exact openBlock_moved
  · rfl

theorem readDirective_moved : (draft.moved move).readDirective format (move line) token rest =
    DraftStep.moved move <$> draft.readDirective format line token rest := by
  cases token with
  | word name =>
      rw [readDirective, readDirective]
      split
      · exact declareType_moved
      split
      · exact mapDeviceCode_moved
      split
      · exact beginKey_moved
      · rfl
  | literal => rfl
  | punctuation => rfl

theorem closeBlock_moved : (draft.moved move).closeBlock (pending.moved move) rest =
    DraftStep.moved move <$> draft.closeBlock pending rest := by
  have hempty : (pending.moved move).isEmpty = pending.isEmpty := rfl
  rw [closeBlock, closeBlock, hempty]
  split
  · rfl
  · rfl

theorem readStatement_moved :
    (draft.moved move).readStatement (pending.moved move) token rest =
      DraftStep.moved move <$> draft.readStatement pending token rest := by
  unfold readStatement
  split
  · exact closeBlock_moved
  · rfl
  · simp only [map_bind, PendingKey.apply_moved, bind_map_left]
    rfl

theorem step_moved : (draft.moved move).step format (move line) token rest =
    DraftStep.moved move <$> draft.step format line token rest := by
  unfold step
  rw [pending_moved]
  cases draft.pending with
  | none => exact readDirective_moved
  | some pending => exact readStatement_moved

theorem finish_moved :
    (draft.moved move).finish format = (draft.finish format).moved move id := by
  unfold finish
  rw [pending_moved, map_moved, typeDeclared_moved]
  cases draft.pending with
  | none =>
      dsimp only [Option.map_none]
      split
      · rfl
      split
      · rfl
      · rfl
  | some pending => rfl

end Draft

namespace Cursor

variable {cursor : Cursor} {tokens : List Token}

theorem unread_moved : (cursor.moved move).unread = cursor.unread := by
  obtain ⟨layout, lastLine, lines⟩ := cursor
  cases lines <;> rfl

theorem lineNumber_moved : (cursor.moved move).lineNumber = move cursor.lineNumber := by
  obtain ⟨layout, lastLine, lines⟩ := cursor
  cases lines <;> rfl

theorem afterLine_moved : (cursor.moved move).afterLine = cursor.afterLine.moved move := by
  obtain ⟨layout, lastLine, lines⟩ := cursor
  cases lines <;> rfl

theorem withUnread_moved :
    (cursor.moved move).withUnread tokens = (cursor.withUnread tokens).moved move := by
  obtain ⟨layout, lastLine, lines⟩ := cursor
  cases lines <;> rfl

theorem error_moved (fault : SyntaxFault) :
    (cursor.moved move).error fault = (cursor.error fault).moved move := by
  rw [error, error, lineNumber_moved]
  rfl

end Cursor

namespace Reading

variable {reading : Reading}

theorem expectLineEnd_moved : (reading.moved move).expectLineEnd =
    (reading.expectLineEnd.map (moved move)).mapError (ParseError.moved move) := by
  simp only [expectLineEnd, moved, Cursor.unread_moved, Cursor.afterLine_moved, Cursor.error_moved]
  split
  · rfl
  · rfl

theorem advance_moved :
    (reading.moved move).advance format = (reading.advance format).moved move (moved move) := by
  have hcursor : (reading.moved move).cursor = reading.cursor.moved move := rfl
  have hdraft : (reading.moved move).draft = reading.draft.moved move := rfl
  unfold advance
  rw [hcursor, hdraft, Cursor.unread_moved, Cursor.lineNumber_moved, Cursor.afterLine_moved]
  cases reading.cursor.unread with
  | nil => rfl
  | cons token rest =>
      dsimp only
      rw [Draft.step_moved]
      cases reading.draft.step format reading.cursor.lineNumber token rest with
      | error fault =>
          dsimp only [Functor.map, Except.map]
          rw [Cursor.error_moved]
          rfl
      | ok next =>
          dsimp only [Functor.map, Except.map, DraftStep.moved]
          rw [Cursor.withUnread_moved, Draft.pending_moved]
          cases next.draft.pending with
          | none =>
              dsimp only [Option.map_none]
              exact congrArg (Report.mk next.notes)
                (@expectLineEnd_moved move ⟨next.draft, reading.cursor.withUnread next.rest⟩)
          | some pending => rfl

theorem run_moved :
    run format (reading.moved move) = (run format reading).moved move (Draft.moved move) := by
  induction reading using run.induct format with
  | case1 reading hlines =>
      rw [run_eq_ok hlines, run_eq_ok (List.map_eq_nil_iff.mpr hlines)]
      rfl
  | case2 reading hlines step error herror =>
      rw [run_eq_bind hlines, run_eq_bind (mt List.map_eq_nil_iff.mp hlines), advance_moved]
      refine Report.bind_moved fun next hnext => ?_
      cases herror.symm.trans hnext
  | case3 reading hlines step next hnext ih =>
      rw [run_eq_bind hlines, run_eq_bind (mt List.map_eq_nil_iff.mp hlines), advance_moved]
      refine Report.bind_moved fun other hother => ?_
      cases hnext.symm.trans hother
      exact ih

end Reading

theorem Cursor.ofLines_moved {lines : List TokenLine} (hlines : lines ≠ []) :
    ofLines name (lines.map (TokenLine.moved move)) = (ofLines name lines).moved move := by
  obtain ⟨last, hlast⟩ := List.getLast?_isSome.mpr hlines |> Option.isSome_iff_exists.mp
  simp [ofLines, moved, List.getLast?_map, hlast, TokenLine.moved]

namespace KeyMap

variable {lines : List TokenLine}

theorem run_ofLines_moved :
    Reading.run format ⟨.ofName name, Cursor.ofLines name (lines.map (TokenLine.moved move))⟩ =
      (Reading.run format ⟨.ofName name, Cursor.ofLines name lines⟩).moved move
        (Draft.moved move) := by
  cases lines with
  | nil =>
      rw [Reading.run_eq_ok rfl, Reading.run_eq_ok rfl]
      rfl
  | cons line rest =>
      rw [Cursor.ofLines_moved (List.cons_ne_nil _ _)]
      exact @Reading.run_moved move format ⟨.ofName name, Cursor.ofLines name (line :: rest)⟩

theorem ofLines_moved : ofLines name (lines.map (TokenLine.moved move)) format =
    (ofLines name lines format).moved move id := by
  rw [ofLines, ofLines, run_ofLines_moved]
  refine Report.bind_moved fun draft _ => ?_
  rw [Draft.finish_moved]
  exact Report.bind_moved fun map _ => rfl

end KeyMap

end KeyLayout
