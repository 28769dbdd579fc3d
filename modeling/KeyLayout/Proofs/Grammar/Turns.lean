import KeyLayout.Grammar.Machine
import KeyLayout.Grammar.Reading
import KeyLayout.Proofs.Grammar.Ends

namespace KeyLayout

/-! Turn by turn a machine reads what is read along a cursor, and keeps in its mode whether
a block is open. -/

/-- What a step comes to: the tokens that it took are left behind, and outside of a block
the whole line. -/
def Cursor.settle (cursor : Cursor) (outcome : Except SyntaxFault DraftStep) :
    Report ParseError Reading :=
  match outcome with
  | .error fault => .fail (cursor.error fault)
  | .ok step =>
      match step.draft.pending with
      | some _ => ⟨step.notes, .ok ⟨step.draft, cursor.withUnread step.rest⟩⟩
      | none =>
          ⟨step.notes, Reading.expectLineEnd ⟨step.draft, cursor.withUnread step.rest⟩⟩

theorem Reading.advance_of_lineEnd {format : Format} {reading : Reading}
    (hunread : reading.cursor.unread = []) :
    reading.advance format = ⟨[], .ok { reading with cursor := reading.cursor.afterLine }⟩ := by
  rw [advance, hunread]

theorem Reading.advance_of_token {format : Format} {reading : Reading} {token : Token}
    {rest : List Token} (hunread : reading.cursor.unread = token :: rest) :
    reading.advance format =
      reading.cursor.settle
        (reading.draft.step format reading.cursor.lineNumber token rest) := by
  rw [advance, hunread]
  rfl

namespace Machine

variable {machine : Machine} {place position : Position} {format : Format}

def reading (machine : Machine) : Reading where
  draft := machine.draft
  cursor := machine.position.cursor

/-- The mode and the key of the block go together, and the map has the name of the layout. -/
structure Fits (machine : Machine) : Prop where
  mode : machine.mode = .block ↔ machine.draft.pending.isSome = true
  name : machine.draft.map.name = machine.position.layout

theorem Fits.directives_of_pending (hfits : machine.Fits)
    (hpending : machine.draft.pending = none) : machine.mode = .directives := by
  cases hmode : machine.mode with
  | directives => rfl
  | block =>
      have hsome := hfits.mode.mp hmode
      rw [hpending] at hsome
      contradiction

theorem Fits.block_of_pending {pending : PendingKey} (hfits : machine.Fits)
    (hpending : machine.draft.pending = some pending) : machine.mode = .block :=
  hfits.mode.mpr (by rw [hpending]; rfl)

theorem Fits.onLine (hfits : machine.Fits)
    (hline : place.SameLine machine.position) (hposition : place.SameLine position) :
    Fits { machine with position := position } :=
  ⟨hfits.mode, hfits.name.trans (hline.layout.trans hposition.layout.symm)⟩

theorem Fits.afterLine (hfits : machine.Fits) :
    Fits { machine with position := machine.position.afterLine } :=
  ⟨hfits.mode, hfits.name.trans machine.position.layout_afterLine.symm⟩

/-- The same is noted, and the machine is left where the reading is, or complains of the
same. -/
inductive Mirrors : Report Halt Machine → Report ParseError Reading → Prop
  | ok {notes : List Note} {machine : Machine} (hfits : machine.Fits) :
      Mirrors ⟨notes, .ok machine⟩ ⟨notes, .ok machine.reading⟩
  | error {notes : List Note} {error : ParseError} :
      Mirrors ⟨notes, .error (.fault error)⟩ ⟨notes, .error error⟩

theorem lift_ok_bind {α β : Type} (value : α) (next : α → Report Halt β) :
    lift (.ok value) >>= next = next value :=
  rfl

namespace Mirrors

theorem bind {α β : Type} {keeps : α → β → Prop} {own : Except ParseError α}
    {other : Except SyntaxFault β} {ownNext : α → Report Halt Machine}
    {otherNext : β → Except SyntaxFault DraftStep} (hfirst : place.Simulates keeps own other)
    (hnext : ∀ first second, keeps first second →
      Mirrors (ownNext first) (place.cursor.settle (otherNext second))) :
    Mirrors (lift own >>= ownNext) (place.cursor.settle (other >>= otherNext)) := by
  cases hfirst with
  | ok hkeeps => exact hnext _ _ hkeeps
  | error =>
      change Mirrors _ (.fail (place.cursor.error _))
      rw [Position.error_cursor]
      exact .error

theorem complaint (hline : place.SameLine position) (fault : SyntaxFault) :
    Mirrors (.fail (.fault (position.error fault))) (place.cursor.settle (.error fault)) := by
  rw [hline.error_eq, ← Position.error_cursor]
  exact .error

/-- What is read first takes no tokens. -/
theorem leaf {α : Type} {outcome : Except SyntaxFault α} {ownNext : α → Report Halt Machine}
    {otherNext : α → Except SyntaxFault DraftStep} (hline : place.SameLine position)
    (hnext : ∀ value, Mirrors (ownNext value) (place.cursor.settle (otherNext value))) :
    Mirrors (lift (outcome.mapError position.error) >>= ownNext)
      (place.cursor.settle (outcome >>= otherNext)) := by
  cases outcome with
  | error fault => exact complaint hline fault
  | ok value => exact hnext value

theorem ite {condition : Prop} [Decidable condition] {ownThen ownElse : Report Halt Machine}
    {otherThen otherElse : Except SyntaxFault DraftStep}
    (hthen : condition → Mirrors ownThen (place.cursor.settle otherThen))
    (helse : ¬condition → Mirrors ownElse (place.cursor.settle otherElse)) :
    Mirrors (if condition then ownThen else ownElse)
      (place.cursor.settle (if condition then otherThen else otherElse)) := by
  by_cases hcondition : condition
  · rw [if_pos hcondition, if_pos hcondition]
    exact hthen hcondition
  · rw [if_neg hcondition, if_neg hcondition]
    exact helse hcondition

/-- Outside of a block the line has to end. -/
theorem lineEnd (hfits : machine.Fits) (hline : place.SameLine machine.position)
    (hpending : machine.draft.pending = none) (notes : List Note) :
    Mirrors (Report.tell notes >>= fun _ => machine.expectLineEnd)
      (place.cursor.settle
        (.ok { draft := machine.draft, rest := machine.position.unread, notes := notes })) := by
  have hsettled : place.cursor.settle
      (.ok { draft := machine.draft, rest := machine.position.unread, notes := notes }) =
        ⟨notes, machine.reading.expectLineEnd⟩ := by
    rw [Cursor.settle, reading, hline.cursor_eq]
    dsimp only
    rw [hpending]
  have htold (report : Report Halt Machine) (hnotes : report.notes = []) :
      Report.tell notes >>= (fun _ => report) = ⟨notes, report.outcome⟩ := by
    change Report.mk (notes ++ report.notes) report.outcome = _
    rw [hnotes, List.append_nil]
  have hunread : machine.reading.cursor.unread = machine.position.unread :=
    Position.unread_cursor _
  rw [hsettled, expectLineEnd, Reading.expectLineEnd, hunread]
  split
  next hend =>
    rw [htold _ rfl, Position.atLineEnd_eq_true_iff.mp hend]
    rw [reading, ← Position.cursor_afterLine]
    exact .ok hfits.afterLine
  next hend =>
    rw [htold _ rfl]
    split
    next hnil => exact absurd (Position.atLineEnd_eq_true_iff.mpr hnil) hend
    next =>
      rw [reading, Position.error_cursor]
      exact .error

/-- Inside of a block the line may go on. -/
theorem within (hfits : machine.Fits) (hline : place.SameLine machine.position)
    (hpending : machine.draft.pending.isSome = true) :
    Mirrors (pure machine)
      (place.cursor.settle (.ok { draft := machine.draft, rest := machine.position.unread })) := by
  obtain ⟨pending, hpending⟩ := Option.isSome_iff_exists.mp hpending
  have hsettled : place.cursor.settle
      (.ok { draft := machine.draft, rest := machine.position.unread }) =
        ⟨[], .ok machine.reading⟩ := by
    rw [Cursor.settle, reading, hline.cursor_eq]
    dsimp only
    rw [hpending]
  rw [hsettled]
  exact .ok hfits

end Mirrors

section Directives

variable {code : KeyCode} {kind : DeviceCodeKind} {device : Nat}

theorem mirrors_openBlock (hfits : machine.Fits) (hline : place.SameLine machine.position) :
    Mirrors (machine.openBlock code)
      (place.cursor.settle
        (machine.draft.openBlock place.lineNumber code machine.position.unread)) := by
  rw [openBlock, Draft.openBlock]
  refine .ite (fun _ => .complaint hline _) fun _ => ?_
  rw [← hline.lineNumber_eq]
  have hopened : Fits { machine with
      draft := { machine.draft with
        blockSeen := true
        pending := some { code := code, line := machine.position.lineNumber } }
      mode := .block } := ⟨by simp, hfits.name⟩
  exact .within hopened hline rfl

theorem mirrors_withType {type : KeyboardType} (hfits : machine.Fits)
    (hline : place.SameLine machine.position) (hpending : machine.draft.pending = none) :
    Mirrors (machine.withType format type)
      (place.cursor.settle (machine.draft.withType format type machine.position.unread)) := by
  rw [withType, Draft.withType]
  refine .ite (fun _ => .complaint hline _) fun _ => .ite (fun _ => .complaint hline _) fun _ => ?_
  rw [hfits.name]
  have htyped : Fits { machine with
      draft := { machine.draft with
        map := { machine.draft.map with type := type }
        typeDeclared := true } } := ⟨hfits.mode, hfits.name⟩
  exact .lineEnd htyped hline hpending _

theorem mirrors_declareType (hfits : machine.Fits) (hline : place.SameLine machine.position)
    (hpending : machine.draft.pending = none) :
    Mirrors (machine.declareType format)
      (place.cursor.settle (machine.draft.declareType format machine.position.unread)) := by
  rw [declareType, Draft.declareType]
  refine .ite (fun _ => .complaint hline _) fun _ => .ite (fun _ => .complaint hline _) fun _ =>
    .ite (fun _ => .complaint hline _) fun _ => ?_
  refine .bind (Position.simulates_expectWord hline) ?_
  rintro ⟨name, position⟩ ⟨_, _⟩ ⟨rfl, hposition, rfl⟩
  dsimp only
  cases KeyboardType.ofName? name with
  | none => exact .complaint hposition _
  | some type => exact mirrors_withType (hfits.onLine hline hposition) hposition hpending

theorem mirrors_addEntry (hfits : machine.Fits) (hline : place.SameLine machine.position)
    (hpending : machine.draft.pending = none) :
    Mirrors (machine.addEntry kind device code)
      (place.cursor.settle
        (machine.draft.addEntry place.lineNumber kind device code machine.position.unread)) := by
  rw [addEntry, Draft.addEntry.eq_def]
  refine .ite (fun _ => .complaint hline _) fun _ => ?_
  have hadded : Fits { machine with draft := machine.draft.addDeviceCode kind device code } := by
    cases kind <;> exact ⟨hfits.mode, hfits.name⟩
  have hnone : (machine.draft.addDeviceCode kind device code).pending = none := by
    cases kind <;> exact hpending
  have hends := Mirrors.lineEnd hadded hline hnone []
  dsimp only at hends ⊢
  rcases machine.position.next_cases with ⟨hnext, hunread⟩ | ⟨token, next, hnext, hsame, hunread⟩
  · rw [hunread] at hends
    rw [hnext, hunread]
    exact hends
  · rw [hunread] at hends
    rw [hnext, hunread]
    split
    next heq =>
      cases heq
      exact mirrors_openBlock (hadded.onLine hline (hline.trans hsame)) (hline.trans hsame)
    next hother =>
      split
      next heq =>
        cases heq
        exact absurd rfl (hother _)
      next => exact hends

theorem mirrors_mapDeviceCode (hfits : machine.Fits) (hline : place.SameLine machine.position)
    (hpending : machine.draft.pending = none) :
    Mirrors machine.mapDeviceCode
      (place.cursor.settle
        (machine.draft.mapDeviceCode place.lineNumber machine.position.unread)) := by
  refine .bind (Position.simulates_expectWord hline) ?_
  rintro ⟨key, afterKey⟩ ⟨_, _⟩ ⟨rfl, hkey, rfl⟩
  refine .ite (fun _ => .complaint hkey _) fun _ => ?_
  refine .bind (Position.simulates_expectDeviceCode hkey) ?_
  rintro ⟨kind, text, afterDevice⟩ ⟨_, _, _⟩ ⟨rfl, rfl, hdevice, rfl⟩
  refine .leaf hdevice fun device => ?_
  refine .bind (Position.simulates_expectWord hdevice) ?_
  rintro ⟨label, afterLabel⟩ ⟨_, _⟩ ⟨rfl, hlabel, rfl⟩
  refine .leaf hlabel fun code => ?_
  exact mirrors_addEntry (hfits.onLine hline hlabel) hlabel hpending

theorem mirrors_beginKey (hfits : machine.Fits) (hline : place.SameLine machine.position) :
    Mirrors machine.beginKey
      (place.cursor.settle
        (machine.draft.beginKey place.lineNumber machine.position.unread)) := by
  refine .bind (Position.simulates_expectWord hline) ?_
  rintro ⟨label, afterLabel⟩ ⟨_, _⟩ ⟨rfl, hlabel, rfl⟩
  refine .leaf hlabel fun code => ?_
  refine .bind (Position.simulates_expect hlabel) ?_
  rintro ⟨token, afterToken⟩ ⟨_, _⟩ ⟨rfl, htoken, rfl⟩
  exact .ite (fun _ => mirrors_openBlock (hfits.onLine hline htoken) htoken)
    fun _ => .complaint htoken _

theorem mirrors_readDirective {token : Token} {rest : List Token} (hfits : machine.Fits)
    (hline : place.SameLine machine.position) (hpending : machine.draft.pending = none)
    (hunread : machine.position.unread = token :: rest) :
    Mirrors (machine.readDirective format)
      (place.cursor.settle
        (machine.draft.readDirective format place.lineNumber token rest)) := by
  obtain ⟨next, hnext, hsame, rfl⟩ := Position.exists_next_of_unread hunread
  have hnextLine : place.SameLine next := hline.trans hsame
  have hmoved := hfits.onLine hline hnextLine
  rw [readDirective, Position.expectWord, Position.expect_of_next hnext]
  cases token with
  | literal text => exact .complaint hnextLine _
  | punctuation mark => exact .complaint hnextLine _
  | word name =>
      rw [lift_ok_bind, Draft.readDirective]
      exact .ite (fun _ => mirrors_declareType hmoved hnextLine hpending) fun _ =>
        .ite (fun _ => mirrors_mapDeviceCode hmoved hnextLine hpending) fun _ =>
          .ite (fun _ => mirrors_beginKey hmoved hnextLine) fun _ => .complaint hnextLine _

end Directives

section Statements

theorem mirrors_closeBlock {pending : PendingKey} (hfits : machine.Fits)
    (hline : place.SameLine machine.position) (hpending : machine.draft.pending = some pending) :
    Mirrors (machine.closeBlock >>= expectLineEnd)
      (place.cursor.settle (machine.draft.closeBlock pending machine.position.unread)) := by
  rw [closeBlock, hpending, Draft.closeBlock]
  dsimp only
  by_cases hempty : pending.isEmpty = true
  · rw [if_pos hempty, if_pos hempty]
    exact .complaint hline _
  · have hnote : Note.finishedKey machine.draft.map.name pending.code =
        .finishedKey machine.position.layout pending.code := by
      rw [hfits.name]
    rw [if_neg hempty, if_neg hempty, hnote, bind_assoc]
    have hclosed : Fits { machine with
        draft := { machine.draft with
          map := { machine.draft.map with
            keys := machine.draft.map.keys.insert pending.code pending.finish }
          pending := none }
        mode := .directives } := ⟨by simp, hfits.name⟩
    exact .lineEnd hclosed hline rfl _

theorem mirrors_foldlM_set {value : Value} {properties : List Property} {pending : PendingKey}
    (hfits : machine.Fits)
    (hline : place.SameLine machine.position) (hpending : machine.draft.pending = some pending) :
    Mirrors (properties.foldlM (set value) machine)
      (place.cursor.settle
        (pending.apply ⟨properties, value⟩ >>= fun pending =>
          .ok {
            draft := { machine.draft with pending := some pending }
            rest := machine.position.unread })) := by
  induction properties generalizing machine pending with
  | nil =>
      have hdraft : machine.draft = { machine.draft with pending := some pending } := by
        rw [← hpending]
      change Mirrors (pure machine) (place.cursor.settle (.ok _))
      rw [← hdraft]
      exact .within hfits hline (by rw [hpending]; rfl)
  | cons property rest ih =>
      have happly : pending.apply ⟨property :: rest, value⟩ =
          pending.set value property >>= fun pending => pending.apply ⟨rest, value⟩ := rfl
      rw [List.foldlM_cons, happly, set, hpending, bind_assoc]
      dsimp only
      rw [bind_assoc]
      refine .leaf hline fun next => ?_
      have hset : Fits { machine with draft := { machine.draft with pending := some next } } :=
        ⟨by rw [hfits.mode, hpending]; rfl, hfits.name⟩
      rw [pure_bind]
      exact ih hset hline rfl

theorem mirrors_readStatement {token : Token} {rest : List Token} {pending : PendingKey}
    (hfits : machine.Fits)
    (hline : place.SameLine machine.position) (hpending : machine.draft.pending = some pending)
    (hunread : machine.position.unread = token :: rest) :
    Mirrors machine.readStatement
      (place.cursor.settle (machine.draft.readStatement pending token rest)) := by
  obtain ⟨next, hnext, hsame, rfl⟩ := Position.exists_next_of_unread hunread
  have hnextLine : place.SameLine next := hline.trans hsame
  have hmoved := hfits.onLine hline hnextLine
  rw [readStatement, hnext]
  split
  next heq => contradiction
  next heq =>
    cases heq
    exact mirrors_closeBlock hmoved hnextLine hpending
  next heq =>
    cases heq
    exact .within hmoved hnextLine (by rw [hpending]; rfl)
  next hclose hsemicolon heq =>
    cases heq
    rw [Draft.readStatement]
    · dsimp only
      rw [Statement.read_eq_bind_readHead, bind_assoc]
      refine .bind (Position.simulates_readHead hnextLine next.ends_takeWhile) ?_
      rintro ⟨properties, afterHead⟩ ⟨_, tokens⟩ ⟨rfl, hhead, hends⟩
      rw [bind_assoc]
      refine .bind (Position.simulates_readValue hhead hends) ?_
      rintro ⟨value, afterValue⟩ _ ⟨rfl, hvalue, hafter⟩
      rw [← hafter]
      exact mirrors_foldlM_set (hfits.onLine hline hvalue) hvalue hpending
    · exact hclose
    · exact hsemicolon

end Statements

theorem turn_mirrors (hfits : machine.Fits) (format : Format) :
    Mirrors (machine.turn format) (machine.reading.advance format) := by
  have hunread : machine.reading.cursor.unread = machine.position.unread :=
    Position.unread_cursor _
  rw [turn]
  split
  next hend =>
    rw [Reading.advance_of_lineEnd (hunread.trans (Position.atLineEnd_eq_true_iff.mp hend))]
    rw [reading, ← Position.cursor_afterLine]
    exact .ok hfits.afterLine
  next hend =>
    rw [Position.atLineEnd_eq_true_iff] at hend
    obtain ⟨token, rest, hcons⟩ := List.exists_cons_of_ne_nil hend
    rw [Reading.advance_of_token (hunread.trans hcons)]
    change Mirrors _ (machine.position.cursor.settle
      (machine.draft.step format machine.position.cursor.lineNumber token rest))
    rw [Position.lineNumber_cursor, Draft.step]
    cases hpending : machine.draft.pending with
    | none =>
        rw [hfits.directives_of_pending hpending]
        exact mirrors_readDirective hfits (.refl _) hpending hcons
    | some pending =>
        rw [hfits.block_of_pending hpending]
        exact mirrors_readStatement hfits (.refl _) hpending hcons

/-- A turn is at fault where the step of the reading is, or leads where that leads. -/
theorem turn_cases (hfits : machine.Fits) (format : Format) :
    (∃ notes error, machine.turn format = ⟨notes, .error (.fault error)⟩ ∧
      machine.reading.advance format = ⟨notes, .error error⟩) ∨
    ∃ notes next, machine.turn format = ⟨notes, .ok next⟩ ∧
      machine.reading.advance format = ⟨notes, .ok next.reading⟩ ∧ next.Fits := by
  have hmirrors := turn_mirrors hfits format
  generalize machine.turn format = own at hmirrors ⊢
  generalize machine.reading.advance format = other at hmirrors ⊢
  cases hmirrors with
  | ok hnext => exact .inr ⟨_, _, rfl, rfl, hnext⟩
  | error => exact .inl ⟨_, _, rfl, rfl⟩

theorem finish_eq (hfits : machine.Fits) (format : Format) :
    machine.finish format = (machine.draft.finish format).mapError .fault := by
  rw [finish, Draft.finish]
  cases hpending : machine.draft.pending with
  | none =>
      rw [hfits.directives_of_pending hpending]
      dsimp only
      split
      · rfl
      · split
        · rw [hfits.name]
          rfl
        · rfl
  | some pending =>
      rw [hfits.block_of_pending hpending, ← hfits.name]
      rfl

end Machine

end KeyLayout
