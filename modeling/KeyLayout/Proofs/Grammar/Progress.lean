import KeyLayout.Proofs.Grammar.Numbering
import KeyLayout.Proofs.Grammar.Turns

namespace KeyLayout

/-! Reading goes on: each turn takes a token or leaves a line behind, so that there are no
more turns than tokens and lines, and none comes to a halt but for a fault of the layout. -/

/-- The number of the tokens and of the lines that have any. -/
def TokenLine.extent (lines : List TokenLine) : Nat :=
  (lines.flatMap TokenLine.tokens).length + (filled lines).length

theorem TokenLine.flatMap_filled (lines : List TokenLine) :
    (filled lines).flatMap TokenLine.tokens = lines.flatMap TokenLine.tokens := by
  induction lines with
  | nil => rfl
  | cons own rest ih =>
      rw [filled, List.filter_cons, List.flatMap_cons]
      split
      next => rw [List.flatMap_cons, ← ih, filled]
      next hempty =>
        have hnil : own.tokens = [] := by simpa using hempty
        rw [hnil, List.nil_append, ← ih, filled]

theorem TokenLine.filled_eq_self {lines : List TokenLine} (hfilled : Draft.Filled lines) :
    filled lines = lines :=
  List.filter_eq_self.mpr fun own hown => by simpa using hfilled own hown

namespace Cursor

variable {cursor : Cursor} {tokens : List Token}

theorem length_lines_withUnread (cursor : Cursor) (tokens : List Token) :
    (cursor.withUnread tokens).lines.length = cursor.lines.length := by
  obtain ⟨layout, lastLine, lines⟩ := cursor
  cases lines <;> rfl

theorem length_unread_withUnread (hweight : (cursor.withUnread tokens).weight < cursor.weight) :
    (cursor.withUnread tokens).unread.length < cursor.unread.length := by
  obtain ⟨layout, lastLine, lines⟩ := cursor
  cases lines with
  | nil => exact absurd hweight (Nat.lt_irrefl _)
  | cons own rest =>
      simp only [weight, withUnread, unread, List.length_cons, List.flatMap_cons,
        List.length_append] at hweight ⊢
      omega

theorem length_lines_afterLine (hlines : cursor.lines ≠ []) :
    cursor.afterLine.lines.length < cursor.lines.length := by
  rw [afterLine, List.length_tail]
  exact Nat.sub_lt (List.length_pos_of_ne_nil hlines) Nat.one_pos

end Cursor

namespace Machine

variable {machine next : Machine} {format : Format} {name : Text} {lines : List TokenLine}
  {count : Nat}

/-- Fewer lines are left than to the other machine, or as many and fewer tokens of the line. -/
def Nearer (next machine : Machine) : Prop :=
  Prod.Lex (· < ·) (· < ·) (next.position.linesLeft, next.position.tokensLeft)
    (machine.position.linesLeft, machine.position.tokensLeft)

theorem lines_reading_eq_nil_iff :
    machine.reading.cursor.lines = [] ↔ machine.position.atEnd = true :=
  Position.atEnd_eq_true_iff.symm

theorem lines_reading_ne_nil (hend : machine.position.atEnd = false) :
    machine.reading.cursor.lines ≠ [] := by
  rw [ne_eq, lines_reading_eq_nil_iff, hend]
  exact Bool.false_ne_true

theorem nearer_of_advance (hend : machine.position.atEnd = false)
    (hadvance : (machine.reading.advance format).outcome = .ok next.reading) :
    next.Nearer machine := by
  have hlines := lines_reading_ne_nil hend
  have hweight := Reading.advance_weight hadvance hlines
  rw [Nearer, Prod.lex_def]
  simp only [← Position.length_lines_cursor, ← Position.length_unread, ← Position.unread_cursor]
  rcases Reading.cursor_of_advance hadvance with hcursor | ⟨left, hcursor⟩
  · left
    change next.reading.cursor.lines.length < machine.reading.cursor.lines.length
    rw [hcursor]
    exact Cursor.length_lines_afterLine hlines
  · right
    change next.reading.cursor.lines.length = machine.reading.cursor.lines.length ∧
      next.reading.cursor.unread.length < machine.reading.cursor.unread.length
    rw [hcursor] at hweight ⊢
    exact ⟨Cursor.length_lines_withUnread _ _, Cursor.length_unread_withUnread hweight⟩

theorem fits_start (name : Text) (lines : List TokenLine) : (start name lines).Fits :=
  ⟨by simp [start, Draft.ofName], rfl⟩

theorem reading_start (name : Text) (lines : List TokenLine) :
    (start name lines).reading =
      ⟨.ofName name, Cursor.ofLines name (TokenLine.filled lines)⟩ := by
  rw [reading, start, Position.cursor_ofLines]

theorem after_of_atEnd (hend : machine.position.atEnd = true) :
    machine.after format count = pure machine := by
  cases count with
  | zero => rfl
  | succ count => rw [after, if_pos hend]

theorem after_of_not_atEnd (hend : machine.position.atEnd = false) :
    machine.after format (count + 1) =
      machine.turn format >>= fun next => next.after format count := by
  rw [after, if_neg (by rw [hend]; exact Bool.false_ne_true)]

/-- What each turn keeps, and how much of what is left each takes. -/
theorem fits_of_after (hfits : machine.Fits)
    (hafter : (machine.after format count).outcome = .ok next) :
    next.Fits ∧ next.position.layout = machine.position.layout ∧
      (next.position.atEnd = false →
        count + next.reading.cursor.weight ≤ machine.reading.cursor.weight) := by
  induction count generalizing machine with
  | zero =>
      cases hafter
      exact ⟨hfits, rfl, fun _ => by omega⟩
  | succ count ih =>
      cases hend : machine.position.atEnd with
      | true =>
          rw [after_of_atEnd hend] at hafter
          cases hafter
          exact ⟨hfits, rfl, fun hleft => by rw [hend] at hleft; contradiction⟩
      | false =>
          rw [after_of_not_atEnd hend, Report.bind_eq_ok_iff] at hafter
          obtain ⟨middle, hmiddle, hafter⟩ := hafter
          rcases turn_cases hfits format with
            ⟨notes, error, hturn, -⟩ | ⟨notes, reached, hturn, hadvance, hreached⟩
          · rw [hturn] at hmiddle
            contradiction
          · rw [hturn] at hmiddle
            cases hmiddle
            have hreading := congrArg Report.outcome hadvance
            have hweight := Reading.advance_weight hreading (lines_reading_ne_nil hend)
            obtain ⟨hnext, hlayout, hleft⟩ := ih hreached hafter
            refine ⟨hnext, hlayout.trans (Reading.layout_of_advance hreading), fun hmore => ?_⟩
            have hshare := hleft hmore
            omega

theorem after_finish_of_atEnd (hfits : machine.Fits) (hend : machine.position.atEnd = true) :
    (machine.after format count >>= fun last => last.finish format) =
      (Reading.run format machine.reading >>= fun draft => draft.finish format).mapError
        .fault := by
  rw [after_of_atEnd hend, pure_bind, finish_eq hfits,
    Reading.run_eq_ok (lines_reading_eq_nil_iff.mpr hend)]
  rfl

/-- With turns for all that is left, a machine ends as the reading does. -/
theorem after_finish_eq (hfits : machine.Fits)
    (hcount : machine.reading.cursor.weight ≤ count) :
    (machine.after format count >>= fun last => last.finish format) =
      (Reading.run format machine.reading >>= fun draft => draft.finish format).mapError
        .fault := by
  induction count generalizing machine with
  | zero =>
      refine after_finish_of_atEnd hfits (lines_reading_eq_nil_iff.mp ?_)
      rw [Cursor.weight] at hcount
      exact List.eq_nil_of_length_eq_zero (by omega)
  | succ count ih =>
      cases hend : machine.position.atEnd with
      | true => exact after_finish_of_atEnd hfits hend
      | false =>
          have hlines := lines_reading_ne_nil hend
          rw [after_of_not_atEnd hend, Reading.run_eq_bind hlines, bind_assoc, bind_assoc,
            Report.mapError_bind]
          rcases turn_cases hfits format with
            ⟨notes, error, hturn, hadvance⟩ | ⟨notes, next, hturn, hadvance, hnext⟩
          · rw [hturn, hadvance]
            rfl
          · have hweight := Reading.advance_weight (congrArg Report.outcome hadvance) hlines
            rw [hturn, hadvance]
            change Report.mk notes (.ok next) >>= _ = Report.mk notes (.ok next.reading) >>= _
            rw [Report.ok_bind, Report.ok_bind, ih hnext (by omega)]

/-! What holds wherever reading gets to. -/

/-- The next turn is at fault or comes nearer to the end; a block that is open is of some
key, and the key is there for a statement that is read, together with a token, and for the
complaint that the block is left open. -/
structure Proceeds (format : Format) (name : Text) (machine : Machine) : Prop where
  turn : machine.position.atEnd = false →
    (∃ error, (machine.turn format).outcome = .error (.fault error)) ∨
      ∃ next, (machine.turn format).outcome = .ok next ∧ next.Nearer machine
  mode : machine.mode = .block ↔ machine.draft.pending.isSome = true
  statement : machine.position.atLineEnd = false → machine.mode = .block →
    machine.turn format = machine.readStatement ∧
      ∃ pending token next, machine.draft.pending = some pending ∧
        machine.position.next = some (token, next)
  openBlock : machine.position.atEnd = true → machine.mode = .block →
    ∃ pending, machine.draft.pending = some pending ∧
      (machine.finish format).outcome =
        .error (.fault ⟨some name, pending.line, .openBlock pending.code⟩)

theorem Fits.proceeds (hfits : machine.Fits) (format : Format) :
    machine.Proceeds format machine.draft.map.name where
  turn := by
    intro hend
    rcases turn_cases hfits format with
      ⟨notes, error, hturn, -⟩ | ⟨notes, next, hturn, hadvance, -⟩
    · exact .inl ⟨error, congrArg Report.outcome hturn⟩
    · exact .inr ⟨next, congrArg Report.outcome hturn,
        nearer_of_advance hend (congrArg Report.outcome hadvance)⟩
  mode := hfits.mode
  statement := by
    intro hleft hmode
    obtain ⟨pending, hpending⟩ := Option.isSome_iff_exists.mp (hfits.mode.mp hmode)
    rcases machine.position.next_cases with ⟨-, hnil⟩ | ⟨token, next, hnext, -, -⟩
    · rw [Position.atLineEnd_eq_true_iff.mpr hnil] at hleft
      contradiction
    · refine ⟨?_, pending, token, next, hpending, hnext⟩
      rw [Machine.turn, if_neg (by rw [hleft]; exact Bool.false_ne_true), hmode]
  openBlock := by
    intro hend hmode
    obtain ⟨pending, hpending⟩ := Option.isSome_iff_exists.mp (hfits.mode.mp hmode)
    refine ⟨pending, hpending, ?_⟩
    rw [finish, hmode, hpending, hfits.name]
    rfl

theorem weight_start (name : Text) (lines : List TokenLine) :
    (start name lines).reading.cursor.weight = TokenLine.extent lines := by
  rw [reading_start, Cursor.weight, TokenLine.extent, Nat.add_comm,
    ← TokenLine.flatMap_filled lines]
  rfl

/-- The machine describes the same key map, with the same notes, or complains of the same. -/
theorem read_eq (name : Text) (lines : List TokenLine) (format : Format) :
    read format name lines (TokenLine.extent lines) =
      (KeyMap.ofLines name (TokenLine.filled lines) format).mapError .fault := by
  rw [KeyMap.ofLines, ← bind_assoc, Report.mapError_bind, ← reading_start,
    ← after_finish_eq (fits_start name lines) (weight_start name lines).le, bind_assoc]
  rfl

/-- Wherever reading gets to, it proceeds, and no turn begins after as many as there are
tokens and lines that have any.  So many turns read what the text describes. -/
theorem after_proceeds (name : Text) (lines : List TokenLine) (format : Format) :
    (∀ count machine, ((start name lines).after format count).outcome = .ok machine →
      machine.Proceeds format name ∧
        (machine.position.atEnd = false → count < TokenLine.extent lines)) ∧
    ∀ text, TokenLine.ofText name text = .ok lines →
      read format name lines (TokenLine.extent lines) =
        (KeyMap.ofText name text format).mapError .fault := by
  constructor
  · intro count machine hafter
    obtain ⟨hfits, hlayout, hweight⟩ := fits_of_after (fits_start name lines) hafter
    have hname : machine.draft.map.name = name := hfits.name.trans hlayout
    refine ⟨hname ▸ hfits.proceeds format, fun hend => ?_⟩
    have hleft := hweight hend
    have hlines := List.length_pos_of_ne_nil (lines_reading_ne_nil hend)
    rw [weight_start, Cursor.weight] at hleft
    omega
  · intro text hlines
    rw [read_eq, KeyMap.ofText_eq_ofLines, hlines,
      TokenLine.filled_eq_self (TokenLine.filled_of_ofLines hlines)]
    rfl

/-- A block with a stray separator that is left open. -/
def openText : Text := "key HOME \x7b\n;"

def openLines : List TokenLine :=
  [⟨1, [.word "key", .word "HOME", .punctuation .openBrace]⟩, ⟨2, [.punctuation .semicolon]⟩]

/-- The machine in that block. -/
def openMachine (line token : Nat) : Machine where
  position := { layout := "pad", lines := openLines, line := line, token := token }
  draft := { Draft.ofName "pad" with
    blockSeen := true
    pending := some { code := 3, line := 1 } }
  mode := .block

theorem turn_openLines : (start "pad" openLines).turn .any = pure (openMachine 0 3) := by
  have hhome : KeyCode.read "HOME" = .ok 3 := KeyCode.read_eq_ok_iff.mpr KeyMap.ofLabel?_home
  change (lift ((KeyCode.read "HOME").mapError _) >>= fun code => _) = _
  rw [hhome]
  rfl

theorem after_openLines :
    ((start "pad" openLines).after .any 2).outcome = .ok (openMachine 1 0) ∧
      ((start "pad" openLines).after .any 4).outcome = .ok (openMachine 2 0) := by
  rw [after_of_not_atEnd rfl, after_of_not_atEnd rfl, turn_openLines]
  exact ⟨rfl, rfl⟩

theorem after_proceeds_open :
    TokenLine.extent openLines = 6 ∧
      (openMachine 1 0).turn .any = (openMachine 1 0).readStatement ∧
      (∃ next, ((openMachine 1 0).turn .any).outcome = .ok next ∧
        next.Nearer (openMachine 1 0)) ∧
      ((openMachine 2 0).finish .any).outcome =
        .error (.fault ⟨some "pad", 1, .openBlock 3⟩) ∧
      read .any "pad" openLines 6 = (KeyMap.ofText "pad" openText .any).mapError .fault := by
  obtain ⟨hsemicolon, hlast⟩ := after_openLines
  obtain ⟨hreach, hread⟩ := after_proceeds "pad" openLines .any
  obtain ⟨hturn, -⟩ := (hreach 2 _ hsemicolon).1.statement rfl rfl
  obtain ⟨pending, hpending, hopen⟩ := (hreach 4 _ hlast).1.openBlock rfl rfl
  cases hpending
  refine ⟨rfl, hturn, ?_, hopen, hread openText (by with_unfolding_all rfl)⟩
  rcases (hreach 2 _ hsemicolon).1.turn rfl with ⟨error, herror⟩ | hnearer
  · contradiction
  · exact hnearer

end Machine

end KeyLayout
