import KeyLayout.Proofs.Grammar.Faults
import KeyLayout.Proofs.Grammar.Joining

namespace KeyLayout

/-! A text that is refused is at fault in one of its lines, and what comes after that line
does not matter, unless the fault is that a block is left open. -/

/-- The error is placed in a line of one of these numbers, and is no block left open. -/
structure ParseError.Within (error : ParseError) (layout : Text) (numbers : List Nat) :
    Prop where
  layout : error.layout = some layout
  line : ∃ number ∈ numbers, error.line = number
  inLine : error.fault.isOpenBlock = false

theorem ParseError.Within.mono {error : ParseError} {layout : Text} {fewer more : List Nat}
    (hwithin : error.Within layout fewer) (hsub : fewer ⊆ more) : error.Within layout more where
  layout := hwithin.layout
  line := by
    obtain ⟨number, hnumber, hline⟩ := hwithin.line
    exact ⟨number, hsub hnumber, hline⟩
  inLine := hwithin.inLine

namespace Cursor

variable {cursor : Cursor}

def numbers (cursor : Cursor) : List Nat :=
  cursor.lines.map TokenLine.number

theorem numbers_withUnread (cursor : Cursor) (tokens : List Token) :
    (cursor.withUnread tokens).numbers = cursor.numbers := by
  obtain ⟨layout, lastLine, lines⟩ := cursor
  cases lines <;> rfl

theorem within_error {fault : SyntaxFault} (hlines : cursor.lines ≠ [])
    (hfault : fault.isOpenBlock = false) :
    (cursor.error fault).Within cursor.layout cursor.numbers := by
  obtain ⟨layout, lastLine, lines⟩ := cursor
  obtain ⟨own, rest, rfl⟩ := List.exists_cons_of_ne_nil hlines
  exact ⟨rfl, ⟨own.number, List.mem_cons_self .., rfl⟩, hfault⟩

end Cursor

namespace Reading

variable {format : Format} {reading next : Reading} {error : ParseError}

theorem within_of_advance (herror : (reading.advance format).outcome = .error error) :
    error.Within reading.cursor.layout reading.cursor.numbers := by
  unfold advance at herror
  split at herror
  next => contradiction
  next token rest hunread =>
    have hlines : reading.cursor.lines ≠ [] := by
      intro hnil
      rw [Cursor.unread, hnil] at hunread
      contradiction
    split at herror
    next fault hfault =>
      cases herror
      exact Cursor.within_error hlines (Draft.faultsInLine_step fault hfault)
    next step _ =>
      dsimp only at herror
      split at herror
      next => contradiction
      next =>
        unfold expectLineEnd at herror
        split at herror
        next => contradiction
        next =>
          cases herror
          rw [← Cursor.layout_withUnread reading.cursor step.rest,
            ← Cursor.numbers_withUnread reading.cursor step.rest]
          exact Cursor.within_error (Cursor.withUnread_lines_ne_nil hlines) rfl

/-- No line is gained on the way. -/
theorem numbers_of_advance (hnext : (reading.advance format).outcome = .ok next) :
    next.cursor.numbers ⊆ reading.cursor.numbers := by
  rcases cursor_of_advance hnext with hcursor | ⟨left, hcursor⟩
  · rw [hcursor]
    exact List.map_subset _ (List.tail_sublist _).subset
  · rw [hcursor, Cursor.numbers_withUnread]
    exact List.Subset.refl _

theorem within_of_run (herror : (run format reading).outcome = .error error) :
    error.Within reading.cursor.layout reading.cursor.numbers := by
  fun_induction run format reading with
  | case1 => contradiction
  | case2 reading hlines step fault hfault =>
      cases herror
      exact within_of_advance hfault
  | case3 reading hlines step next hnext rest ih =>
      rw [← layout_of_advance hnext]
      exact (ih herror).mono (numbers_of_advance hnext)

/-- A fault in the first lines is met whatever comes after them, and a later one is met
in a later line. -/
theorem outcome_run_append {draft : Draft} {layout : Text} {lastLine : Nat}
    {lines more : List TokenLine}
    (herror : (run format ⟨draft, ⟨layout, lastLine, lines ++ more⟩⟩).outcome = .error error) :
    (∃ number ∈ more.map TokenLine.number, error.line = number) ∨
      ∀ otherLine others,
        (run format ⟨draft, ⟨layout, otherLine, lines ++ others⟩⟩).outcome = .error error := by
  have hbefore (lastLine : Nat) (more : List TokenLine) :
      (run format ⟨draft, ⟨layout, lastLine, lines ++ more⟩⟩).outcome = _ :=
    outcome_run_before ⟨draft, ⟨layout, 0, lines⟩⟩
  rw [hbefore] at herror
  cases hfirst : (run format ⟨draft, ⟨layout, 0, lines⟩⟩).outcome with
  | ok middle =>
      rw [hfirst] at herror
      exact .inl (within_of_run herror).line
  | error own =>
      rw [hfirst] at herror
      cases herror
      refine .inr fun otherLine others => ?_
      rw [hbefore, hfirst]
      rfl

end Reading

/-- The tokens with which a line opens the block of a key. -/
inductive Item.Opens : List Token → KeyCode → Prop
  | key {label : Text} {code : KeyCode} (hlabel : KeyCode.ofLabel? label = some code) :
      Opens [.word "key", .word label, .punctuation .openBrace] code
  | entry {tokens : List Token} {entry : DeviceEntry} (hentry : entry.Derives tokens) :
      Opens (tokens ++ [.punctuation .openBrace]) entry.code

/-- The line of this number opens the block of the key, and no brace closes it. -/
def LeavesOpen (lines : List TokenLine) (number : Nat) (code : KeyCode) : Prop :=
  ∃ before header rest after, lines = before ++ ⟨number, header ++ rest⟩ :: after ∧
    Item.Opens header code ∧
      ∀ token ∈ rest ++ after.flatMap TokenLine.tokens, token ≠ .punctuation .closeBrace

namespace LeavesOpen

variable {lines : List TokenLine} {number : Nat} {code : KeyCode}

theorem cons (hopen : LeavesOpen lines number code) (own : TokenLine) :
    LeavesOpen (own :: lines) number code := by
  obtain ⟨before, header, rest, after, rfl, hheader, hrest⟩ := hopen
  exact ⟨own :: before, header, rest, after, rfl, hheader, hrest⟩

theorem of_tail (hopen : LeavesOpen lines.tail number code) : LeavesOpen lines number code := by
  cases lines with
  | nil => exact hopen
  | cons own rest => exact hopen.cons own

end LeavesOpen

theorem PendingKey.line_withSettings (pending : PendingKey) (settings : List (Property × Value)) :
    (pending.withSettings settings).line = pending.line := by
  induction settings generalizing pending with
  | nil => rfl
  | cons setting rest ih =>
      change ((pending.withSetting setting).withSettings rest).line = _
      rw [ih]
      obtain ⟨property, value⟩ := setting
      cases property <;> rfl

namespace Draft

variable {format : Format} {layout : Text} {line lastLine : Nat} {draft next last : Draft}
  {pending reached own : PendingKey} {token : Token} {rest left : List Token} {lines : List TokenLine}

theorem finish_eq_error_iff {error : ParseError} :
    (draft.finish format).outcome = .error error ↔
      ∃ pending, draft.pending = some pending ∧
        error = ⟨some draft.map.name, pending.line, .openBlock pending.code⟩ := by
  unfold finish
  cases draft.pending with
  | some pending => simp [Report.fail, eq_comm]
  | none =>
      dsimp only
      split
      · simp
      · split <;> simp

theorem name_add (draft : Draft) (item : Item) : (draft.add item).map.name = draft.map.name := by
  cases item with
  | type => rfl
  | entry entry =>
      obtain ⟨kind, device, code⟩ := entry
      cases kind <;> rfl
  | block => rfl

theorem Directs.name {tokens : List Token}
    (hdirects : Directs format line draft tokens next left) :
    next.map.name = draft.map.name := by
  cases hdirects with
  | type => rfl
  | entry => exact name_add ..
  | block => rfl
  | entryBlock => exact name_add ..

theorem Steps.name (hsteps : draft.Steps format line token rest next left) :
    next.map.name = draft.map.name := by
  cases hpending : draft.pending with
  | none => exact ((steps_iff_directs hpending).mp hsteps).name
  | some pending =>
      rcases hsteps.block_cases hpending with
        ⟨-, rfl, -⟩ | ⟨-, -, rfl, -⟩ | ⟨_, _, -, -, -, -, -, rfl⟩
      · rfl
      · rfl
      · rfl

theorem Reads.name (hreads : Reads format layout lastLine draft lines last) :
    last.map.name = draft.map.name := by
  induction hreads using Reads.induct with
  | nil => rfl
  | lineEnd _ ih => exact ih
  | within hsteps _ _ ih => exact ih.trans hsteps.name
  | beyond hsteps _ _ ih => exact ih.trans hsteps.name

theorem Directs.opens {tokens : List Token} (hdirects : Directs format line draft tokens next left)
    (hdraft : draft.pending = none) (hnext : next.pending = some pending) :
    pending.line = line ∧ ∃ header, tokens = header ++ left ∧ Item.Opens header pending.code := by
  cases hdirects with
  | type =>
      rw [pending_add, hdraft] at hnext
      contradiction
  | entry =>
      rw [pending_add, hdraft] at hnext
      contradiction
  | block hlabel =>
      cases hnext
      exact ⟨rfl, _, rfl, .key hlabel⟩
  | entryBlock hentry =>
      cases hnext
      exact ⟨rfl, _, (List.append_assoc _ [_] _).symm, .entry hentry⟩

/-- A block that stays open is the same block, and none of the tokens is its end. -/
theorem Steps.stays (hsteps : draft.Steps format line token rest next left)
    (hdraft : draft.pending = some pending) (hnext : next.pending = some reached) :
    reached.line = pending.line ∧ reached.code = pending.code ∧
      ∃ taken, token :: rest = taken ++ left ∧
        ∀ own ∈ taken, own ≠ .punctuation .closeBrace := by
  rcases hsteps.block_cases hdraft with ⟨rfl, rfl, rfl⟩ | ⟨-, -, rfl, -⟩ |
    ⟨first, statement, -, hwhole, hstatement, -, -, rfl⟩
  · obtain rfl := Option.some.inj (hdraft.symm.trans hnext)
    exact ⟨rfl, rfl, [_], rfl, by simp⟩
  · contradiction
  · obtain rfl := Option.some.inj hnext
    refine ⟨PendingKey.line_withSettings .., PendingKey.code_withSettings .., first, hwhole,
      fun own hown heq => ?_⟩
    have hseparator := hstatement.isSeparator_eq_false own hown
    rw [heq] at hseparator
    contradiction

/-- The block of the draft is the one that is open at the end, and no brace closes it. -/
def StaysOpen (own pending : PendingKey) (lines : List TokenLine) : Prop :=
  pending.line = own.line ∧ pending.code = own.code ∧
    ∀ token ∈ lines.flatMap TokenLine.tokens, token ≠ .punctuation .closeBrace

theorem Reads.leavesOpen (hreads : Reads format layout lastLine draft lines last)
    (hdraft : draft.pending = none) (hlast : last.pending = some own) :
    LeavesOpen lines own.line own.code := by
  -- inside of a block it is not known yet which one stays open, this one or one further on
  suffices h : (draft.pending = none → LeavesOpen lines own.line own.code) ∧
      ∀ pending, draft.pending = some pending →
        StaysOpen own pending lines ∨ LeavesOpen lines.tail own.line own.code from h.1 hdraft
  clear hdraft
  induction hreads using Reads.induct with
  | nil =>
      refine ⟨fun hnone => ?_, fun pending hpending => .inl ?_⟩
      · rw [hlast] at hnone
        contradiction
      · obtain rfl := Option.some.inj (hlast.symm.trans hpending)
        exact ⟨rfl, rfl, by simp⟩
  | lineEnd _ ih =>
      exact ⟨fun hnone => (ih.1 hnone).cons _,
        fun pending hpending => (ih.2 pending hpending).imp id .of_tail⟩
  | within hsteps hsome _ ih =>
      obtain ⟨reached, hreached⟩ := Option.isSome_iff_exists.mp hsome
      refine ⟨fun hnone => ?_, fun pending hpending => ?_⟩
      · obtain ⟨hline, header, hheader, hopens⟩ :=
          Directs.opens ((steps_iff_directs hnone).mp hsteps) hnone hreached
        rcases ih.2 reached hreached with ⟨hown, hcode, hmore⟩ | hmore
        · rw [hheader, ← hline, hown, ← hcode]
          exact ⟨[], header, _, _, rfl, hopens, hmore⟩
        · exact hmore.cons _
      · obtain ⟨hline, hcode, taken, hwhole, htaken⟩ := hsteps.stays hpending hreached
        refine (ih.2 reached hreached).imp_left ?_
        rintro ⟨hownLine, hownCode, hmore⟩
        refine ⟨hline.symm.trans hownLine, hcode.symm.trans hownCode, ?_⟩
        simp only [List.flatMap_cons, List.forall_mem_append] at hmore ⊢
        rw [hwhole]
        exact ⟨List.forall_mem_append.mpr ⟨htaken, hmore.1⟩, hmore.2⟩
  | beyond _ hnone _ ih => exact ⟨fun _ => (ih.1 hnone).cons _, fun _ _ => .inr (ih.1 hnone)⟩

end Draft

namespace KeyMap

variable {name text : Text} {format : Format} {error : ParseError} {lines : List TokenLine}

/-- A text of lines with tokens is refused in one of them or at its end. -/
theorem ofText_eq_error_iff (hlines : TokenLine.ofText name text = .ok lines) :
    (ofText name text format).outcome = .error error ↔
      (Reading.run format ⟨.ofName name, Cursor.ofLines name lines⟩).outcome = .error error ∨
        ∃ draft, Draft.Reads format name (Cursor.ofLines name lines).lastLine (.ofName name) lines
            draft ∧ (draft.finish format).outcome = .error error := by
  have hcursor : (Report.ofExcept (Cursor.ofText name text)).outcome =
      .ok (Cursor.ofLines name lines) := by
    rw [Cursor.ofText, hlines]
    rfl
  have htold (map : KeyMap) :
      (do
        Report.tell [.loaded name map.keys.size]
        return map : Report ParseError KeyMap).outcome ≠ .error error := by
    intro herror
    contradiction
  simp only [ofText, Report.bind_eq_error_iff, hcursor, reduceCtorEq, false_or, Except.ok.injEq,
    exists_eq_left', htold, and_false, exists_false, or_false]
  rfl

/-- A fault in the first lines of a text is one of every text that starts with them. -/
theorem ofText_error_of_lines {other : Text} {first after more : List Text}
    (hlines : TokenLine.ofText name text = .ok lines)
    (hrun : (Reading.run format ⟨.ofName name, Cursor.ofLines name lines⟩).outcome = .error error)
    (htext : Text.lines text = first ++ after) (hline : error.line ≤ first.length)
    (hother : Text.lines other = first ++ more) (htokens : other.Tokenizes) :
    (ofText name other format).outcome = .error error := by
  obtain ⟨others, hothers⟩ := TokenLine.exists_ofLines htokens name 1
  rw [TokenLine.ofText, htext] at hlines
  rw [hother] at hothers
  obtain ⟨start, second, hstart, hsecond, rfl⟩ := TokenLine.exists_of_ofLines_append hlines
  obtain ⟨own, rest, hown, -, rfl⟩ := TokenLine.exists_of_ofLines_append hothers
  obtain rfl : own = start := Except.ok.inj (hown.symm.trans hstart)
  rcases Reading.outcome_run_append hrun with ⟨number, hnumber, heq⟩ | hall
  · obtain ⟨later, hlater, rfl⟩ := List.mem_map.mp hnumber
    obtain ⟨before, _, _, -, hplace, -⟩ := TokenLine.exists_of_mem_ofLines hsecond hlater
    omega
  · have hwhole : TokenLine.ofText name other = .ok (own ++ rest) := by
      rw [TokenLine.ofText, hother, hothers]
    exact (ofText_eq_error_iff hwhole).mpr (.inl (hall _ rest))

/-- An error names the layout and one of its lines that has tokens, and what comes after
this line does not matter to it.  Only of a block that is left open one learns at the end of
the text, and the line is then the one that opens the block. -/
theorem ofText_error_located (htokens : text.Tokenizes)
    (herror : (ofText name text format).outcome = .error error) :
    error.layout = some name ∧
      ∃ before line after tokens, Text.lines text = before ++ line :: after ∧
        error.line = (before.length + 1 : Nat) ∧ Token.ofLine line = .ok tokens ∧ tokens ≠ [] ∧
        ((∀ code, error.fault ≠ .openBlock code) → ∀ other : Text, other.Tokenizes →
          before ++ [line] <+: Text.lines other →
            (ofText name other format).outcome = .error error) ∧
        ∀ code, error.fault = .openBlock code →
          ∃ lines draft, TokenLine.ofText name text = .ok lines ∧
            Draft.Reads format name (Cursor.ofLines name lines).lastLine (.ofName name) lines
              draft ∧
            (draft.finish format).outcome = .error error ∧
            LeavesOpen lines (before.length + 1) code := by
  obtain ⟨lines, hlines⟩ := TokenLine.exists_ofLines htokens name 1
  rcases (ofText_eq_error_iff hlines).mp herror with hrun | ⟨draft, hreads, hfinish⟩
  · obtain ⟨hlayout, ⟨number, hnumber, hline⟩, hinLine⟩ := Reading.within_of_run hrun
    obtain ⟨own, hown, rfl⟩ := List.mem_map.mp hnumber
    obtain ⟨before, line, after, htext, hplace, hown, hsome⟩ :=
      TokenLine.exists_of_mem_ofLines hlines hown
    refine ⟨hlayout, before, line, after, own.tokens, htext, by omega, hown, hsome, ?_, ?_⟩
    · rintro - other hother ⟨more, hmore⟩
      rw [List.append_cons] at htext
      refine ofText_error_of_lines hlines hrun htext ?_ hmore.symm hother
      rw [List.length_append, List.length_singleton]
      omega
    · intro code hfault
      rw [hfault] at hinLine
      contradiction
  · obtain ⟨pending, hpending, rfl⟩ := Draft.finish_eq_error_iff.mp hfinish
    have hopen : LeavesOpen lines pending.line pending.code := hreads.leavesOpen rfl hpending
    obtain ⟨_, header, rest, _, hwhole, -, -⟩ := id hopen
    have hown : ⟨pending.line, header ++ rest⟩ ∈ lines := by
      rw [hwhole]
      exact List.mem_append_right _ (List.mem_cons_self ..)
    obtain ⟨before, line, after, htext, hplace, hown, hsome⟩ :=
      TokenLine.exists_of_mem_ofLines hlines hown
    obtain hplace : pending.line = before.length + 1 := hplace.trans (Nat.add_comm ..)
    rw [hplace] at hopen
    refine ⟨congrArg some hreads.name, before, line, after, _, htext, congrArg _ hplace, hown,
      hsome, fun hfault => absurd rfl (hfault pending.code), ?_⟩
    rintro code hfault
    cases hfault
    exact ⟨lines, draft, hlines, hreads, hfinish, hopen⟩

/-! A type that is declared twice, and the same in front of a block that is left open. -/

def retypedText : Text := "type ALPHA\ntype FULL"

def retypedOpenText : Text := "type ALPHA\ntype FULL\nkey HOME \x7b"

def retypedLines : List TokenLine :=
  [⟨1, [.word "type", .word "ALPHA"]⟩, ⟨2, [.word "type", .word "FULL"]⟩]

theorem tokenizes_retyped : retypedText.Tokenizes ∧ retypedOpenText.Tokenizes := by
  have htype : ∃ tokens, Token.ofLine "type ALPHA" = .ok tokens :=
    ⟨[.word "type", .word "ALPHA"], by with_unfolding_all rfl⟩
  have hretype : ∃ tokens, Token.ofLine "type FULL" = .ok tokens :=
    ⟨[.word "type", .word "FULL"], by with_unfolding_all rfl⟩
  have hkey : ∃ tokens, Token.ofLine "key HOME \x7b" = .ok tokens :=
    ⟨[.word "key", .word "HOME", .punctuation .openBrace], by with_unfolding_all rfl⟩
  have hlines : Text.lines retypedText = ["type ALPHA", "type FULL"] := by rfl
  have hopenLines : Text.lines retypedOpenText =
      ["type ALPHA", "type FULL", "key HOME \x7b"] := by rfl
  constructor
  · rw [Text.Tokenizes, hlines]
    simp [htype, hretype]
  · rw [Text.Tokenizes, hopenLines]
    simp [htype, hretype, hkey]

theorem ofText_retyped : (ofText "pad" retypedText .base).outcome =
    .error ⟨some "pad", 2, .repeatedType⟩ := by
  have hlines : TokenLine.ofText "pad" retypedText = .ok retypedLines := by
    with_unfolding_all rfl
  refine (ofText_eq_error_iff hlines).mpr (.inl ?_)
  rw [Reading.outcome_run (List.cons_ne_nil _ _)]
  change (Reading.run .base ⟨(Draft.ofName "pad").add (.type .alpha),
    ⟨"pad", 2, retypedLines.tail⟩⟩).outcome = _
  rw [Reading.outcome_run (List.cons_ne_nil _ _)]
  rfl

theorem ofText_error_located_retyped :
    retypedText.Tokenizes ∧
      (ofText "pad" retypedText .base).outcome = .error ⟨some "pad", 2, .repeatedType⟩ ∧
        (ofText "pad" retypedOpenText .base).outcome = .error ⟨some "pad", 2, .repeatedType⟩ := by
  obtain ⟨htokens, hopenTokens⟩ := tokenizes_retyped
  obtain ⟨-, before, line, after, tokens, htext, hline, -, -, hlocal, -⟩ :=
    ofText_error_located htokens ofText_retyped
  refine ⟨htokens, ofText_retyped, hlocal (by simp) _ hopenTokens ?_⟩
  have hlines : Text.lines retypedOpenText =
      Text.lines retypedText ++ [Text.ofString "key HOME \x7b"] := by rfl
  have hlength : (Text.lines retypedText).length = 2 := by rfl
  rw [htext, List.length_append, List.length_cons] at hlength
  obtain rfl : after = [] := List.eq_nil_of_length_eq_zero (by dsimp only at hline; omega)
  rw [hlines, htext]
  exact List.prefix_append ..

end KeyMap

end KeyLayout
