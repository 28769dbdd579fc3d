import KeyLayout.Proofs.Grammar.Directives
import KeyLayout.Proofs.Grammar.Running

namespace KeyLayout

/-! A layout is read to its end exactly when its lines derive items that may follow one
another, and what is read is what these add up to.  Inside a block the lines up to its
closing brace derive statements, and the lines after it derive items. -/

namespace Draft

variable {format : Format} {layout : Text} {lastLine line : Nat}
  {draft last next : Draft} {pending : PendingKey} {token : Token}
  {tokens first left rest : List Token} {lines more : List TokenLine}

/-- Reading these lines from this draft on succeeds with the last draft. -/
def Reads (format : Format) (layout : Text) (lastLine : Nat) (draft : Draft)
    (lines : List TokenLine) (last : Draft) : Prop :=
  (Reading.run format ⟨draft, ⟨layout, lastLine, lines⟩⟩).outcome = .ok last

theorem reads_nil_iff : Reads format layout lastLine draft [] last ↔ last = draft := by
  rw [Reads, Reading.run, dif_pos rfl]
  simp [eq_comm]

theorem run_eq_ok_iff {reading : Reading} (hlines : reading.cursor.lines ≠ []) :
    (Reading.run format reading).outcome = .ok last ↔
      ∃ next, (reading.advance format).outcome = .ok next ∧
        (Reading.run format next).outcome = .ok last := by
  rw [Reading.outcome_run hlines, bind_eq_ok_iff]

theorem reads_lineEnd_iff :
    Reads format layout lastLine draft (⟨line, []⟩ :: more) last ↔
      Reads format layout lastLine draft more last := by
  rw [Reads, run_eq_ok_iff (List.cons_ne_nil _ _)]
  constructor
  · rintro ⟨next, hnext, hrun⟩
    cases hnext
    exact hrun
  · exact fun hrun => ⟨_, rfl, hrun⟩

theorem advance_token_eq_ok_iff {reached : Reading} :
    (Reading.advance format ⟨draft, ⟨layout, lastLine, ⟨line, token :: rest⟩ :: more⟩⟩).outcome =
        .ok reached ↔
      ∃ next left, draft.Steps format line token rest next left ∧
        (next.pending.isSome = true ∧
            reached = ⟨next, ⟨layout, lastLine, ⟨line, left⟩ :: more⟩⟩ ∨
          next.pending = none ∧ left = [] ∧ reached = ⟨next, ⟨layout, lastLine, more⟩⟩) := by
  simp only [Steps, Reading.advance, Cursor.unread, Cursor.lineNumber]
  cases hstep : draft.step format line token rest with
  | error fault => simp [Report.fail]
  | ok step =>
      obtain ⟨next, left, notes⟩ := step
      dsimp only
      cases hpending : next.pending with
      | some pending =>
          constructor
          · intro hreached
            cases hreached
            exact ⟨next, left, ⟨notes, rfl⟩, .inl ⟨by rw [hpending]; rfl, rfl⟩⟩
          · rintro ⟨own, others, ⟨_, heq⟩, hreached⟩
            cases heq
            rcases hreached with ⟨-, rfl⟩ | ⟨hnone, -⟩
            · rfl
            · rw [hpending] at hnone
              contradiction
      | none =>
          constructor
          · intro hreached
            cases left with
            | nil =>
                cases hreached
                exact ⟨next, [], ⟨notes, rfl⟩, .inr ⟨hpending, rfl, rfl⟩⟩
            | cons => contradiction
          · rintro ⟨own, others, ⟨_, heq⟩, hreached⟩
            cases heq
            rcases hreached with ⟨hsome, -⟩ | ⟨-, rfl, rfl⟩
            · rw [hpending] at hsome
              contradiction
            · rfl

/-- After a step the rest of the line is read on, or has to be empty outside of blocks. -/
theorem reads_token_iff :
    Reads format layout lastLine draft (⟨line, token :: rest⟩ :: more) last ↔
      ∃ next left, draft.Steps format line token rest next left ∧
        (next.pending.isSome = true ∧
            Reads format layout lastLine next (⟨line, left⟩ :: more) last ∨
          next.pending = none ∧ left = [] ∧ Reads format layout lastLine next more last) := by
  rw [Reads, run_eq_ok_iff (List.cons_ne_nil _ _)]
  simp only [advance_token_eq_ok_iff]
  constructor
  · rintro ⟨reached, ⟨next, left, hsteps, hreached⟩, hrun⟩
    refine ⟨next, left, hsteps, ?_⟩
    rcases hreached with ⟨hsome, rfl⟩ | ⟨hnone, hleft, rfl⟩
    · exact .inl ⟨hsome, hrun⟩
    · exact .inr ⟨hnone, hleft, hrun⟩
  · rintro ⟨next, left, hsteps, ⟨hsome, hrun⟩ | ⟨hnone, hleft, hrun⟩⟩
    · exact ⟨_, ⟨next, left, hsteps, .inl ⟨hsome, rfl⟩⟩, hrun⟩
    · exact ⟨_, ⟨next, left, hsteps, .inr ⟨hnone, hleft, rfl⟩⟩, hrun⟩

section Block

variable (hpending : draft.pending = some pending)

include hpending

theorem reads_semicolon_iff :
    Reads format layout lastLine draft (⟨line, .punctuation .semicolon :: rest⟩ :: more) last ↔
      Reads format layout lastLine draft (⟨line, rest⟩ :: more) last := by
  rw [reads_token_iff]
  simp only [steps_semicolon_iff hpending]
  constructor
  · rintro ⟨next, left, ⟨rfl, rfl⟩, ⟨-, hreads⟩ | ⟨hnone, -⟩⟩
    · exact hreads
    · rw [hpending] at hnone
      contradiction
  · exact fun hreads => ⟨draft, rest, ⟨rfl, rfl⟩, .inl ⟨by rw [hpending]; rfl, hreads⟩⟩

theorem reads_close_iff :
    Reads format layout lastLine draft (⟨line, .punctuation .closeBrace :: rest⟩ :: more)
        last ↔
      pending.isEmpty = false ∧ rest = [] ∧
        Reads format layout lastLine (draft.closed pending) more last := by
  rw [reads_token_iff]
  simp only [steps_close_iff hpending]
  constructor
  · rintro ⟨next, left, ⟨hempty, rfl, rfl⟩, ⟨hsome, -⟩ | ⟨-, hrest, hreads⟩⟩
    · contradiction
    · exact ⟨hempty, hrest, hreads⟩
  · rintro ⟨hempty, hrest, hreads⟩
    exact ⟨_, rest, ⟨hempty, rfl, rfl⟩, .inr ⟨rfl, hrest, hreads⟩⟩

theorem reads_statement_iff (htoken : Statement.isSeparator token = false) :
    Reads format layout lastLine draft (⟨line, token :: rest⟩ :: more) last ↔
      ∃ first left statement, token :: rest = first ++ left ∧
        Statement.Derives first statement ∧
          (∀ ending ∈ left.head?, Statement.isSeparator ending = true) ∧
            pending.Accepts (Statement.settings [statement]) ∧
              Reads format layout lastLine
                { draft with
                  pending := some (pending.withSettings (Statement.settings [statement])) }
                (⟨line, left⟩ :: more) last := by
  rw [reads_token_iff]
  simp only [steps_statement_iff hpending htoken]
  constructor
  · rintro ⟨next, left, ⟨first, statement, hwhole, hderives, hending, haccepts, rfl⟩,
      ⟨-, hreads⟩ | ⟨hnone, -⟩⟩
    · exact ⟨first, left, statement, hwhole, hderives, hending, haccepts, hreads⟩
    · contradiction
  · rintro ⟨first, left, statement, hwhole, hderives, hending, haccepts, hreads⟩
    exact ⟨_, left, ⟨first, statement, hwhole, hderives, hending, haccepts, rfl⟩,
      .inl ⟨rfl, hreads⟩⟩

end Block

/-- Items may follow what the draft holds, one after the other. -/
def AdmitsAll (format : Format) : Draft → List Item → Prop
  | _, [] => True
  | draft, item :: rest => draft.Admits format item ∧ (draft.add item).AdmitsAll format rest

/-- The symbols derive items that turn the draft into the last one. -/
def Collects (format : Format) (draft : Draft) (symbols : List Symbol) (last : Draft) : Prop :=
  ∃ items, Item.DerivesAll symbols items ∧ draft.AdmitsAll format items ∧
    last = items.foldl add draft

/-- The symbols derive the rest of a block, and after its end items. -/
def Completes (format : Format) (draft : Draft) (pending : PendingKey) (symbols : List Symbol)
    (last : Draft) : Prop :=
  ∃ body statements rest,
    symbols = body ++ .token (.punctuation .closeBrace) :: .lineEnd :: rest ∧
      Statement.DerivesAll body statements ∧
        pending.Accepts (Statement.settings statements) ∧
          (pending.withSettings (Statement.settings statements)).isEmpty = false ∧
            Collects format
              (draft.closed (pending.withSettings (Statement.settings statements))) rest last

theorem settings_cons (statement : Statement) (statements : List Statement) :
    Statement.settings (statement :: statements) =
      Statement.settings [statement] ++ Statement.settings statements := by
  simp [Statement.settings]

theorem withSettings_cons (pending : PendingKey) (statement : Statement)
    (statements : List Statement) :
    pending.withSettings (Statement.settings (statement :: statements)) =
      (pending.withSettings (Statement.settings [statement])).withSettings
        (Statement.settings statements) := by
  rw [settings_cons statement statements, PendingKey.withSettings, PendingKey.withSettings,
    PendingKey.withSettings, List.foldl_append]

section Completes

variable {symbols : List Symbol} {separator : Symbol} {statement : Statement}

theorem Completes.skip (hseparator : separator.Separates)
    (hrest : Completes format draft pending symbols last) :
    Completes format draft pending (separator :: symbols) last := by
  obtain ⟨body, statements, rest, rfl, hbody, haccepts, hempty, hcollects⟩ := hrest
  exact ⟨separator :: body, statements, rest, rfl, .skip hseparator hbody, haccepts, hempty,
    hcollects⟩

theorem Completes.close (hempty : pending.isEmpty = false)
    (hcollects : Collects format (draft.closed pending) symbols last) :
    Completes format draft pending
      (.token (.punctuation .closeBrace) :: .lineEnd :: symbols) last :=
  ⟨[], [], symbols, rfl, .nil, PendingKey.accepts_nil, hempty, hcollects⟩

theorem Completes.single (hstatement : Statement.Derives first statement)
    (haccepts : pending.Accepts (Statement.settings [statement]))
    (hempty : (pending.withSettings (Statement.settings [statement])).isEmpty = false)
    (hcollects : Collects format
      (draft.closed (pending.withSettings (Statement.settings [statement]))) symbols last) :
    Completes format draft pending
      (Symbol.ofTokens first ++ .token (.punctuation .closeBrace) :: .lineEnd :: symbols)
      last :=
  ⟨_, [statement], symbols, rfl, .last hstatement, haccepts, hempty, hcollects⟩

theorem Completes.cons (hstatement : Statement.Derives first statement)
    (haccepts : pending.Accepts (Statement.settings [statement]))
    (hseparator : separator.Separates)
    (hrest : Completes format
      { draft with
        pending := some (pending.withSettings (Statement.settings [statement])) }
      (pending.withSettings (Statement.settings [statement])) symbols last) :
    Completes format draft pending (Symbol.ofTokens first ++ separator :: symbols) last := by
  obtain ⟨body, statements, rest, rfl, hbody, hrestAccepts, hempty, hcollects⟩ := hrest
  rw [← withSettings_cons] at hempty hcollects
  refine ⟨Symbol.ofTokens first ++ separator :: body, statement :: statements, rest, by simp,
    .cons hstatement hseparator hbody, ?_, hempty, hcollects⟩
  rw [settings_cons statement statements, PendingKey.accepts_append_iff]
  exact ⟨haccepts, hrestAccepts⟩

end Completes

section Collects

variable {symbols : List Symbol} {items others : List Item}

theorem admitsAll_append_iff :
    draft.AdmitsAll format (items ++ others) ↔
      draft.AdmitsAll format items ∧ (items.foldl add draft).AdmitsAll format others := by
  induction items generalizing draft with
  | nil => simp [AdmitsAll]
  | cons item rest ih =>
      rw [List.cons_append, AdmitsAll, AdmitsAll, ih, List.foldl_cons, and_assoc]

theorem Collects.nil : Collects format draft [] draft :=
  ⟨[], .nil, trivial, rfl⟩

theorem pending_add (draft : Draft) (item : Item) : (draft.add item).pending = draft.pending := by
  cases item with
  | type => rfl
  | entry entry =>
      rw [add, addDeviceCode.eq_def]
      split <;> rfl
  | block => rfl

theorem pending_foldl_add (draft : Draft) (items : List Item) :
    (items.foldl add draft).pending = draft.pending := by
  induction items generalizing draft with
  | nil => rfl
  | cons item rest ih => rw [List.foldl_cons, ih, pending_add]

theorem Collects.append {own : List Symbol} (hitems : Item.Derives own items)
    (hadmits : draft.AdmitsAll format items)
    (hrest : Collects format (items.foldl add draft) symbols last) :
    Collects format draft (own ++ symbols) last := by
  obtain ⟨others, hothers, hall, rfl⟩ := hrest
  exact ⟨items ++ others, .cons hitems hothers, admitsAll_append_iff.mpr ⟨hadmits, hall⟩,
    by rw [List.foldl_append]⟩

/-- Closing a block that was opened adds it as a whole. -/
theorem closed_opened {code : KeyCode} {statements : List Statement}
    (haccepts : (PendingKey.new code line).Accepts (Statement.settings statements))
    (hpending : draft.pending = none) :
    (draft.opened line code).closed
        ((PendingKey.new code line).withSettings (Statement.settings statements)) =
      draft.add (.block code statements) := by
  rw [closed, PendingKey.code_withSettings, PendingKey.finish_withSettings haccepts, add, opened,
    ← hpending]
  rfl

/-- A block that was opened and is completed is an item before the items after it. -/
theorem Completes.block {code : KeyCode} (hpending : draft.pending = none)
    (hnew : draft.map.keys.contains code = false)
    (hcompletes : Completes format (draft.opened line code)
      (PendingKey.new code line) symbols last) :
    ∃ block statements rest, .token (.punctuation .openBrace) :: symbols = block ++ rest ∧
      Item.DerivesBlock block statements ∧ draft.Admits format (.block code statements) ∧
        Collects format (draft.add (.block code statements)) rest last := by
  obtain ⟨body, statements, rest, rfl, hbody, haccepts, hempty, hcollects⟩ := hcompletes
  rw [closed_opened haccepts hpending] at hcollects
  exact ⟨_, statements, rest, by simp, .braces hbody,
    ⟨PendingKey.fitting_iff.mpr ⟨haccepts, hempty⟩, hnew⟩, hcollects⟩

end Collects

/-- No line is without tokens. -/
def Filled (lines : List TokenLine) : Prop :=
  ∀ line ∈ lines, line.tokens ≠ []

theorem Filled.tail (hfilled : Filled lines) : Filled lines.tail :=
  fun line hline => hfilled line (List.mem_of_mem_tail hline)

theorem ofLines_cons (line : Nat) (tokens : List Token) (more : List TokenLine) :
    Symbol.ofLines (⟨line, tokens⟩ :: more) =
      Symbol.ofTokens tokens ++ .lineEnd :: Symbol.ofLines more := by
  simp [Symbol.ofLines]

theorem ofLines_cons_cons (line : Nat) (token : Token) (rest : List Token)
    (more : List TokenLine) :
    Symbol.ofLines (⟨line, token :: rest⟩ :: more) =
      .token token :: Symbol.ofLines (⟨line, rest⟩ :: more) := by
  rw [ofLines_cons, ofLines_cons]
  rfl

theorem ofTokens_append (first second : List Token) :
    Symbol.ofTokens (first ++ second) = Symbol.ofTokens first ++ Symbol.ofTokens second :=
  List.map_append

/-- Where fewer symbols are read than these, they are derived: outside of a block items,
inside it the rest of the block. -/
def SoundBelow (format : Format) (layout : Text) (lastLine : Nat) (last : Draft)
    (size : Nat) : Prop :=
  ∀ (draft : Draft) (lines : List TokenLine), (Symbol.ofLines lines).length < size →
    Reads format layout lastLine draft lines last → Filled lines.tail →
      (draft.pending = none → Filled lines →
        Collects format draft (Symbol.ofLines lines) last) ∧
      ∀ pending, draft.pending = some pending →
        Completes format draft pending (Symbol.ofLines lines) last

section Items

variable {items : List Item} {code : KeyCode}

theorem collects_line
    (hsound : SoundBelow format layout lastLine last
      (Symbol.ofLines (⟨line, first⟩ :: more)).length)
    (hpending : draft.pending = none) (hfilled : Filled more)
    (hitems : Item.Derives (Symbol.ofTokens first ++ [.lineEnd]) items)
    (hadmits : draft.AdmitsAll format items)
    (hreads : Reads format layout lastLine (items.foldl add draft) more last) :
    Collects format draft (Symbol.ofLines (⟨line, first⟩ :: more)) last := by
  rw [ofLines_cons, ← List.singleton_append, ← List.append_assoc] at hsound ⊢
  refine .append hitems hadmits ((hsound _ _ ?_ hreads hfilled.tail).1 ?_ hfilled)
  · simp only [List.length_append, List.length_cons]
    omega
  · rw [pending_foldl_add, hpending]

theorem collects_block (items : List Item)
    (hsound : SoundBelow format layout lastLine last
      (Symbol.ofLines (⟨line, first ++ .punctuation .openBrace :: left⟩ :: more)).length)
    (hpending : draft.pending = none) (hfilled : Filled more)
    (hitems : ∀ block statements, Item.DerivesBlock block statements →
      Item.Derives (Symbol.ofTokens first ++ block) (items ++ [.block code statements]))
    (hadmits : draft.AdmitsAll format items)
    (hnew : (items.foldl add draft).map.keys.contains code = false)
    (hreads : Reads format layout lastLine ((items.foldl add draft).opened line code)
      (⟨line, left⟩ :: more) last) :
    Collects format draft
      (Symbol.ofLines (⟨line, first ++ .punctuation .openBrace :: left⟩ :: more)) last := by
  have hsymbols : Symbol.ofLines (⟨line, first ++ .punctuation .openBrace :: left⟩ :: more) =
      Symbol.ofTokens first ++ .token (.punctuation .openBrace) ::
        Symbol.ofLines (⟨line, left⟩ :: more) := by
    simp [ofLines_cons, Symbol.ofTokens]
  rw [hsymbols] at hsound ⊢
  have hcompletes := (hsound _ _ (by simp only [List.length_append, List.length_cons]; omega)
    hreads hfilled).2 _ rfl
  obtain ⟨block, statements, rest, heq, hblock, hadmitsBlock, hcollects⟩ :=
    hcompletes.block (by rw [pending_foldl_add, hpending]) hnew
  rw [heq, ← List.append_assoc]
  refine .append (hitems block statements hblock)
    (admitsAll_append_iff.mpr ⟨hadmits, hadmitsBlock, trivial⟩) ?_
  rw [List.foldl_append]
  exact hcollects

theorem collects_of_reads
    (hsound : SoundBelow format layout lastLine last (Symbol.ofLines lines).length)
    (hpending : draft.pending = none) (hfilled : Filled lines)
    (hreads : Reads format layout lastLine draft lines last) :
    Collects format draft (Symbol.ofLines lines) last := by
  cases lines with
  | nil =>
      obtain rfl := reads_nil_iff.mp hreads
      exact .nil
  | cons own more =>
      obtain ⟨line, tokens⟩ := own
      obtain ⟨hown, hmore⟩ := List.forall_mem_cons.mp hfilled
      obtain ⟨token, rest, rfl⟩ := List.exists_cons_of_ne_nil hown
      obtain ⟨next, left, hsteps, hnext⟩ := reads_token_iff.mp hreads
      have hdirects := (steps_iff_directs hpending).mp hsteps
      have hadd : ∀ item, (draft.add item).pending = none := fun item => by
        rw [pending_add, hpending]
      -- only an opened block is read on in the same line
      have hended : next.pending = none →
          left = [] ∧ Reads format layout lastLine next more last := by
        intro hnone
        rcases hnext with ⟨hsome, -⟩ | ⟨-, hended⟩
        · rw [hnone] at hsome
          contradiction
        · exact hended
      have hopened : next.pending.isSome = true →
          Reads format layout lastLine next (⟨line, left⟩ :: more) last := by
        intro hsome
        rcases hnext with ⟨-, hreads⟩ | ⟨hnone, -⟩
        · exact hreads
        · rw [hnone] at hsome
          contradiction
      generalize token :: rest = whole at hdirects hsound ⊢
      cases hdirects with
      | type htype hadmits =>
          obtain ⟨rfl, hreads⟩ := hended (hadd _)
          exact collects_line hsound hpending hmore (.type htype) ⟨hadmits, trivial⟩ hreads
      | entry hentry hadmits _ =>
          obtain ⟨rfl, hreads⟩ := hended (hadd _)
          rw [List.append_nil] at hsound ⊢
          exact collects_line hsound hpending hmore (.entry hentry) ⟨hadmits, trivial⟩ hreads
      | block hlabel hnew =>
          exact collects_block [] hsound hpending hmore
            (fun _ _ hblock => .block hlabel hblock) trivial hnew (hopened rfl)
      | entryBlock hentry hadmits hnew =>
          exact collects_block [_] hsound hpending hmore
            (fun _ _ hblock => .entryBlock hentry hblock) ⟨hadmits, trivial⟩ hnew (hopened rfl)

end Items

theorem eq_of_isSeparator (hmark : Statement.isSeparator token = true) :
    token = .punctuation .semicolon ∨ token = .punctuation .closeBrace := by
  rw [Statement.isSeparator.eq_def] at hmark
  split at hmark
  · exact .inl rfl
  · exact .inr rfl
  · contradiction

/-- All that a step can do inside a block. -/
theorem Steps.block_cases (hsteps : draft.Steps format line token rest next left)
    (hpending : draft.pending = some pending) :
    (token = .punctuation .semicolon ∧ next = draft ∧ left = rest) ∨
      (token = .punctuation .closeBrace ∧ pending.isEmpty = false ∧
        next = draft.closed pending ∧ left = rest) ∨
      ∃ first statement, Statement.isSeparator token = false ∧ token :: rest = first ++ left ∧
        Statement.Derives first statement ∧
          (∀ ending ∈ left.head?, Statement.isSeparator ending = true) ∧
            pending.Accepts (Statement.settings [statement]) ∧
              next = { draft with
                pending := some (pending.withSettings (Statement.settings [statement])) } := by
  cases hmark : Statement.isSeparator token with
  | true =>
      rcases eq_of_isSeparator hmark with rfl | rfl
      · exact .inl ⟨rfl, (steps_semicolon_iff hpending).mp hsteps⟩
      · exact .inr (.inl ⟨rfl, (steps_close_iff hpending).mp hsteps⟩)
  | false =>
      obtain ⟨first, statement, hstatement⟩ := (steps_statement_iff hpending hmark).mp hsteps
      exact .inr (.inr ⟨first, statement, rfl, hstatement⟩)

/-- What ends a statement decides how the block goes on. -/
theorem completes_statement {statement : Statement}
    (hsound : SoundBelow format layout lastLine last
      (Symbol.ofLines (⟨line, first ++ left⟩ :: more)).length)
    (hstatement : Statement.Derives first statement)
    (hending : ∀ ending ∈ left.head?, Statement.isSeparator ending = true)
    (haccepts : pending.Accepts (Statement.settings [statement])) (hfilled : Filled more)
    (hreads : Reads format layout lastLine
      { draft with
        pending := some (pending.withSettings (Statement.settings [statement])) }
      (⟨line, left⟩ :: more) last) :
    Completes format draft pending (Symbol.ofLines (⟨line, first ++ left⟩ :: more)) last := by
  have hsymbols : Symbol.ofLines (⟨line, first ++ left⟩ :: more) =
      Symbol.ofTokens first ++ Symbol.ofLines (⟨line, left⟩ :: more) := by
    rw [ofLines_cons, ofLines_cons, ofTokens_append, List.append_assoc]
  rw [hsymbols] at hsound ⊢
  cases left with
  | nil =>
      rw [reads_lineEnd_iff] at hreads
      rw [ofLines_cons] at hsound ⊢
      refine .cons hstatement haccepts .lineEnd ((hsound _ _ ?_ hreads hfilled.tail).2 _ rfl)
      simp only [List.length_append, List.length_cons]
      omega
  | cons ending others =>
      rw [ofLines_cons_cons] at hsound ⊢
      rcases eq_of_isSeparator (hending ending rfl) with rfl | rfl
      · rw [reads_semicolon_iff rfl] at hreads
        refine .cons hstatement haccepts .semicolon ((hsound _ _ ?_ hreads hfilled).2 _ rfl)
        simp only [List.length_append, List.length_cons]
        omega
      · obtain ⟨hempty, rfl, hclosed⟩ := (reads_close_iff rfl).mp hreads
        rw [ofLines_cons] at hsound ⊢
        refine .single hstatement haccepts hempty ((hsound _ _ ?_ hclosed hfilled.tail).1 rfl hfilled)
        simp only [List.length_append, List.length_cons]
        omega

theorem completes_of_reads
    (hsound : SoundBelow format layout lastLine last (Symbol.ofLines lines).length)
    (hlast : last.pending = none) (hpending : draft.pending = some pending)
    (hfilled : Filled lines.tail) (hreads : Reads format layout lastLine draft lines last) :
    Completes format draft pending (Symbol.ofLines lines) last := by
  cases lines with
  | nil =>
      obtain rfl := reads_nil_iff.mp hreads
      rw [hpending] at hlast
      contradiction
  | cons own more =>
      obtain ⟨line, tokens⟩ := own
      cases tokens with
      | nil =>
          rw [reads_lineEnd_iff] at hreads
          rw [ofLines_cons] at hsound ⊢
          refine .skip .lineEnd ((hsound _ _ ?_ hreads hfilled.tail).2 _ hpending)
          simp [Symbol.ofTokens]
      | cons token rest =>
          cases hmark : Statement.isSeparator token with
          | true =>
              rcases eq_of_isSeparator hmark with rfl | rfl
              · rw [reads_semicolon_iff hpending] at hreads
                rw [ofLines_cons_cons] at hsound ⊢
                exact .skip .semicolon ((hsound _ _ (by simp) hreads hfilled).2 _ hpending)
              · obtain ⟨hempty, rfl, hclosed⟩ := (reads_close_iff hpending).mp hreads
                rw [ofLines_cons_cons] at hsound ⊢
                refine .close hempty ((hsound _ _ ?_ hclosed hfilled.tail).1 rfl hfilled)
                rw [ofLines_cons, List.length_cons, List.length_append, List.length_cons]
                omega
          | false =>
              obtain ⟨first, left, statement, hwhole, hstatement, hending, haccepts, hreads⟩ :=
                (reads_statement_iff hpending hmark).mp hreads
              rw [hwhole] at hsound ⊢
              exact completes_statement hsound hstatement hending haccepts hfilled hreads

theorem sound (hlast : last.pending = none) (size : Nat) :
    SoundBelow format layout lastLine last size := by
  induction size with
  | zero => exact fun _ _ hshorter => absurd hshorter (Nat.not_lt_zero _)
  | succ size ih =>
      intro draft lines hshorter hreads hfilled
      have hsound : SoundBelow format layout lastLine last (Symbol.ofLines lines).length :=
        fun draft others hothers => ih draft others (by omega)
      exact ⟨fun hpending hall => collects_of_reads hsound hpending hall hreads,
        fun pending hpending => completes_of_reads hsound hlast hpending hfilled hreads⟩

section Complete

variable {symbols : List Symbol} {statement : Statement}

theorem exists_of_ofLines_eq_token (hlines : Symbol.ofLines lines = .token token :: symbols) :
    ∃ line rest more, lines = ⟨line, token :: rest⟩ :: more ∧
      Symbol.ofLines (⟨line, rest⟩ :: more) = symbols := by
  cases lines with
  | nil => contradiction
  | cons own more =>
      obtain ⟨line, tokens⟩ := own
      cases tokens with
      | nil =>
          rw [ofLines_cons] at hlines
          cases (List.cons.inj hlines).1
      | cons first rest =>
          rw [ofLines_cons_cons, List.cons.injEq, Symbol.token.injEq] at hlines
          obtain ⟨rfl, hrest⟩ := hlines
          exact ⟨line, rest, more, rfl, hrest⟩

theorem exists_of_ofLines_eq_lineEnd (hlines : Symbol.ofLines lines = .lineEnd :: symbols) :
    ∃ line more, lines = ⟨line, []⟩ :: more ∧ Symbol.ofLines more = symbols := by
  cases lines with
  | nil => contradiction
  | cons own more =>
      obtain ⟨line, tokens⟩ := own
      cases tokens with
      | nil =>
          rw [ofLines_cons] at hlines
          exact ⟨line, more, rfl, (List.cons.inj hlines).2⟩
      | cons first rest =>
          rw [ofLines_cons_cons] at hlines
          cases (List.cons.inj hlines).1

theorem exists_of_ofLines_eq_append (htokens : tokens ≠ [])
    (hlines : Symbol.ofLines lines = Symbol.ofTokens tokens ++ symbols) :
    ∃ line left more, lines = ⟨line, tokens ++ left⟩ :: more ∧
      Symbol.ofLines (⟨line, left⟩ :: more) = symbols := by
  induction tokens generalizing lines with
  | nil => exact absurd rfl htokens
  | cons token rest ih =>
      obtain ⟨line, others, more, rfl, hothers⟩ := exists_of_ofLines_eq_token hlines
      by_cases hrest : rest = []
      · subst hrest
        exact ⟨line, others, more, rfl, hothers⟩
      · obtain ⟨own, left, behind, heq, hleft⟩ := ih hrest hothers
        cases heq
        exact ⟨line, left, more, rfl, hleft⟩

theorem eq_nil_of_ofLines_eq_lineEnd
    (hlines : Symbol.ofLines (⟨line, left⟩ :: more) = .lineEnd :: symbols) :
    left = [] ∧ Symbol.ofLines more = symbols := by
  obtain ⟨own, others, heq, hothers⟩ := exists_of_ofLines_eq_lineEnd hlines
  cases heq
  exact ⟨rfl, hothers⟩

/-- What the rest of the text has to do after a block. -/
def ReadsAfter (format : Format) (layout : Text) (lastLine : Nat) (draft : Draft)
    (symbols : List Symbol) (last : Draft) : Prop :=
  ∀ lines, Symbol.ofLines lines = symbols → Reads format layout lastLine draft lines last

theorem reads_close (hpending : draft.pending = some pending) (hempty : pending.isEmpty = false)
    (hlines : Symbol.ofLines lines =
      .token (.punctuation .closeBrace) :: .lineEnd :: symbols)
    (hafter : ReadsAfter format layout lastLine (draft.closed pending) symbols last) :
    Reads format layout lastLine draft lines last := by
  obtain ⟨line, rest, more, rfl, hrest⟩ := exists_of_ofLines_eq_token hlines
  obtain ⟨rfl, hmore⟩ := eq_nil_of_ofLines_eq_lineEnd hrest
  exact (reads_close_iff hpending).mpr ⟨hempty, rfl, hafter more hmore⟩

theorem reads_separator {separator : Symbol} (hpending : draft.pending = some pending)
    (hseparator : separator.Separates)
    (hlines : Symbol.ofLines lines = separator :: symbols)
    (hafter : ReadsAfter format layout lastLine draft symbols last) :
    Reads format layout lastLine draft lines last := by
  cases hseparator with
  | semicolon =>
      obtain ⟨line, rest, more, rfl, hrest⟩ := exists_of_ofLines_eq_token hlines
      exact (reads_semicolon_iff hpending).mpr (hafter _ hrest)
  | lineEnd =>
      obtain ⟨line, more, rfl, hmore⟩ := exists_of_ofLines_eq_lineEnd hlines
      exact reads_lineEnd_iff.mpr (hafter _ hmore)

/-- A statement is read up to the symbol that ends it. -/
theorem reads_statement {ending : Symbol} (hpending : draft.pending = some pending)
    (hstatement : Statement.Derives tokens statement)
    (hending : ending.Separates ∨ ending = .token (.punctuation .closeBrace))
    (haccepts : pending.Accepts (Statement.settings [statement]))
    (hlines : Symbol.ofLines lines = Symbol.ofTokens tokens ++ ending :: symbols)
    (hafter : ReadsAfter format layout lastLine
      { draft with
        pending := some (pending.withSettings (Statement.settings [statement])) }
      (ending :: symbols) last) :
    Reads format layout lastLine draft lines last := by
  obtain ⟨line, left, more, rfl, hleft⟩ :=
    exists_of_ofLines_eq_append hstatement.ne_nil hlines
  obtain ⟨token, rest, rfl⟩ := List.exists_cons_of_ne_nil hstatement.ne_nil
  have hmark := hstatement.isSeparator_eq_false token (List.mem_cons_self ..)
  refine (reads_statement_iff hpending hmark).mpr
    ⟨token :: rest, left, statement, rfl, hstatement, fun own hown => ?_, haccepts,
      hafter _ hleft⟩
  obtain ⟨others, rfl⟩ := List.head?_eq_some_iff.mp hown
  rw [ofLines_cons_cons, List.cons.injEq] at hleft
  obtain ⟨rfl, -⟩ := hleft
  rcases hending with hseparator | hclose
  · cases hseparator
    rfl
  · cases hclose
    rfl

theorem reads_of_derivesAll {body : List Symbol} {statements : List Statement}
    (hbody : Statement.DerivesAll body statements) (hpending : draft.pending = some pending)
    (haccepts : pending.Accepts (Statement.settings statements))
    (hempty : (pending.withSettings (Statement.settings statements)).isEmpty = false)
    (hafter : ReadsAfter format layout lastLine
      (draft.closed (pending.withSettings (Statement.settings statements))) symbols last) :
    ReadsAfter format layout lastLine draft
      (body ++ .token (.punctuation .closeBrace) :: .lineEnd :: symbols) last := by
  induction hbody generalizing draft pending with
  | nil => exact fun lines hlines => reads_close hpending hempty hlines hafter
  | skip hseparator _ ih =>
      exact fun lines hlines =>
        reads_separator hpending hseparator hlines (ih hpending haccepts hempty hafter)
  | last hstatement =>
      exact fun lines hlines => reads_statement hpending hstatement (.inr rfl) haccepts hlines
        fun others hothers => reads_close rfl hempty hothers hafter
  | @cons tokens statement separator rest statements hstatement hseparator _ ih =>
      intro lines hlines
      rw [settings_cons statement statements, PendingKey.accepts_append_iff] at haccepts
      rw [withSettings_cons] at hempty hafter
      rw [List.append_assoc, List.cons_append] at hlines
      refine reads_statement hpending hstatement (.inl hseparator) haccepts.1 hlines
        fun others hothers => reads_separator rfl hseparator hothers ?_
      exact ih rfl haccepts.2 hempty hafter

theorem reads_line {next : Draft} (htokens : tokens ≠ [])
    (hdirects : Directs format line draft tokens next []) (hpending : draft.pending = none)
    (hnext : next.pending = none)
    (hreads : Reads format layout lastLine next more last) :
    Reads format layout lastLine draft (⟨line, tokens⟩ :: more) last := by
  obtain ⟨token, rest, rfl⟩ := List.exists_cons_of_ne_nil htokens
  exact reads_token_iff.mpr
    ⟨next, [], (steps_iff_directs hpending).mpr hdirects, .inr ⟨hnext, rfl, hreads⟩⟩

theorem reads_block {code : KeyCode} {block : List Symbol} {statements : List Statement}
    {next : Draft} (htokens : tokens ≠ [])
    (hlines : Symbol.ofLines lines = Symbol.ofTokens tokens ++ (block ++ symbols))
    (hblock : Item.DerivesBlock block statements) (hpending : draft.pending = none)
    (hdirects : ∀ line left, Directs format line draft
      (tokens ++ .punctuation .openBrace :: left) (next.opened line code) left)
    (hnext : next.pending = none) (hadmits : next.Admits format (.block code statements))
    (hafter : ReadsAfter format layout lastLine (next.add (.block code statements)) symbols
      last) : Reads format layout lastLine draft lines last := by
  cases hblock with
  | @braces body _ hbody =>
      have hopen : Symbol.ofLines lines =
          Symbol.ofTokens (tokens ++ [.punctuation .openBrace]) ++
            (body ++ .token (.punctuation .closeBrace) :: .lineEnd :: symbols) := by
        rw [hlines, ofTokens_append]
        simp [Symbol.ofTokens]
      obtain ⟨line, left, more, rfl, hleft⟩ := exists_of_ofLines_eq_append (by simp) hopen
      rw [List.append_assoc]
      obtain ⟨token, rest, rfl⟩ := List.exists_cons_of_ne_nil htokens
      obtain ⟨haccepts, hempty⟩ :
          (PendingKey.new code line).Accepts (Statement.settings statements) ∧
            ((PendingKey.new code line).withSettings
              (Statement.settings statements)).isEmpty = false :=
        PendingKey.fitting_iff.mp hadmits.1
      refine reads_token_iff.mpr ⟨_, left, (steps_iff_directs hpending).mpr (hdirects line left),
        .inl ⟨rfl, reads_of_derivesAll hbody rfl haccepts hempty ?_ _ hleft⟩⟩
      rw [closed_opened haccepts hnext]
      exact hafter

theorem reads_of_collects (hpending : draft.pending = none)
    (hcollects : Collects format draft symbols last) :
    ReadsAfter format layout lastLine draft symbols last := by
  obtain ⟨items, hitems, hadmits, rfl⟩ := hcollects
  induction hitems generalizing draft with
  | nil =>
      intro lines hlines
      cases lines with
      | nil => exact reads_nil_iff.mpr rfl
      | cons own more => simp [Symbol.ofLines] at hlines
  | @cons first rest items others hfirst _ ih =>
      rw [admitsAll_append_iff] at hadmits
      have hrest := ih (by rw [pending_foldl_add, hpending]) hadmits.2
      rw [← List.foldl_append] at hrest
      intro lines hlines
      cases hfirst with
      | type htype =>
          rw [List.append_assoc] at hlines
          obtain ⟨line, left, more, rfl, hleft⟩ := exists_of_ofLines_eq_append (by simp) hlines
          obtain ⟨rfl, hmore⟩ := eq_nil_of_ofLines_eq_lineEnd hleft
          exact reads_line (by simp) (.type htype hadmits.1.1) hpending
            (by rw [pending_add, hpending]) (hrest more hmore)
      | entry hentry =>
          obtain ⟨own, rfl⟩ := exists_of_derives hentry
          rw [List.append_assoc] at hlines
          obtain ⟨line, left, more, rfl, hleft⟩ := exists_of_ofLines_eq_append (by simp) hlines
          obtain ⟨rfl, hmore⟩ := eq_nil_of_ofLines_eq_lineEnd hleft
          exact reads_line (by simp) (.entry hentry hadmits.1.1 (by simp)) hpending
            (by rw [pending_add, hpending]) (hrest more hmore)
      | block hlabel hblock =>
          rw [List.append_assoc] at hlines
          exact reads_block (by simp) hlines hblock hpending
            (fun line left => .block hlabel hadmits.1.1.2) hpending hadmits.1.1 hrest
      | entryBlock hentry hblock =>
          obtain ⟨own, rfl⟩ := exists_of_derives hentry
          rw [List.append_assoc] at hlines
          exact reads_block (by simp) hlines hblock hpending
            (fun line left => .entryBlock hentry hadmits.1.1 hadmits.1.2.1.2)
            (by rw [pending_add, hpending]) hadmits.1.2.1 hrest

end Complete

/-- Reading succeeds exactly on what is derived, with what the derived items add up to. -/
theorem reads_iff_collects (hpending : draft.pending = none) (hfilled : Filled lines) :
    Reads format layout lastLine draft lines last ∧ last.pending = none ↔
      Collects format draft (Symbol.ofLines lines) last := by
  constructor
  · rintro ⟨hreads, hlast⟩
    exact collects_of_reads (sound hlast _) hpending hfilled hreads
  · intro hcollects
    refine ⟨reads_of_collects hpending hcollects lines rfl, ?_⟩
    obtain ⟨items, -, -, rfl⟩ := hcollects
    rw [pending_foldl_add, hpending]

end Draft

end KeyLayout
