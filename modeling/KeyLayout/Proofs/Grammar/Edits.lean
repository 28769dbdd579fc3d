import KeyLayout.Proofs.Grammar.Lexemes
import KeyLayout.Proofs.Grammar.Locating
import KeyLayout.Proofs.Grammar.Relocating

namespace KeyLayout

/-! Comments, blanks and lines without tokens do not matter to what a layout text means; they
only move the lines behind them. -/

namespace Text

variable {line other : Text}

/-- What may be done to a line without changing its tokens: bare text is put behind it, or
blanks are put before or behind a token. -/
inductive LineEdit : Text → Text → Prop
  | append {line more : Text} (hmore : more.Bare) : LineEdit line (line ++ more)
  | before {earlier later : List Lexeme} {gap tail line more : Text} {token : Token}
      (hspell : Lexeme.Spell (earlier ++ ⟨gap, token⟩ :: later) tail line) (hmore : more.Blank) :
      LineEdit line (earlier.flatMap Lexeme.text ++
        (gap ++ (more ++ (token.text ++ (later.flatMap Lexeme.text ++ tail)))))
  | behind {earlier later : List Lexeme} {gap tail line more : Text} {token : Token}
      (hspell : Lexeme.Spell (earlier ++ ⟨gap, token⟩ :: later) tail line) (hmore : more.Blank) :
      LineEdit line (earlier.flatMap Lexeme.text ++
        (gap ++ (token.text ++ (more ++ (later.flatMap Lexeme.text ++ tail)))))

theorem LineEdit.ofLine_eq {tokens : List Token} (hedit : LineEdit line other)
    (hline : Token.ofLine line = .ok tokens) : Token.ofLine other = .ok tokens := by
  cases hedit with
  | append hmore =>
      obtain ⟨lexemes, tail, hspell, rfl⟩ := Lexeme.exists_spell_of_ofLine hline
      exact (hspell.append hmore).ofLine_eq
  | @before earlier later gap tail _ more token hspell hmore =>
      have hgap : gap.Blank := hspell.blank_gap ⟨gap, token⟩ (by simp)
      rw [Token.ofLine_eq_ok_iff] at hline ⊢
      rw [← hline]
      have hwhole : line = earlier.flatMap Lexeme.text ++
          (gap ++ (token.text ++ (later.flatMap Lexeme.text ++ tail))) := by
        simp [hspell.line_eq, Lexeme.text]
      refine hspell.scan_replace hwhole ?_ ?_
      · rw [Token.scan_blank_append hgap, Token.scan_blank_append hgap,
          Token.scan_blank_append hmore]
      · intro previous hends
        exact hends.replace fun hends => hends.blank_append hmore
  | @behind earlier later gap tail _ more token hspell hmore =>
      rw [List.append_cons] at hspell
      rw [Token.ofLine_eq_ok_iff] at hline ⊢
      have hwhole : line = (earlier ++ [Lexeme.mk gap token]).flatMap Lexeme.text ++
          (later.flatMap Lexeme.text ++ tail) := by
        simp [hspell.line_eq]
      have hscan := hspell.scan_replace hwhole (Token.scan_blank_append hmore _)
        fun previous hends => hends.blank_append hmore
      rw [← hline, ← hscan]
      simp [Lexeme.text]

theorem LineEdit.eq_nil (hedit : LineEdit line other) (hother : other = []) : line = [] := by
  cases hedit with
  | append hmore => exact (List.append_eq_nil_iff.mp hother).1
  | @before _ _ gap _ _ _ token hspell hmore =>
      have hsome := (hspell.proper ⟨gap, token⟩ (by simp)).text_ne_nil
      simp [hsome] at hother
  | @behind _ _ gap _ _ _ token hspell hmore =>
      have hsome := (hspell.proper ⟨gap, token⟩ (by simp)).text_ne_nil
      simp [hsome] at hother

/-- The number of a line after another has been put behind the first `count`. -/
def pushed (count number : Nat) : Nat :=
  if number ≤ count then number else number + 1

/-- An edit that only concerns blanks, comments and lines without tokens, and the numbers that
the lines have after it. -/
inductive Edit : Text → Text → (Nat → Nat) → Prop
  | line {before line other ending after : Text} (hline : HasLine before line ending after)
      (hedit : LineEdit line other) (hother : other.Unbroken) :
      Edit (before ++ (line ++ ending ++ after)) (before ++ (other ++ ending ++ after)) id
  | insert {before line ending after : Text} (hplace : Breaks before after)
      (hline : HasLine before line ending after) (hbare : line.Bare) :
      Edit (before ++ after) (before ++ (line ++ ending ++ after)) (pushed (lines before).length)
  /-- The last line gets an ending, so that another may follow it. -/
  | close {before line ending : Text} (hline : HasLine before line [] [])
      (hending : LineEnd ending) : Edit (before ++ line) (before ++ (line ++ ending)) id

inductive Edits : Text → Text → (Nat → Nat) → Prop
  | refl (text : Text) : Edits text text id
  | step {old text new : Text} {move next : Nat → Nat} (hedits : Edits old text move)
      (hedit : Edit text new next) : Edits old new (next ∘ move)

end Text

namespace TokenLine

variable {layout line other : Text} {texts before after : List Text} {start : Nat}
  {lines : List TokenLine} {old new : Text} {move : Nat → Nat}

theorem map_moved_id (lines : List TokenLine) : lines.map (moved id) = lines :=
  List.map_id lines

theorem ofLines_replace
    (hother : ∀ tokens, Token.ofLine line = .ok tokens → Token.ofLine other = .ok tokens)
    (hlines : ofLines layout start (before ++ line :: after) = .ok lines) :
    ofLines layout start (before ++ other :: after) = .ok lines := by
  obtain ⟨first, second, hfirst, hsecond, rfl⟩ := exists_of_ofLines_append hlines
  obtain ⟨tokens, rest, htokens, hrest, rfl⟩ := ofLines_cons_eq_ok_iff.mp hsecond
  exact ofLines_append hfirst
    (ofLines_cons_eq_ok_iff.mpr ⟨tokens, rest, hother tokens htokens, hrest, rfl⟩)

theorem ofLines_succ (hlines : ofLines layout start texts = .ok lines) :
    ofLines layout (start + 1) texts = .ok (lines.map (moved Nat.succ)) := by
  induction texts generalizing start lines with
  | nil =>
      cases hlines
      rfl
  | cons text texts ih =>
      obtain ⟨tokens, rest, htokens, hrest, rfl⟩ := ofLines_cons_eq_ok_iff.mp hlines
      refine ofLines_cons_eq_ok_iff.mpr ⟨tokens, _, htokens, ih hrest, ?_⟩
      rw [List.map_append, ofTokens, ofTokens]
      split <;> rfl

theorem ofLines_insert (hline : Token.ofLine line = .ok [])
    (hlines : ofLines layout 1 (before ++ after) = .ok lines) :
    ofLines layout 1 (before ++ line :: after) =
      .ok (lines.map (moved (Text.pushed before.length))) := by
  obtain ⟨first, second, hfirst, hsecond, rfl⟩ := exists_of_ofLines_append hlines
  -- the numbers of the first lines are at most how many they are, and those of the others above
  have hkept : first.map (moved (Text.pushed before.length)) = first := by
    refine (List.map_congr_left fun own hown => ?_).trans (List.map_id first)
    obtain ⟨earlier, text, later, rfl, hnumber, -⟩ := exists_of_mem_ofLines hfirst hown
    rw [moved, Text.pushed, if_pos]
    · rfl
    · rw [hnumber, List.length_append, List.length_cons]
      omega
  have hpushed : second.map (moved (Text.pushed before.length)) = second.map (moved Nat.succ) := by
    refine List.map_congr_left fun own hown => ?_
    obtain ⟨earlier, text, later, -, hnumber, -⟩ := exists_of_mem_ofLines hsecond hown
    rw [moved, moved, Text.pushed, if_neg]
    omega
  rw [List.map_append, hkept, hpushed]
  exact ofLines_append hfirst (ofLines_cons_eq_ok_iff.mpr
    ⟨[], _, hline, ofLines_succ hsecond, rfl⟩)

theorem ofText_edit (hedit : Text.Edit old new move) (hold : ofText layout old = .ok lines) :
    ofText layout new = .ok (lines.map (moved move)) := by
  cases hedit with
  | line hline hedit hother =>
      rw [ofText, hline.lines_eq] at hold
      rw [ofText, (hline.replace hother hedit.eq_nil).lines_eq, map_moved_id]
      exact ofLines_replace (fun tokens => hedit.ofLine_eq) hold
  | insert hplace hline hbare =>
      rw [ofText, Text.lines_append hplace] at hold
      rw [ofText, hline.lines_eq]
      exact ofLines_insert (Token.ofLine_eq_ok_iff.mpr (Token.scan_of_bare hbare)) hold
  | @close before text ending hline hending =>
      have hlines := hline.lines_eq
      rw [List.append_nil, List.append_nil] at hlines
      rw [ofText, hlines] at hold
      rw [ofText, ← List.append_nil (text ++ ending), (hline.close hending).lines_eq, map_moved_id]
      exact hold

theorem ofText_edits (hedits : Text.Edits old new move) (hold : ofText layout old = .ok lines) :
    ofText layout new = .ok (lines.map (moved move)) := by
  induction hedits with
  | refl => rwa [map_moved_id]
  | step _ hedit ih =>
      have hnew := ofText_edit hedit ih
      rwa [List.map_map] at hnew

end TokenLine

namespace KeyMap

variable {name old new : Text} {format : Format} {move : Nat → Nat} {map : KeyMap}
  {error : ParseError} {lines : List TokenLine}

theorem ofText_moved (hold : TokenLine.ofText name old = .ok lines)
    (hedits : Text.Edits old new move) :
    ofText name new format = (ofText name old format).moved move id := by
  rw [ofText_eq_ofLines, ofText_eq_ofLines, hold, TokenLine.ofText_edits hedits hold]
  exact ofLines_moved

theorem exists_tokens_of_ofText (hmap : (ofText name old format).outcome = .ok map) :
    ∃ lines, TokenLine.ofText name old = .ok lines := by
  rw [ofText_eq_ofLines] at hmap
  cases hlines : TokenLine.ofText name old with
  | error => rw [hlines] at hmap; contradiction
  | ok lines => exact ⟨lines, rfl⟩

theorem exists_line_of_ofText (hold : TokenLine.ofText name old = .ok lines)
    (herror : (ofText name old format).outcome = .error error) :
    ∃ number : Nat, error.line = number := by
  rcases (ofText_eq_error_iff hold).mp herror with hrun | ⟨draft, -, hfinish⟩
  · obtain ⟨-, ⟨number, -, hline⟩, -⟩ := Reading.within_of_run hrun
    exact ⟨number, hline⟩
  · obtain ⟨pending, -, rfl⟩ := Draft.finish_eq_error_iff.mp hfinish
    exact ⟨pending.line, rfl⟩

/-- Blanks, comments and lines without tokens change nothing in the key map that a text
describes.  A fault in it stays the same, in the line that its line has become. -/
theorem ofText_of_edits (hedits : Text.Edits old new move) (name : Text) (format : Format) :
    (∀ map, (ofText name old format).outcome = .ok map →
      (ofText name new format).outcome = .ok map) ∧
    (old.Tokenizes → ∀ error, (ofText name old format).outcome = .error error →
      ∃ number : Nat, error.line = number ∧
        (ofText name new format).outcome = .error ⟨error.layout, move number, error.fault⟩) := by
  constructor
  · intro map hmap
    obtain ⟨lines, hold⟩ := exists_tokens_of_ofText hmap
    rw [ofText_moved hold hedits, Report.moved, hmap]
    rfl
  · intro htokens error herror
    obtain ⟨lines, hold⟩ := TokenLine.exists_ofLines htokens name 1
    obtain ⟨number, hnumber⟩ := exists_line_of_ofText hold herror
    refine ⟨number, hnumber, ?_⟩
    rw [ofText_moved hold hedits, Report.moved, herror, Except.map, Except.mapError,
      ParseError.moved, hnumber, Int.toNat_natCast]

/-! A comment before the first line, a tabulator and a comment in it. -/

def typedText (rest : Text) : Text := Text.ofString "type ALPHA\n" ++ rest

def notedText (rest : Text) : Text := Text.ofString "# 'x\ntype \tALPHA  # \x7d\n" ++ rest

theorem edits_noted (rest : Text) :
    Text.Edits (typedText rest) (notedText rest) (Text.pushed 0) := by
  have hline {before line after : Text} (hwithin : line.Unbroken)
      (hbefore : ∀ after, Text.Breaks before after) : Text.HasLine before line "\n" after :=
    ⟨hwithin, .single (by decide), by simp [Text.ofString], hbefore _,
      .inr (.inr ⟨line, .scalar '\n', rfl, by decide, by simp⟩)⟩
  have hstart (after : Text) : Text.Breaks [] after := .inl rfl
  have hsecond (after : Text) : Text.Breaks "# 'x\n" after :=
    .inr (.inr ⟨"# 'x", .scalar '\n', by decide, by decide, by simp⟩)
  have hspell : Lexeme.Spell ([⟨[], .word "type"⟩] ++ [⟨" ", .word "ALPHA"⟩]) [] "type ALPHA" :=
    .lexeme (by decide) (.word (by decide) (by decide)) (by rintro _ ⟨⟩; decide)
      (.lexeme (by decide) (.word (by decide) (by decide)) nofun (.tail (.blank Text.blank_nil)))
  have htab : Text.Blank "\t" := by decide
  have hinsert : Text.Edit (typedText rest) ("# 'x\n" ++ typedText rest) (Text.pushed 0) :=
    .insert (hstart _) (hline (by decide) hstart) (.comment Text.blank_nil " 'x")
  have hgap : Text.Blank "  " := by decide
  have hspread : Text.Unbroken "type \tALPHA" := by decide
  have hspace : Text.Edit ("# 'x\n" ++ typedText rest)
      ("# 'x\n" ++ (Text.ofString "type \tALPHA" ++ Text.ofString "\n" ++ rest)) id :=
    .line (hline (by decide) hsecond) (.before hspell htab) (by decide)
  have happend : Text.Edit
      ("# 'x\n" ++ (Text.ofString "type \tALPHA" ++ Text.ofString "\n" ++ rest))
      (notedText rest) id :=
    .line (hline hspread hsecond) (.append (.comment hgap " \x7d")) (by decide)
  exact ((Text.Edits.refl _).step hinsert |>.step hspace).step happend

theorem ofText_of_edits_noted :
    (ofText "pad" (notedText "key HOME \x7b label: 'H'; shift: none \x7d") .base).outcome =
        .ok pad ∧
      (ofText "pad" (notedText "type FULL") .base).outcome =
        .error ⟨some "pad", 3, .repeatedType⟩ := by
  have hpad : typedText "key HOME \x7b label: 'H'; shift: none \x7d" = padText := by rfl
  have hretyped : typedText "type FULL" = retypedText := by rfl
  constructor
  · exact (ofText_of_edits (edits_noted _) "pad" .base).1 pad (hpad ▸ ofText_pad)
  · have hmoved := (ofText_of_edits (edits_noted "type FULL") "pad" .base).2
    rw [hretyped] at hmoved
    obtain ⟨number, hnumber, herror⟩ := hmoved tokenizes_retyped.1 _ ofText_retyped
    obtain rfl : 2 = number := Int.ofNat.inj hnumber
    exact herror

end KeyMap

end KeyLayout
