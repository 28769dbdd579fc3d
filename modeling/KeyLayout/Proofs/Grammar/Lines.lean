import KeyLayout.Proofs.Grammar.Syntax
import KeyLayout.Proofs.Text.Line

namespace KeyLayout

/-! The lines of two texts with a line feed between them, and their tokens. -/

namespace Text

variable {first second : Text}

/-- The line feed ends the last line of the first text, or is a line of its own after a
boundary. -/
theorem exists_lines_append (first second : Text) :
    ∃ gap, (∀ line ∈ gap, line = []) ∧
      lines (first ++ .scalar '\n' :: second) = lines first ++ gap ++ lines second := by
  fun_induction lines first with
  | case1 => exact ⟨[[]], by simp, rfl⟩
  | case2 rest ih =>
      obtain ⟨gap, hgap, hlines⟩ := ih
      refine ⟨gap, hgap, ?_⟩
      rw [List.cons_append, List.cons_append, lines, hlines]
      rfl
  | case3 point rest hpair hboundary ih =>
      by_cases hreturn : point = .scalar '\r' ∧ rest = []
      · obtain ⟨rfl, rfl⟩ := hreturn
        exact ⟨[], by simp, rfl⟩
      · obtain ⟨gap, hgap, hlines⟩ := ih
        refine ⟨gap, hgap, ?_⟩
        rw [List.cons_append, lines, if_pos hboundary, hlines]
        · rfl
        · rintro others rfl heq
          cases rest with
          | nil => exact hreturn ⟨rfl, rfl⟩
          | cons other rest =>
              cases heq
              exact hpair rest rfl rfl
  | case4 point rest hpair hboundary hlines ih =>
      obtain rfl := lines_eq_nil_iff.mp hlines
      refine ⟨[], by simp, ?_⟩
      rw [List.cons_append, lines, if_neg hboundary]
      · rfl
      · rintro others rfl
        exact absurd rfl hboundary
  | case5 point rest hpair hboundary line others hlines ih =>
      obtain ⟨gap, hgap, hall⟩ := ih
      refine ⟨gap, hgap, ?_⟩
      rw [List.cons_append, lines, if_neg hboundary, hall, hlines]
      · rfl
      · rintro others rfl
        exact absurd rfl hboundary

/-- No line of the text keeps the others from being read. -/
def Tokenizes (text : Text) : Prop :=
  ∀ line ∈ lines text, ∃ tokens, Token.ofLine line = .ok tokens

end Text

namespace TokenLine

variable {layout name first second : Text} {texts more : List Text} {start : Nat}
  {lines others : List TokenLine}

/-- The line of these tokens, if it has any. -/
def ofTokens (number : Nat) (tokens : List Token) : List TokenLine :=
  if tokens = [] then [] else [⟨number, tokens⟩]

theorem ofLines_cons_eq_ok_iff {text : Text} :
    ofLines layout start (text :: texts) = .ok lines ↔
      ∃ tokens rest, Token.ofLine text = .ok tokens ∧
        ofLines layout (start + 1) texts = .ok rest ∧ lines = ofTokens start tokens ++ rest := by
  rw [ofLines]
  cases Token.ofLine text with
  | error => simp
  | ok tokens =>
      cases tokens with
      | nil => simp [ofTokens, eq_comm]
      | cons =>
          cases ofLines layout (start + 1) texts <;>
            simp [Functor.map, Except.map, ofTokens, eq_comm]

theorem ofLines_append (htexts : ofLines layout start texts = .ok lines)
    (hmore : ofLines layout (start + texts.length) more = .ok others) :
    ofLines layout start (texts ++ more) = .ok (lines ++ others) := by
  induction texts generalizing start lines with
  | nil =>
      cases htexts
      exact hmore
  | cons text texts ih =>
      obtain ⟨tokens, rest, htokens, hrest, rfl⟩ := ofLines_cons_eq_ok_iff.mp htexts
      rw [List.length_cons, ← Nat.add_assoc, Nat.add_right_comm] at hmore
      exact ofLines_cons_eq_ok_iff.mpr
        ⟨tokens, rest ++ others, htokens, ih hrest hmore, List.append_assoc ..⟩

theorem exists_of_ofLines_append (hlines : ofLines layout start (texts ++ more) = .ok lines) :
    ∃ first second, ofLines layout start texts = .ok first ∧
      ofLines layout (start + texts.length) more = .ok second ∧ lines = first ++ second := by
  induction texts generalizing start lines with
  | nil => exact ⟨[], lines, rfl, hlines, rfl⟩
  | cons text texts ih =>
      obtain ⟨tokens, rest, htokens, hrest, rfl⟩ := ofLines_cons_eq_ok_iff.mp hlines
      obtain ⟨first, second, hfirst, hsecond, rfl⟩ := ih hrest
      refine ⟨ofTokens start tokens ++ first, second,
        ofLines_cons_eq_ok_iff.mpr ⟨tokens, first, htokens, hfirst, rfl⟩, ?_,
        (List.append_assoc ..).symm⟩
      rwa [List.length_cons, ← Nat.add_assoc, Nat.add_right_comm]

/-- Each line has its place in the text as its number, and is not empty. -/
theorem exists_of_mem_ofLines {own : TokenLine} (hlines : ofLines layout start texts = .ok lines)
    (hown : own ∈ lines) :
    ∃ before text after, texts = before ++ text :: after ∧ own.number = start + before.length ∧
      Token.ofLine text = .ok own.tokens ∧ own.tokens ≠ [] := by
  induction texts generalizing start lines with
  | nil =>
      cases hlines
      contradiction
  | cons text texts ih =>
      obtain ⟨tokens, rest, htokens, hrest, rfl⟩ := ofLines_cons_eq_ok_iff.mp hlines
      rcases List.mem_append.mp hown with hfirst | hmem
      · rw [ofTokens] at hfirst
        split at hfirst
        next => contradiction
        next hsome =>
          cases List.mem_singleton.mp hfirst
          exact ⟨[], text, texts, rfl, rfl, htokens, hsome⟩
      · obtain ⟨before, other, after, rfl, hnumber, hother⟩ := ih hrest hmem
        refine ⟨text :: before, other, after, rfl, ?_, hother⟩
        rw [hnumber, List.length_cons]
        omega

theorem exists_ofLines (htexts : ∀ text ∈ texts, ∃ tokens, Token.ofLine text = .ok tokens)
    (layout : Text) (start : Nat) : ∃ lines, ofLines layout start texts = .ok lines := by
  induction texts generalizing start with
  | nil => exact ⟨[], rfl⟩
  | cons text texts ih =>
      obtain ⟨⟨tokens, htokens⟩, hrest⟩ := List.forall_mem_cons.mp htexts
      obtain ⟨rest, hlines⟩ := ih hrest (start + 1)
      exact ⟨_, ofLines_cons_eq_ok_iff.mpr ⟨tokens, rest, htokens, hlines, rfl⟩⟩

/-- The tokens of the lines do not depend on where the numbers start. -/
theorem exists_ofLines_from (htexts : ofLines layout start texts = .ok lines) (other : Nat) :
    ∃ moved, ofLines layout other texts = .ok moved ∧
      moved.map TokenLine.tokens = lines.map TokenLine.tokens := by
  induction texts generalizing start other lines with
  | nil =>
      cases htexts
      exact ⟨[], rfl, rfl⟩
  | cons text texts ih =>
      obtain ⟨tokens, rest, htokens, hrest, rfl⟩ := ofLines_cons_eq_ok_iff.mp htexts
      obtain ⟨moved, hmoved, heq⟩ := ih hrest (other + 1)
      refine ⟨ofTokens other tokens ++ moved,
        ofLines_cons_eq_ok_iff.mpr ⟨tokens, moved, htokens, hmoved, rfl⟩, ?_⟩
      rw [List.map_append, List.map_append, heq, ofTokens, ofTokens]
      split <;> rfl

theorem ofLines_blank {gap : List Text} (hgap : ∀ line ∈ gap, line = []) (start : Nat) :
    ofLines layout start gap = .ok [] := by
  induction gap generalizing start with
  | nil => rfl
  | cons line rest ih =>
      obtain ⟨rfl, hrest⟩ := List.forall_mem_cons.mp hgap
      have hblank : Token.ofLine [] = .ok [] := by
        simp [Token.ofLine, Text.trimRight, Token.scan]
      exact ofLines_cons_eq_ok_iff.mpr ⟨[], [], hblank, ih hrest (start + 1), rfl⟩

/-- The second text keeps its tokens behind the first one. -/
theorem exists_ofText_append (hfirst : ofText name first = .ok lines)
    (hsecond : ofText name second = .ok others) :
    ∃ moved, ofText name (first ++ .scalar '\n' :: second) = .ok (lines ++ moved) ∧
      moved.map TokenLine.tokens = others.map TokenLine.tokens := by
  obtain ⟨gap, hgap, hlines⟩ := Text.exists_lines_append first second
  rw [ofText, hlines, List.append_assoc]
  have hblank : ofLines name (1 + (Text.lines first).length) gap = .ok [] :=
    ofLines_blank hgap _
  obtain ⟨moved, hmoved, htokens⟩ := exists_ofLines_from hsecond
    (1 + (Text.lines first).length + gap.length)
  exact ⟨moved, ofLines_append hfirst (ofLines_append hblank hmoved), htokens⟩

end TokenLine

theorem Symbol.ofLines_congr {first second : List TokenLine}
    (htokens : first.map TokenLine.tokens = second.map TokenLine.tokens) :
    ofLines first = ofLines second := by
  have hflat (lines : List TokenLine) : ofLines lines =
      (lines.map TokenLine.tokens).flatMap fun tokens => ofTokens tokens ++ [.lineEnd] := by
    rw [List.flatMap_map, ofLines]
  rw [hflat, hflat, htokens]

end KeyLayout
