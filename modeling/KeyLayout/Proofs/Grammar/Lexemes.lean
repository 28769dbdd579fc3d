import KeyLayout.Grammar.Cursor
import KeyLayout.Proofs.Outcome
import KeyLayout.Proofs.Text.Joining
import Mathlib.Data.List.TakeWhile

namespace KeyLayout

/-! The tokens of a line are all of it but the blanks between them and what no token
follows: blanks, and perhaps a comment. -/

namespace Text

variable {text inner body after gap more comment : Text} {point : CodePoint}

def Blank (text : Text) : Prop :=
  ∀ point ∈ text, point.isBlank = true

instance (text : Text) : Decidable text.Blank :=
  inferInstanceAs (Decidable (∀ point ∈ text, point.isBlank = true))

/-- What no token belongs to.  A comment goes on to the end. -/
inductive Bare : Text → Prop
  | blank {gap : Text} (hgap : gap.Blank) : Bare gap
  | comment {gap : Text} (hgap : gap.Blank) (comment : Text) :
      Bare (gap ++ .commentMark :: comment)

/-- What may stand between the quotation marks of a literal: a backslash and the code point
that it escapes belong together, and no other apostrophe is there. -/
inductive Quoted : Text → Prop
  | nil : Quoted []
  | escape {escaped : CodePoint} {rest : Text} (hescaped : escaped ≠ .scalar '\n')
      (hrest : Quoted rest) : Quoted (.backslash :: escaped :: rest)
  | plain {point : CodePoint} {rest : Text} (happostrophe : point ≠ .apostrophe)
      (hbackslash : point ≠ .backslash) (hrest : Quoted rest) : Quoted (point :: rest)

theorem Quoted.splitLiteral? (hinner : Quoted inner) (after : Text) :
    Text.splitLiteral? (inner ++ .apostrophe :: after) = some (inner ++ [.apostrophe], after) := by
  induction hinner with
  | nil => rfl
  | @escape escaped rest hescaped hrest ih =>
      rw [CodePoint.backslash, List.cons_append, List.cons_append, Text.splitLiteral?,
        if_neg hescaped, ih]
      rfl
  | @plain point rest happostrophe hbackslash hrest ih =>
      rw [List.cons_append, Text.splitLiteral?, if_neg happostrophe, ih]
      · rfl
      · exact fun hpoint _ => hbackslash hpoint
      · exact fun _ _ hpoint _ => hbackslash hpoint

theorem exists_quoted_of_splitLiteral? (hsplit : Text.splitLiteral? text = some (body, after)) :
    ∃ inner, Quoted inner ∧ body = inner ++ [.apostrophe] ∧
      text = inner ++ .apostrophe :: after := by
  fun_induction Text.splitLiteral? text generalizing body with
  | case1 => contradiction
  | case2 => contradiction
  | case3 => contradiction
  | case4 escaped rest hescaped ih =>
      obtain ⟨⟨more, tail⟩, hmore, heq⟩ := Option.map_eq_some_iff.mp hsplit
      cases heq
      obtain ⟨inner, hinner, rfl, rfl⟩ := ih hmore
      exact ⟨.backslash :: escaped :: inner, .escape hescaped hinner, rfl, rfl⟩
  | case5 =>
      cases hsplit
      exact ⟨[], .nil, rfl, rfl⟩
  | case6 point rest halone hpair happostrophe ih =>
      obtain ⟨⟨more, tail⟩, hmore, heq⟩ := Option.map_eq_some_iff.mp hsplit
      cases heq
      obtain ⟨inner, hinner, rfl, rfl⟩ := ih hmore
      have hbackslash : point ≠ .backslash := by
        intro hpoint
        obtain ⟨next, others, hnext⟩ :=
          List.exists_cons_of_ne_nil (show inner ++ .apostrophe :: after ≠ [] by simp)
        exact hpair next others hpoint hnext
      exact ⟨point :: inner, .plain happostrophe hbackslash hinner, rfl, rfl⟩

@[simp] theorem blank_nil : Blank [] :=
  fun _ hmem => nomatch hmem

@[simp] theorem blank_cons_iff : Blank (point :: text) ↔ point.isBlank = true ∧ text.Blank :=
  List.forall_mem_cons

@[simp] theorem blank_append_iff : Blank (text ++ more) ↔ text.Blank ∧ more.Blank :=
  List.forall_mem_append

theorem Bare.append (htext : text.Bare) (hmore : more.Bare) : (text ++ more).Bare := by
  cases htext with
  | blank hgap =>
      cases hmore with
      | blank hmore => exact .blank (blank_append_iff.mpr ⟨hgap, hmore⟩)
      | @comment between hmore comment =>
          rw [← List.append_assoc]
          exact .comment (blank_append_iff.mpr ⟨hgap, hmore⟩) comment
  | @comment gap hgap comment =>
      rw [List.append_assoc, List.cons_append]
      exact .comment hgap (comment ++ more)

theorem exists_trimRight_append (text : Text) :
    ∃ gap, gap.Blank ∧ text = trimRight text ++ gap := by
  refine ⟨(text.reverse.takeWhile CodePoint.isBlank).reverse, ?_, ?_⟩
  · intro point hpoint
    exact List.mem_takeWhile_imp (List.mem_reverse.mp hpoint)
  · rw [trimRight, ← List.reverse_append, List.takeWhile_append_dropWhile, List.reverse_reverse]

theorem trimRight_of_blank (hgap : gap.Blank) : trimRight gap = [] := by
  rw [trimRight, List.dropWhile_eq_nil_iff.mpr fun point hpoint =>
    hgap point (List.mem_reverse.mp hpoint), List.reverse_nil]

theorem trimRight_append_cons (hpoint : point.isBlank = false) (text more : Text) :
    trimRight (text ++ point :: more) = text ++ point :: trimRight more := by
  rw [trimRight, trimRight, List.reverse_append, List.reverse_cons, List.append_assoc,
    List.dropWhile_append]
  split
  next hblank =>
    rw [List.isEmpty_iff.mp hblank, List.singleton_append, List.dropWhile_cons,
      if_neg (Bool.eq_false_iff.mp hpoint)]
    simp
  next => simp

end Text

namespace Punctuation

theorem ofPoint?_eq_some_iff {point : CodePoint} {mark : Punctuation} :
    ofPoint? point = some mark ↔ point = mark.point := by
  constructor
  · intro hmark
    unfold ofPoint? at hmark
    split at hmark <;> cases hmark <;> rfl
  · rintro rfl
    cases mark <;> rfl

theorem isBlank_point (mark : Punctuation) : mark.point.isBlank = false := by
  cases mark <;> decide

end Punctuation

namespace CodePoint

variable {point : CodePoint}

theorem isWordPart_eq_true_iff : point.isWordPart = true ↔
    point.isBlank = false ∧ Punctuation.ofPoint? point = none ∧ point ≠ .apostrophe ∧
      point ≠ .commentMark := by
  simp [isWordPart, and_assoc]

theorem isWordPart_of_isBlank (hblank : point.isBlank = true) : point.isWordPart = false := by
  simp [isWordPart, hblank]

end CodePoint

theorem Text.Bare.isWordPart_head? {text : Text} (htext : text.Bare) :
    ∀ point ∈ text.head?, point.isWordPart = false := by
  cases htext with
  | blank hgap =>
      intro point hpoint
      exact CodePoint.isWordPart_of_isBlank (hgap point (List.mem_of_head? hpoint))
  | @comment gap hgap comment =>
      cases gap with
      | nil =>
          rintro point ⟨⟩
          decide
      | cons first gap =>
          rintro point ⟨⟩
          exact CodePoint.isWordPart_of_isBlank (Text.blank_cons_iff.mp hgap).1

namespace Token

variable {token : Token} {tokens : List Token} {gap first rest other more : Text}

inductive Proper : Token → Prop
  | word {text : Text} (hsome : text ≠ []) (hparts : ∀ point ∈ text, point.isWordPart = true) :
      Proper (.word text)
  | literal {inner : Text} (hinner : inner.Quoted) :
      Proper (.literal (.apostrophe :: (inner ++ [.apostrophe])))
  | punctuation (mark : Punctuation) : Proper (.punctuation mark)

/-- The token does not go on in the text behind it. -/
def EndsBefore : Token → Text → Prop
  | .word _, rest => ∀ point ∈ rest.head?, point.isWordPart = false
  | .literal _, _ => True
  | .punctuation _, _ => True

theorem scan_blank_append (hgap : gap.Blank) (rest : Text) : scan (gap ++ rest) = scan rest := by
  induction gap with
  | nil => rfl
  | cons point gap ih =>
      obtain ⟨hpoint, hgap⟩ := Text.blank_cons_iff.mp hgap
      rw [List.cons_append, scan, if_pos hpoint, ih hgap]

theorem scan_of_bare (hrest : rest.Bare) : scan rest = .ok [] := by
  cases hrest with
  | blank hgap => rw [← List.append_nil rest, scan_blank_append hgap, scan]
  | comment hgap comment =>
      rw [scan_blank_append hgap, scan, if_neg (by decide), if_pos rfl]

theorem Proper.scan_append (htoken : token.Proper) (hends : token.EndsBefore rest) :
    scan (token.text ++ rest) = (token :: ·) <$> scan rest := by
  cases htoken with
  | @word text hsome hparts =>
      obtain ⟨point, text, rfl⟩ := List.exists_cons_of_ne_nil hsome
      obtain ⟨hpoint, htext⟩ := List.forall_mem_cons.mp hparts
      obtain ⟨hblank, hmark, happostrophe, hcomment⟩ := CodePoint.isWordPart_eq_true_iff.mp hpoint
      have htaken : rest.takeWhile CodePoint.isWordPart = [] := by
        cases rest with
        | nil => rfl
        | cons next rest => rw [List.takeWhile_cons, hends next rfl]; rfl
      have hleft : rest.dropWhile CodePoint.isWordPart = rest := by
        cases rest with
        | nil => rfl
        | cons next rest => rw [List.dropWhile_cons, hends next rfl]; rfl
      rw [Token.text, List.cons_append, scan, if_neg (Bool.eq_false_iff.mp hblank), if_neg hcomment,
        if_neg happostrophe, hmark, List.takeWhile_append_of_pos htext,
        List.dropWhile_append_of_pos htext, htaken, hleft, List.append_nil]
  | @literal inner hinner =>
      have hsplit := hinner.splitLiteral? rest
      rw [Token.text, List.cons_append, List.append_assoc, List.singleton_append, scan,
        if_neg (by decide), if_neg (by decide), if_pos rfl]
      split
      next hnone => cases hnone.symm.trans hsplit
      next body after hsome =>
        cases hsome.symm.trans hsplit
        rfl
  | punctuation mark =>
      have hmark := Punctuation.ofPoint?_eq_some_iff.mpr (Eq.refl mark.point)
      rw [Token.text, List.singleton_append, scan, if_neg (Bool.eq_false_iff.mp mark.isBlank_point),
        if_neg (by cases mark <;> decide), if_neg (by cases mark <;> decide), hmark]

/-- A proper token ends in a code point that is no blank, and that is no part of a word if the
token ends where a word could go on. -/
theorem Proper.exists_last (htoken : token.Proper) :
    ∃ first last, token.text = first ++ [last] ∧ last.isBlank = false ∧
      ∀ next rest, next.isWordPart = true → token.EndsBefore (next :: rest) →
        last.isWordPart = false := by
  cases htoken with
  | @word text hsome hparts =>
      obtain ⟨first, last, rfl⟩ := (List.eq_nil_or_concat' text).resolve_left hsome
      have hlast := hparts last (List.mem_append_right _ (List.mem_singleton_self last))
      refine ⟨first, last, rfl, (CodePoint.isWordPart_eq_true_iff.mp hlast).1, ?_⟩
      intro next rest hnext hends
      exact absurd hnext (Bool.eq_false_iff.mp (hends next rfl))
  | @literal inner hinner =>
      exact ⟨.apostrophe :: inner, .apostrophe, rfl, by decide, fun _ _ _ _ => by decide⟩
  | punctuation mark =>
      exact ⟨[], mark.point, rfl, mark.isBlank_point, fun _ _ _ _ => by cases mark <;> decide⟩

theorem Proper.text_ne_nil (htoken : token.Proper) : token.text ≠ [] := by
  obtain ⟨first, last, htext, -⟩ := htoken.exists_last
  rw [htext]
  exact List.append_ne_nil_of_right_ne_nil _ (List.cons_ne_nil _ _)

theorem Proper.isBlank_head? (htoken : token.Proper) :
    ∀ point ∈ token.text.head?, point.isBlank = false := by
  cases htoken with
  | @word text hsome hparts =>
      intro point hpoint
      exact (CodePoint.isWordPart_eq_true_iff.mp (hparts point (List.mem_of_mem_head? hpoint))).1
  | literal hinner =>
      rintro point ⟨⟩
      decide
  | punctuation mark =>
      rintro point ⟨⟩
      exact mark.isBlank_point

theorem Proper.isBlank_getLast? (htoken : token.Proper) :
    ∀ point ∈ token.text.getLast?, point.isBlank = false := by
  obtain ⟨first, last, htext, hlast, -⟩ := htoken.exists_last
  rw [htext, List.getLast?_concat]
  rintro point ⟨⟩
  exact hlast

theorem endsBefore_of_head? (hrest : ∀ point ∈ rest.head?, point.isWordPart = false) :
    token.EndsBefore rest := by
  cases token with
  | word => exact hrest
  | literal => trivial
  | punctuation => trivial

theorem EndsBefore.of_append (hends : token.EndsBefore (rest ++ more)) :
    token.EndsBefore rest := by
  cases token with
  | word =>
      intro point hpoint
      exact hends point (by rw [List.head?_append, hpoint]; rfl)
  | literal => trivial
  | punctuation => trivial

/-- What does not go on in a text does not go on in bare text behind it either. -/
theorem EndsBefore.append (hends : token.EndsBefore rest) (hmore : more.Bare) :
    token.EndsBefore (rest ++ more) := by
  cases rest with
  | nil => exact endsBefore_of_head? hmore.isWordPart_head?
  | cons next rest => cases token <;> exact hends

theorem EndsBefore.blank_append (hends : token.EndsBefore rest) (hmore : more.Blank) :
    token.EndsBefore (more ++ rest) := by
  cases more with
  | nil => exact hends
  | cons point more =>
      refine endsBefore_of_head? ?_
      rintro _ ⟨⟩
      exact CodePoint.isWordPart_of_isBlank (Text.blank_cons_iff.mp hmore).1

theorem EndsBefore.replace (hends : token.EndsBefore (first ++ rest))
    (hother : token.EndsBefore rest → token.EndsBefore other) :
    token.EndsBefore (first ++ other) := by
  cases first with
  | nil => exact hother hends
  | cons point first => cases token <;> exact hends

end Token

/-- A token as a line holds it, with the blanks before it. -/
structure Lexeme where
  gap : Text
  token : Token

namespace Lexeme

variable {lexemes earlier later : List Lexeme} {tail line rest more : Text} {token : Token}
  {tokens : List Token}

def text (lexeme : Lexeme) : Text :=
  lexeme.gap ++ lexeme.token.text

/-- The line is made of the lexemes and of the tail, which belongs to no token. -/
inductive Spell : List Lexeme → Text → Text → Prop
  | tail {tail : Text} (htail : tail.Bare) : Spell [] tail tail
  | lexeme {gap rest tail : Text} {token : Token} {lexemes : List Lexeme} (hgap : gap.Blank)
      (htoken : token.Proper) (hends : token.EndsBefore rest)
      (hrest : Spell lexemes tail rest) :
      Spell (⟨gap, token⟩ :: lexemes) tail (gap ++ (token.text ++ rest))

theorem Spell.line_eq (hspell : Spell lexemes tail line) :
    line = lexemes.flatMap text ++ tail := by
  induction hspell with
  | tail => rfl
  | lexeme _ _ _ _ ih =>
      rw [List.flatMap_cons, text, List.append_assoc, List.append_assoc, ← ih]

theorem Spell.append (hspell : Spell lexemes tail line) (hmore : more.Bare) :
    Spell lexemes (tail ++ more) (line ++ more) := by
  induction hspell with
  | tail htail => exact .tail (htail.append hmore)
  | lexeme hgap htoken hends hrest ih =>
      rw [List.append_assoc, List.append_assoc]
      exact .lexeme hgap htoken (hends.append hmore) ih

theorem Spell.scan_eq (hspell : Spell lexemes tail line) :
    Token.scan line = .ok (lexemes.map Lexeme.token) := by
  induction hspell with
  | tail htail => exact Token.scan_of_bare htail
  | lexeme hgap htoken hends _ ih =>
      rw [Token.scan_blank_append hgap, htoken.scan_append hends, ih]
      rfl

/-- What follows some lexemes may be replaced by what is read in the same way, if a token that
ends before the one ends before the other. -/
theorem Spell.scan_replace {other : Text}
    (hspell : Spell (earlier ++ later) tail line) (hline : line = earlier.flatMap text ++ rest)
    (hscan : Token.scan other = Token.scan rest)
    (hends : ∀ token : Token, token.EndsBefore rest → token.EndsBefore other) :
    Token.scan (earlier.flatMap text ++ other) = Token.scan line := by
  induction earlier generalizing line with
  | nil => rw [hline, List.flatMap_nil, List.nil_append, List.nil_append, hscan]
  | cons lexeme earlier ih =>
      cases hspell with
      | @lexeme gap left _ token _ hgap htoken hstop hleft =>
          rw [List.flatMap_cons, text, List.append_assoc, List.append_assoc] at hline ⊢
          obtain rfl := List.append_cancel_left (List.append_cancel_left hline)
          rw [Token.scan_blank_append hgap, Token.scan_blank_append hgap,
            htoken.scan_append hstop, htoken.scan_append (hstop.replace (hends token)),
            ih hleft rfl]

theorem exists_spell_cons (htoken : token.Proper) (hends : token.EndsBefore rest)
    (hrest : ∃ lexemes tail, Spell lexemes tail rest ∧ lexemes.map Lexeme.token = tokens) :
    ∃ lexemes tail, Spell lexemes tail (token.text ++ rest) ∧
      lexemes.map Lexeme.token = token :: tokens := by
  obtain ⟨lexemes, tail, hspell, rfl⟩ := hrest
  exact ⟨⟨[], token⟩ :: lexemes, tail, .lexeme Text.blank_nil htoken hends hspell, rfl⟩

theorem exists_spell (hscan : Token.scan line = .ok tokens) :
    ∃ lexemes tail, Spell lexemes tail line ∧ lexemes.map Lexeme.token = tokens := by
  fun_induction Token.scan line generalizing tokens with
  | case1 =>
      cases hscan
      exact ⟨[], [], .tail (.blank Text.blank_nil), rfl⟩
  | case2 point rest hblank ih =>
      obtain ⟨lexemes, tail, hspell, htokens⟩ := ih hscan
      cases hspell with
      | tail htail =>
          have hpoint : Text.Bare [point] := .blank (by simpa using hblank)
          exact ⟨[], _, .tail (hpoint.append htail), htokens⟩
      | lexeme hgap htoken hends hrest =>
          exact ⟨_, _, .lexeme (Text.blank_cons_iff.mpr ⟨hblank, hgap⟩) htoken hends hrest, htokens⟩
  | case3 rest =>
      cases hscan
      exact ⟨[], _, .tail (.comment Text.blank_nil rest), rfl⟩
  | case4 => contradiction
  | case5 rest body after hsplit _ _ ih =>
      obtain ⟨others, hothers, rfl⟩ := map_eq_ok_iff.mp hscan
      obtain ⟨inner, hinner, rfl, rfl⟩ := Text.exists_quoted_of_splitLiteral? hsplit
      have hspell := exists_spell_cons (.literal hinner) trivial (ih hothers)
      rwa [Token.text, List.cons_append, List.append_assoc, List.singleton_append] at hspell
  | case6 point rest _ _ _ mark hmark ih =>
      obtain ⟨others, hothers, rfl⟩ := map_eq_ok_iff.mp hscan
      obtain rfl := Punctuation.ofPoint?_eq_some_iff.mp hmark
      exact exists_spell_cons (.punctuation mark) trivial (ih hothers)
  | case7 point rest hblank hcomment happostrophe hmark ih =>
      obtain ⟨others, hothers, rfl⟩ := map_eq_ok_iff.mp hscan
      have hpoint : point.isWordPart = true := CodePoint.isWordPart_eq_true_iff.mpr
        ⟨Bool.eq_false_iff.mpr hblank, hmark, happostrophe, hcomment⟩
      have hword : Token.Proper (.word (point :: rest.takeWhile CodePoint.isWordPart)) :=
        .word (List.cons_ne_nil _ _)
          (List.forall_mem_cons.mpr ⟨hpoint, fun _ hmem => List.mem_takeWhile_imp hmem⟩)
      have hends : Token.EndsBefore (.word (point :: rest.takeWhile CodePoint.isWordPart))
          (rest.dropWhile CodePoint.isWordPart) := by
        intro next hnext
        have hstop := List.head?_dropWhile_not CodePoint.isWordPart rest
        rwa [hnext] at hstop
      have hspell := exists_spell_cons hword hends (ih hothers)
      rwa [Token.text, List.cons_append, List.takeWhile_append_dropWhile] at hspell

theorem Spell.trimRight (hspell : Spell lexemes tail line) :
    Spell lexemes (Text.trimRight tail) (Text.trimRight line) := by
  induction hspell with
  | tail htail =>
      cases htail with
      | blank hgap =>
          rw [Text.trimRight_of_blank hgap]
          exact .tail (.blank Text.blank_nil)
      | comment hgap comment =>
          rw [Text.trimRight_append_cons (by decide)]
          exact .tail (.comment hgap _)
  | @lexeme gap rest tail token lexemes hgap htoken hends hrest ih =>
      obtain ⟨first, last, htext, hlast, -⟩ := htoken.exists_last
      have htrim : Text.trimRight (gap ++ (token.text ++ rest)) =
          gap ++ (token.text ++ Text.trimRight rest) := by
        rw [htext, List.append_assoc, List.append_assoc, ← List.append_assoc,
          List.singleton_append, Text.trimRight_append_cons hlast]
        simp
      rw [htrim]
      obtain ⟨blanks, -, hrest⟩ := Text.exists_trimRight_append rest
      rw [hrest] at hends
      exact .lexeme hgap htoken hends.of_append ih

/-- Blanks at the end of a line do not keep it from being read, nor do they change its
tokens. -/
theorem exists_spell_of_ofLine (hline : Token.ofLine line = .ok tokens) :
    ∃ lexemes tail, Spell lexemes tail line ∧ lexemes.map Lexeme.token = tokens := by
  obtain ⟨lexemes, tail, hspell, htokens⟩ := exists_spell hline
  obtain ⟨gap, hgap, heq⟩ := Text.exists_trimRight_append line
  exact ⟨lexemes, tail ++ gap, heq ▸ hspell.append (.blank hgap), htokens⟩

theorem Spell.ofLine_eq (hspell : Spell lexemes tail line) :
    Token.ofLine line = .ok (lexemes.map Lexeme.token) :=
  hspell.trimRight.scan_eq

theorem Spell.blank_gap (hspell : Spell lexemes tail line) :
    ∀ lexeme ∈ lexemes, lexeme.gap.Blank := by
  induction hspell with
  | tail => exact List.forall_mem_nil _
  | lexeme hgap _ _ _ ih => exact List.forall_mem_cons.mpr ⟨hgap, ih⟩

theorem Spell.proper (hspell : Spell lexemes tail line) :
    ∀ lexeme ∈ lexemes, lexeme.token.Proper := by
  induction hspell with
  | tail => exact List.forall_mem_nil _
  | lexeme _ htoken _ _ ih => exact List.forall_mem_cons.mpr ⟨htoken, ih⟩

theorem Spell.bare_tail (hspell : Spell lexemes tail line) : tail.Bare := by
  induction hspell with
  | tail htail => exact htail
  | lexeme _ _ _ _ ih => exact ih

theorem Spell.exists_rest (hspell : Spell (earlier ++ later) tail line) :
    ∃ rest, Spell later tail rest ∧ line = earlier.flatMap text ++ rest := by
  refine ⟨later.flatMap text ++ tail, ?_, ?_⟩
  · induction earlier generalizing line with
    | nil => exact hspell.line_eq ▸ hspell
    | cons lexeme earlier ih =>
        cases hspell with
        | lexeme _ _ _ hrest => exact ih hrest
  · rw [hspell.line_eq, List.flatMap_append, List.append_assoc]

theorem Spell.word_apart {gap word : Text}
    (hspell : Spell (earlier ++ ⟨gap, .word word⟩ :: later) tail line) :
    (∀ point ∈ (earlier.flatMap text ++ gap).getLast?, point.isWordPart = false) ∧
      ∀ point ∈ (later.flatMap text ++ tail).head?, point.isWordPart = false := by
  obtain ⟨rest, hrest, -⟩ := hspell.exists_rest
  cases hrest with
  | lexeme hgap htoken hends hlater =>
  refine ⟨?_, hlater.line_eq ▸ hends⟩
  rcases List.eq_nil_or_concat' gap with rfl | ⟨first, last, rfl⟩
  · rcases List.eq_nil_or_concat' earlier with rfl | ⟨before, previous, rfl⟩
    · exact nofun
    · -- nothing separates the word from the token before it, which has to end there
      rw [List.append_assoc] at hspell
      obtain ⟨own, hown, -⟩ := hspell.exists_rest
      cases hown with
      | lexeme _ hprevious hstop hnext =>
      cases hnext with
      | lexeme _ hword _ _ =>
      cases hword with
      | word hsome hparts =>
      obtain ⟨next, others, rfl⟩ := List.exists_cons_of_ne_nil hsome
      obtain ⟨first, last, htext, -, hlast⟩ := hprevious.exists_last
      rw [List.flatMap_append, List.flatMap_singleton, text, htext, List.append_nil,
        ← List.append_assoc, ← List.append_assoc, List.getLast?_concat]
      rintro point ⟨⟩
      exact hlast next _ (hparts next (List.mem_cons_self ..)) hstop
  · have hlast := hgap last (List.mem_append_right _ (List.mem_singleton_self last))
    rw [← List.append_assoc, List.getLast?_concat]
    rintro point ⟨⟩
    exact CodePoint.isWordPart_of_isBlank hlast

end Lexeme

namespace Token

theorem ofLine_eq_ok_iff {line : Text} {tokens : List Token} :
    ofLine line = .ok tokens ↔ scan line = .ok tokens := by
  constructor
  · intro hline
    obtain ⟨lexemes, tail, hspell, rfl⟩ := Lexeme.exists_spell_of_ofLine hline
    exact hspell.scan_eq
  · intro hscan
    obtain ⟨lexemes, tail, hspell, rfl⟩ := Lexeme.exists_spell hscan
    exact hspell.trimRight.scan_eq

theorem scan_spaced {tokens : List Token} (htokens : ∀ token ∈ tokens, token.Proper) :
    scan (spaced tokens) = .ok tokens := by
  induction tokens with
  | nil => exact scan_of_bare (.blank Text.blank_nil)
  | cons token others ih =>
      obtain ⟨htoken, hothers⟩ := List.forall_mem_cons.mp htokens
      cases others with
      | nil =>
          have hends : token.EndsBefore [] := endsBefore_of_head? nofun
          rw [spaced, List.map_singleton, Text.joinWith_singleton, ← List.append_nil token.text,
            htoken.scan_append hends, scan]
          rfl
      | cons next others =>
          have hspace : Text.Blank " " := by decide
          have hends : token.EndsBefore (" " ++ spaced (next :: others)) :=
            endsBefore_of_head? (by rintro point ⟨⟩; decide)
          have hjoined : spaced (token :: next :: others) =
            token.text ++ (" " ++ spaced (next :: others)) := Text.joinWith_cons_cons ..
          rw [hjoined, htoken.scan_append hends, scan_blank_append hspace, ih hothers]
          rfl

theorem proper_of_ofLine {line : Text} {tokens : List Token} (hline : ofLine line = .ok tokens) :
    ∀ token ∈ tokens, token.Proper := by
  obtain ⟨lexemes, tail, hspell, rfl⟩ := Lexeme.exists_spell_of_ofLine hline
  exact List.forall_mem_map.mpr hspell.proper

/-- Reading a line loses only the blanks before its tokens and a comment behind them, words
are as long as they can be, and the rest of a line, as a message shows it, is read as the same
tokens again. -/
theorem ofLine_lossless {line : Text} {tokens : List Token} (hline : ofLine line = .ok tokens) :
    ∃ (lexemes : List Lexeme) (tail : Text), lexemes.map Lexeme.token = tokens ∧
      Text.trimRight line = lexemes.flatMap Lexeme.text ++ tail ∧
      (∀ lexeme ∈ lexemes, lexeme.gap.Blank) ∧
      (tail = [] ∨ ∃ gap comment, Text.Blank gap ∧ tail = gap ++ .commentMark :: comment) ∧
      (∀ mark, .punctuation mark ∈ tokens →
        (Token.punctuation mark).text ∈ (["\x7b", "\x7d", ":", ";", ","] : List Text)) ∧
      (∀ earlier gap word later, lexemes = earlier ++ ⟨gap, .word word⟩ :: later →
        word ≠ [] ∧ (∀ point ∈ word, point.isWordPart = true) ∧
          (∀ point ∈ (earlier.flatMap Lexeme.text ++ gap).getLast?, point.isWordPart = false) ∧
          ∀ point ∈ (later.flatMap Lexeme.text ++ tail).head?, point.isWordPart = false) ∧
      (∀ text, .literal text ∈ tokens →
        ∃ inner, Text.Quoted inner ∧ text = .apostrophe :: (inner ++ [.apostrophe])) ∧
      ∀ rest, rest <:+ tokens → ofLine (spaced rest) = .ok rest := by
  obtain ⟨lexemes, tail, hspell, rfl⟩ := Lexeme.exists_spell_of_ofLine hline
  have hproper : ∀ token ∈ lexemes.map Lexeme.token, token.Proper :=
    List.forall_mem_map.mpr hspell.proper
  refine ⟨lexemes, Text.trimRight tail, rfl, hspell.trimRight.line_eq, hspell.blank_gap,
    ?tail, ?marks, ?words, ?literals, ?stable⟩
  case tail =>
    cases hspell.bare_tail with
    | blank hgap => exact .inl (Text.trimRight_of_blank hgap)
    | comment hgap comment =>
        exact .inr ⟨_, _, hgap, Text.trimRight_append_cons (by decide) ..⟩
  case marks =>
    intro mark _
    cases mark <;> decide
  case words =>
    rintro earlier gap word later rfl
    have hword := hspell.proper ⟨gap, .word word⟩ (by simp)
    cases hword with
    | word hsome hparts => exact ⟨hsome, hparts, hspell.trimRight.word_apart⟩
  case literals =>
    intro text hmem
    cases hproper _ hmem with
    | literal hinner => exact ⟨_, hinner, rfl⟩
  case stable =>
    intro rest hrest
    exact ofLine_eq_ok_iff.mpr (scan_spaced fun token hmem => hproper token (hrest.subset hmem))

/-- A literal that holds an escaped apostrophe and a hash, and a comment that holds an
apostrophe. -/
def hashLine : Text := "shift:'\\'#';ralt  # a 'b"

def hashTokens : List Token :=
  [.word "shift", .punctuation .colon, .literal "'\\'#'", .punctuation .semicolon, .word "ralt"]

theorem ofLine_lossless_hash :
    ofLine hashLine = .ok hashTokens ∧ ofLine (spaced hashTokens) = .ok hashTokens := by
  have hline : ofLine hashLine = .ok hashTokens := by with_unfolding_all rfl
  obtain ⟨_, _, -, -, -, -, -, -, -, hstable⟩ := ofLine_lossless hline
  exact ⟨hline, hstable _ (List.suffix_refl _)⟩

end Token

end KeyLayout
