import KeyLayout.Proofs.Grammar.Places
import KeyLayout.Proofs.Grammar.Statements
import Mathlib.Data.List.TakeWhile

namespace KeyLayout

/-! A statement ends before a separator or with its line.  A place in it is led to that end
without looking for the end beforehand. -/

namespace Statement

def dropColon : List Token → List Token
  | .punctuation .colon :: rest => rest
  | tokens => tokens

/-- What a statement sets, and the tokens of its value. -/
def readHead (after : Option Token) (tokens : List Token) :
    Except SyntaxFault (List Property × List Token) :=
  match tokens with
  | .punctuation .colon :: rest => .ok ([.mask 0], rest)
  | _ => (Property.readList after tokens).map fun (properties, rest) =>
      (properties, dropColon rest)

theorem read_eq_bind_readHead (after : Option Token) (tokens : List Token) :
    read after tokens =
      readHead after tokens >>= fun (properties, rest) =>
        Value.read after rest >>= fun value => .ok ⟨properties, value⟩ := by
  rw [read.eq_def]
  split
  next => rfl
  next hcolon =>
    rw [readHead]
    · cases Property.readList after tokens with
      | error => rfl
      | ok taken =>
          obtain ⟨properties, rest⟩ := taken
          dsimp only [bind, Except.bind, Except.map]
          split
          next => rfl
          next hplain =>
            rw [dropColon]
            · rfl
            · exact hplain
    · exact hcolon

end Statement

namespace Position

variable {place position next : Position} {token : Token} {what : Text} {rest after : List Token}

/-- The rest of the line is the rest of the statement and what comes after it. -/
structure Ends (position : Position) (rest after : List Token) : Prop where
  unread : position.unread = rest ++ after
  within : ∀ token ∈ rest, Statement.isSeparator token = false
  separated : ∀ token ∈ after.head?, Statement.isSeparator token = true

theorem ends_takeWhile (position : Position) :
    position.Ends (position.unread.takeWhile (!Statement.isSeparator ·))
      (position.unread.dropWhile (!Statement.isSeparator ·)) where
  unread := List.takeWhile_append_dropWhile.symm
  within := by
    intro token htoken
    simpa using List.mem_takeWhile_imp htoken
  separated := by
    intro token htoken
    have hhead := List.head?_dropWhile_not (!Statement.isSeparator ·) position.unread
    rw [htoken] at hhead
    simpa using hhead

theorem Ends.cases_cons (hends : position.Ends (token :: rest) after) :
    ∃ next, position.next = some (token, next) ∧ position.SameLine next ∧ next.Ends rest after := by
  obtain ⟨hunread, hwithin, hseparated⟩ := hends
  obtain ⟨next, hnext, hline, hrest⟩ := exists_next_of_unread hunread
  exact ⟨next, hnext, hline, hrest, (List.forall_mem_cons.mp hwithin).2, hseparated⟩

theorem Ends.cases_nil (hends : position.Ends [] after) :
    position.next = none ∧ after = [] ∨
      ∃ separator next, position.next = some (separator, next) ∧ position.SameLine next ∧
        after.head? = some separator ∧ Statement.isSeparator separator = true := by
  obtain ⟨hunread, -, hseparated⟩ := hends
  rcases next_cases position with ⟨hnext, hnil⟩ | ⟨separator, next, hnext, hline, hcons⟩
  · exact .inl ⟨hnext, hunread.symm.trans hnil⟩
  · obtain rfl : after = separator :: next.unread := hunread.symm.trans hcons
    exact .inr ⟨separator, next, hnext, hline, rfl, hseparated separator rfl⟩

theorem Ends.expectWord_eq (hends : position.Ends [] after) (what : Text) :
    ∃ last, position.SameLine last ∧
      position.expectWord what = .error (last.error (Value.endFault what after.head?)) := by
  rcases hends.cases_nil with
    ⟨hnone, rfl⟩ | ⟨separator, last, hlast, hline, hhead, hseparator⟩
  · exact ⟨position, .refl position, expectWord_of_none hnone⟩
  · rw [hhead]
    exact ⟨last, hline, expectWord_of_separator hlast hseparator⟩

theorem readProperties_of_error {fault : SyntaxFault} (hread : Property.read token = .error fault) :
    position.readProperties token = .error (position.error fault) := by
  rw [readProperties, hread]
  rfl

theorem readProperties_of_comma (hnext : position.next = some (.punctuation .comma, next)) :
    position.readProperties token =
      (Property.read token).mapError position.error >>= fun property =>
        next.expect Property.what >>= fun (token, last) =>
          last.readProperties token >>= fun (others, place) =>
            .ok (property :: others, place) := by
  rw [readProperties]
  congr 1
  funext property
  split
  next heq =>
    cases hnext.symm.trans heq
    split
    next hexpect =>
      rw [hexpect]
      rfl
    next hexpect =>
      rw [hexpect]
      rfl
  next hother => exact absurd hnext (hother _)

theorem readProperties_of_ne_comma
    (hnext : ∀ next, position.next ≠ some (.punctuation .comma, next)) :
    position.readProperties token =
      (Property.read token).mapError position.error >>= fun property =>
        .ok ([property], position) := by
  rw [readProperties]
  congr 1
  funext property
  split
  next heq => exact absurd heq (hnext _)
  next => rfl

/-- The same is taken, and what is left of the statement is the same. -/
structure TakesWithin {α : Type} (place : Position) (after : List Token) (own : α × Position)
    (other : α × List Token) : Prop where
  value : own.1 = other.1
  line : place.SameLine own.2
  ends : own.2.Ends other.2 after

theorem read_of_isSeparator (htoken : Statement.isSeparator token = true) :
    Property.read token = .error (.mismatch Property.what token.text) := by
  cases token with
  | word => contradiction
  | literal => contradiction
  | punctuation => rfl

theorem readList_of_ne_comma (hhead : rest.head? ≠ some (.punctuation .comma)) :
    Property.readList after.head? (token :: rest) =
      Property.read token >>= fun property => .ok ([property], rest) := by
  rw [Property.readList_cons_of_ne_comma hhead]
  cases Property.read token <;> rfl

theorem simulates_readProperties (hline : place.SameLine position)
    (hends : position.Ends rest after) :
    place.Simulates (place.TakesWithin after)
      (position.readProperties token) (Property.readList after.head? (token :: rest)) := by
  -- a comma takes two tokens
  induction hlength : rest.length using Nat.strongRecOn generalizing token rest position with
  | ind length ih =>
      subst hlength
      have hsingle (hhead : rest.head? ≠ some (.punctuation .comma))
          (hnext : ∀ next, position.next ≠ some (.punctuation .comma, next)) :
          place.Simulates (place.TakesWithin after)
            (position.readProperties token) (Property.readList after.head? (token :: rest)) := by
        rw [readProperties_of_ne_comma hnext, readList_of_ne_comma hhead]
        exact .leaf hline fun property => .ok ⟨rfl, hline, hends⟩
      cases rest with
      | nil =>
          refine hsingle (by simp) fun next hnext => ?_
          rcases hends.cases_nil with ⟨hnone, -⟩ | ⟨separator, other, hother, -, -, hseparator⟩
          · rw [hnone] at hnext
            contradiction
          · cases hother.symm.trans hnext
            contradiction
      | cons second tail =>
          obtain ⟨next, hnext, hsame, hafter⟩ := hends.cases_cons
          have hnextLine : place.SameLine next := hline.trans hsame
          by_cases hcomma : second = .punctuation .comma
          · subst hcomma
            rw [readProperties_of_comma hnext, Property.readList]
            refine .leaf hline fun property => ?_
            cases tail with
            | nil =>
                rw [Property.readList]
                rcases hafter.cases_nil with
                  ⟨hnone, rfl⟩ | ⟨separator, last, hlast, hlastLine, hhead, hseparator⟩
                · rw [expect_of_none hnone]
                  exact .complaint hnextLine _
                · rw [expect_of_next hlast, ok_bind, hhead]
                  dsimp only
                  rw [readProperties_of_error (read_of_isSeparator hseparator)]
                  exact .complaint (hnextLine.trans hlastLine) _
            | cons third tail =>
                obtain ⟨last, hlast, hlastLine, hlastEnds⟩ := hafter.cases_cons
                rw [expect_of_next hlast, ok_bind]
                refine .bind (ih tail.length (by simp only [List.length_cons]; omega)
                  (hnextLine.trans hlastLine) hlastEnds rfl) ?_
                rintro ⟨others, position⟩ ⟨_, _⟩ ⟨rfl, hposition, hpositionEnds⟩
                exact .ok ⟨rfl, hposition, hpositionEnds⟩
          · refine hsingle (by simpa using hcomma) fun other hother => ?_
            cases hnext.symm.trans hother
            exact hcomma rfl

theorem Ends.afterColon (hends : position.Ends rest after) :
    position.SameLine position.afterColon ∧
      position.afterColon.Ends (Statement.dropColon rest) after := by
  cases rest with
  | nil =>
      have hstays : position.afterColon = position := by
        rw [Position.afterColon]
        rcases hends.cases_nil with ⟨hnone, -⟩ | ⟨separator, next, hnext, -, -, hseparator⟩
        · rw [hnone]
        · rw [hnext]
          split
          next heq =>
            cases heq
            contradiction
          next => rfl
      rw [hstays]
      exact ⟨.refl position, hends⟩
  | cons token rest =>
      obtain ⟨next, hnext, hline, hrest⟩ := hends.cases_cons
      rw [Position.afterColon, hnext, Statement.dropColon.eq_def]
      split
      next heq =>
        cases heq
        exact ⟨hline, hrest⟩
      next hother =>
        split
        next heq =>
          cases heq
          exact absurd rfl (hother _)
        next => exact ⟨.refl position, hends⟩

theorem simulates_readHead (hline : place.SameLine position) (hends : position.Ends rest after) :
    place.Simulates (place.TakesWithin after) (position.readHead token)
      (Statement.readHead after.head? (token :: rest)) := by
  rw [Statement.readHead.eq_def]
  split
  next heq =>
    cases heq
    exact .ok ⟨rfl, hline, hends⟩
  next hcolon =>
    rw [readHead]
    · refine .map (simulates_readProperties hline hends) ?_
      rintro ⟨properties, next⟩ ⟨_, left⟩ ⟨rfl, hnext, hleft⟩
      obtain ⟨hsame, hvalue⟩ := hleft.afterColon
      exact ⟨rfl, hnext.trans hsame, hvalue⟩
    · rintro rfl
      exact hcolon _ rfl

theorem readValue_of_ends_nil {value : Value} (hends : position.Ends [] after) :
    position.readValue value = position.endValue value := by
  rw [readValue]
  split
  next => rfl
  next hnext =>
    rcases hends.cases_nil with ⟨hnone, -⟩ | ⟨separator, other, hother, -, -, hseparator⟩
    · cases hnone.symm.trans hnext
    · cases hother.symm.trans hnext
      rw [if_pos hseparator]

theorem readValue_of_next {value : Value} (hnext : position.next = some (token, next))
    (htoken : Statement.isSeparator token = false) :
    position.readValue value =
      match token with
      | .punctuation mark => .error (next.error (.strayToken [mark.point]))
      | .literal text =>
          ((Literal.decode text).mapError SyntaxFault.literal).mapError next.error >>=
            fun point => (value.withCharacter (some point)).mapError next.error >>=
              next.readValue
      | .word name =>
          (ValueWord.read name).mapError next.error >>= fun word =>
            match word with
            | .character point =>
                (value.withCharacter point).mapError next.error >>= next.readValue
            | .target kind =>
                if value.target.isSome then
                  .error (next.error .repeatedTarget)
                else
                  next.expectWord KeyCode.what >>= fun (label, last) =>
                    (KeyCode.read label).mapError last.error >>= fun code =>
                      last.readValue { value with target := some ⟨kind, code⟩ } := by
  rw [readValue]
  split
  next hnone => cases hnone.symm.trans hnext
  next hother =>
    cases hnext.symm.trans hother
    rw [if_neg (by simp [htoken])]
    cases token with
    | punctuation mark => rfl
    | literal text => rfl
    | word name =>
        dsimp only
        congr 1
        funext word
        cases word with
        | character point => rfl
        | target kind =>
            dsimp only
            congr 1
            split
            next hword =>
              rw [hword]
              rfl
            next hword => rw [hword, ok_bind]

theorem simulates_readValue {value : Value} (hline : place.SameLine position)
    (hends : position.Ends rest after) :
    place.Simulates
      (fun own other => own.1 = other ∧ place.SameLine own.2 ∧ own.2.unread = after)
      (position.readValue value) (Value.extend after.head? value rest) := by
  -- a word that announces another key takes two tokens
  induction hlength : rest.length using Nat.strongRecOn generalizing rest position value with
  | ind length ih =>
      subst hlength
      cases rest with
      | nil =>
          rw [readValue_of_ends_nil hends, Value.extend, endValue]
          split
          · exact .complaint hline _
          · exact .ok ⟨rfl, hline, hends.unread⟩
      | cons token rest =>
          obtain ⟨next, hnext, hsame, hrest⟩ := hends.cases_cons
          rw [readValue_of_next hnext (hends.within token (List.mem_cons_self ..))]
          have hnextLine : place.SameLine next := hline.trans hsame
          have hgoes {value : Value} : place.Simulates
              (fun own other => own.1 = other ∧ place.SameLine own.2 ∧ own.2.unread = after)
              (next.readValue value) (Value.extend after.head? value rest) :=
            ih rest.length (by simp) hnextLine hrest rfl
          cases token with
          | punctuation mark => exact .complaint hnextLine _
          | literal text =>
              rw [Value.extend]
              refine .leaf hnextLine fun point => ?_
              refine .leaf hnextLine fun value => ?_
              exact hgoes
          | word name =>
              rw [Value.extend]
              refine .leaf hnextLine fun word => ?_
              cases word with
              | character point =>
                  refine .leaf hnextLine fun value => ?_
                  exact hgoes
              | target kind =>
                  dsimp only
                  split
                  · exact .complaint hnextLine _
                  cases rest with
                  | nil =>
                      obtain ⟨last, hlast, hword⟩ := hrest.expectWord_eq KeyCode.what
                      rw [hword]
                      exact .complaint (hnextLine.trans hlast) _
                  | cons label tail =>
                      obtain ⟨last, hlast, hsame, htail⟩ := hrest.cases_cons
                      have hlastLine : place.SameLine last := hnextLine.trans hsame
                      cases label with
                      | punctuation mark =>
                          rw [expectWord, expect_of_next hlast]
                          exact .complaint hlastLine _
                      | literal text =>
                          rw [expectWord, expect_of_next hlast]
                          exact .complaint hlastLine _
                      | word text =>
                          rw [expectWord_of_word hlast, ok_bind]
                          refine .leaf hlastLine fun code => ?_
                          exact ih tail.length (by simp only [List.length_cons]; omega)
                            hlastLine htail rfl

end Position

end KeyLayout
