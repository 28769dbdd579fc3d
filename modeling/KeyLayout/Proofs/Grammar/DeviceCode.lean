import KeyLayout.Grammar.Expect
import KeyLayout.Proofs.Grammar.Lexemes
import KeyLayout.Proofs.Numeral

namespace KeyLayout

/-! The integers of device codes: decimal, hexadecimal and octal numerals, and beyond these
nothing but numerals in a looser spelling. -/

namespace DeviceCode

variable {text digits : Text} {mark point : CodePoint} {value : Nat}

/-- The numerals for a number: zero, decimal digits that do not start with a zero, hexadecimal
digits after a zero and an X, and octal digits after a zero. -/
inductive Denotes : Text → Nat → Prop
  | zero : Denotes [.scalar '0'] 0
  | decimal {digits : Text} {value : Nat} (hne : digits ≠ [])
      (hhead : digits.head? ≠ some (.scalar '0'))
      (hvalue : digits.digitsValue? 10 = some value) : Denotes digits value
  | hexadecimal {mark : CodePoint} {digits : Text} {value : Nat}
      (hmark : mark = .scalar 'x' ∨ mark = .scalar 'X') (hne : digits ≠ [])
      (hvalue : digits.digitsValue? 16 = some value) :
      Denotes (.scalar '0' :: mark :: digits) value
  | octal {digits : Text} {value : Nat} (hne : digits ≠ [])
      (hvalue : digits.digitsValue? 8 = some value) : Denotes (.scalar '0' :: digits) value

/-- What no numeral has: an underscore, a digit that is not of ASCII, or a letter other than X
that announces a base. -/
inductive Loose : Text → Prop
  | underscore {text : Text} (hmem : .scalar '_' ∈ text) : Loose text
  | script {text : Text} {point : CodePoint} (hmem : point ∈ text)
      (hvalue : point.decimalValue?.isSome = true) (hascii : point.isAsciiDigit = false) :
      Loose text
  | mark {mark : CodePoint} {base : Nat} {rest : Text}
      (hmark : Numeral.announcedBase? mark = some base) (hbase : base ≠ 16) :
      Loose (.scalar '0' :: mark :: rest)

/-! What a text is read as, once its margin is trimmed and its digits are of ASCII. -/

theorem read_of_prefixed? (hzero : Numeral.isLeadingZero text = false)
    (hplain : Numeral.prefixedInteger? text = (Numeral.prefixed? text).map Int.ofNat) :
    read text = (Numeral.prefixed? text).elim (.error (.mismatch "an integer" text)) .ok := by
  rw [read, if_neg (Bool.eq_false_iff.mp hzero), hplain]
  cases Numeral.prefixed? text <;> rfl

theorem read_of_isLeadingZero (hne : digits ≠ [])
    (hdigits : ∀ point ∈ digits, point.isAsciiDigit = true) :
    read (.scalar '0' :: digits) = (digits.digitsValue? 8).elim
      (.error (.mismatch "an octal integer after a leading zero" (.scalar '0' :: digits))) .ok := by
  have hzero : Numeral.isLeadingZero (.scalar '0' :: digits) = true :=
    Numeral.isLeadingZero_iff.mpr ⟨digits, hne, rfl, hdigits⟩
  have hunderscore : .scalar '_' ∉ CodePoint.scalar '0' :: digits := by
    intro hmem
    rcases List.mem_cons.mp hmem with heq | hmem
    · exact absurd heq (by decide)
    · exact absurd (hdigits _ hmem) (by decide)
  have hvalue : (Numeral.digits? 8 (.scalar '0' :: digits)).map (Numeral.value 8) =
      digits.digitsValue? 8 :=
    (Numeral.map_value_digits? (List.cons_ne_nil _ _) hunderscore).trans
      (Text.digitsValue?_zeros (by decide) 1 digits)
  rw [read, if_pos hzero, ← hvalue]
  cases Numeral.digits? 8 (.scalar '0' :: digits) <;> rfl

/-! What is read is what the text denotes, or else the text is loosely spelled. -/

theorem denotes_of_isLeadingZero (hzero : Numeral.isLeadingZero text = true)
    (hread : read text = .ok value) : Denotes text value := by
  obtain ⟨digits, hne, rfl, hdigits⟩ := Numeral.isLeadingZero_iff.mp hzero
  rw [read_of_isLeadingZero hne hdigits] at hread
  cases hvalue : Text.digitsValue? 8 digits with
  | none => rw [hvalue] at hread; contradiction
  | some total =>
      rw [hvalue] at hread
      cases hread
      exact .octal hne hvalue

/-- A numeral after its mark. -/
theorem denotes_of_announced {rest : Text} (hplain : ¬Loose (.scalar '0' :: mark :: rest))
    {base : Nat} (hbase : Numeral.announcedBase? mark = some base)
    (hvalue : (Numeral.digits? base (Numeral.dropUnderscore rest)).map (Numeral.value base) =
      some value) : Denotes (.scalar '0' :: mark :: rest) value := by
  have hunderscore : .scalar '_' ∉ rest := fun hmem =>
    hplain (.underscore (List.mem_cons_of_mem _ (List.mem_cons_of_mem _ hmem)))
  obtain rfl : base = 16 := by
    by_contra hother
    exact hplain (.mark hbase hother)
  rw [Numeral.dropUnderscore_of_plain hunderscore] at hvalue
  have hne : rest ≠ [] := by
    rintro rfl
    contradiction
  rw [Numeral.map_value_digits? hne hunderscore] at hvalue
  exact .hexadecimal (Numeral.announcedBase?_eq_sixteen_iff.mp hbase) hne hvalue

theorem denotes_of_decimal? (hplain : ¬Loose text) (hzero : Numeral.isLeadingZero text = false)
    (hvalue : Numeral.decimal? text = some value) : Denotes text value := by
  have hunderscore : .scalar '_' ∉ text := fun hmem => hplain (.underscore hmem)
  have hne : text ≠ [] := by
    rintro rfl
    contradiction
  rw [Numeral.decimal?_of_plain hne hunderscore] at hvalue
  split at hvalue
  next =>
    by_cases hhead : text.head? = some (.scalar '0')
    · -- with more digits the zero would be a leading one
      obtain ⟨rest, rfl⟩ := List.head?_eq_some_iff.mp hhead
      obtain rfl : rest = [] := by
        by_contra hrest
        have hdigits := Text.isAsciiDigit_of_digitsValue? (Nat.le_refl 10) hvalue
        rw [Numeral.isLeadingZero_iff.mpr
          ⟨rest, hrest, rfl, (List.forall_mem_cons.mp hdigits).2⟩] at hzero
        contradiction
      cases hvalue
      exact .zero
    · exact .decimal hne hhead hvalue
  next => contradiction

theorem denotes_of_prefixed? (hplain : ¬Loose text) (hzero : Numeral.isLeadingZero text = false)
    (hvalue : Numeral.prefixed? text = some value) : Denotes text value := by
  unfold Numeral.prefixed? at hvalue
  split at hvalue
  next mark rest =>
    split at hvalue
    next base hbase => exact denotes_of_announced hplain hbase hvalue
    next => exact denotes_of_decimal? hplain hzero (Option.filter_eq_some_iff.mp hvalue).1
  next => exact denotes_of_decimal? hplain hzero hvalue

theorem denotes_of_read {token : Token} (htoken : token.Proper)
    (hsign : ∀ point ∈ token.text.head?, point ≠ .scalar '+' ∧ point ≠ .scalar '-')
    (hplain : ¬Loose token.text) (hread : read token.text = .ok value) :
    Denotes token.text value := by
  cases hzero : Numeral.isLeadingZero token.text with
  | true => exact denotes_of_isLeadingZero hzero hread
  | false =>
      have hascii : ∀ point ∈ token.text, point.decimalValue?.isSome = true →
          point.isAsciiDigit = true := by
        intro point hpoint hvalue
        rw [← Bool.not_eq_false]
        exact fun hother => hplain (.script hpoint hvalue hother)
      have hinteger := Numeral.prefixedInteger?_eq_map htoken.isBlank_head?
        htoken.isBlank_getLast? hascii hsign
      rw [read_of_prefixed? hzero hinteger] at hread
      cases hvalue : Numeral.prefixed? token.text with
      | none => rw [hvalue] at hread; contradiction
      | some total =>
          rw [hvalue] at hread
          cases hread
          exact denotes_of_prefixed? hplain hzero hvalue

/-! Every numeral is read, if it is not too long. -/

/-- Letters and digits of ASCII alone. -/
def Alphanumeric (text : Text) : Prop :=
  ∀ point ∈ text, ∃ digit, point.alphanumericValue? = some digit

theorem alphanumeric_of_digitsValue? {base : Nat}
    (hvalue : text.digitsValue? base = some value) : Alphanumeric text := fun point hpoint =>
  (Text.exists_of_digitsValue? hvalue point hpoint).imp fun _ => And.right

theorem Alphanumeric.ne (htext : Alphanumeric text) (hpoint : point ∈ text) :
    point ≠ .scalar '_' ∧ point ≠ .scalar '+' ∧ point ≠ .scalar '-' := by
  obtain ⟨digit, hdigit⟩ := htext point hpoint
  refine ⟨?_, ?_, ?_⟩ <;> rintro rfl <;> contradiction

theorem Alphanumeric.prefixedInteger?_eq (htext : Alphanumeric text) :
    Numeral.prefixedInteger? text = (Numeral.prefixed? text).map Int.ofNat := by
  have hascii : ∀ point ∈ text, point.decimalValue?.isSome = true →
      point.isAsciiDigit = true := by
    intro point hpoint hvalue
    obtain ⟨own, hown⟩ := htext point hpoint
    obtain ⟨digit, hdigit⟩ := Option.isSome_iff_exists.mp hvalue
    exact CodePoint.isAsciiDigit_of_decimalValue?
      (CodePoint.toNat_of_alphanumericValue? hown).2 hdigit
  have hblank : ∀ point ∈ text, point.isBlank = false := by
    intro point hpoint
    obtain ⟨digit, hdigit⟩ := htext point hpoint
    exact CodePoint.isBlank_of_alphanumericValue? hdigit
  exact Numeral.prefixedInteger?_eq_map
    (fun point hpoint => hblank point (List.mem_of_mem_head? hpoint))
    (fun point hpoint => hblank point (List.mem_of_mem_getLast? hpoint)) hascii
    fun point hpoint => (htext.ne (List.mem_of_mem_head? hpoint)).2

theorem read_of_decimal (hne : text ≠ []) (hhead : text.head? ≠ some (.scalar '0'))
    (hvalue : text.digitsValue? 10 = some value) :
    read text = if text.length ≤ Numeral.decimalLimit then .ok value
      else .error (.mismatch "an integer" text) := by
  have htext := alphanumeric_of_digitsValue? hvalue
  have hzero : Numeral.isLeadingZero text = false := by
    rw [← Bool.not_eq_true, Numeral.isLeadingZero_iff]
    rintro ⟨digits, -, rfl, -⟩
    exact hhead rfl
  rw [read_of_prefixed? hzero htext.prefixedInteger?_eq, Numeral.prefixed?_of_head? hhead,
    Numeral.decimal?_of_plain hne fun hmem => (htext.ne hmem).1 rfl, hvalue]
  split <;> rfl

theorem read_of_hexadecimal (hmark : mark = .scalar 'x' ∨ mark = .scalar 'X')
    (hne : digits ≠ []) (hvalue : digits.digitsValue? 16 = some value) :
    read (.scalar '0' :: mark :: digits) = .ok value := by
  have hdigits := alphanumeric_of_digitsValue? hvalue
  have hunderscore : .scalar '_' ∉ digits := fun hmem => (hdigits.ne hmem).1 rfl
  have htext : Alphanumeric (.scalar '0' :: mark :: digits) := by
    refine List.forall_mem_cons.mpr ⟨⟨0, rfl⟩, List.forall_mem_cons.mpr ⟨⟨33, ?_⟩, hdigits⟩⟩
    rcases hmark with rfl | rfl <;> rfl
  have hzero : Numeral.isLeadingZero (.scalar '0' :: mark :: digits) = false := by
    rcases hmark with rfl | rfl <;> rfl
  have hread : Numeral.prefixed? (.scalar '0' :: mark :: digits) = some value := by
    rw [Numeral.prefixed?, Numeral.announcedBase?_eq_sixteen_iff.mpr hmark,
      Numeral.dropUnderscore_of_plain hunderscore]
    exact (Numeral.map_value_digits? hne hunderscore).trans hvalue
  rw [read_of_prefixed? hzero htext.prefixedInteger?_eq, hread]
  rfl

theorem read_of_octal (hne : digits ≠ []) (hvalue : digits.digitsValue? 8 = some value) :
    read (.scalar '0' :: digits) = .ok value := by
  have hdigits := Text.isAsciiDigit_of_digitsValue? (show 8 ≤ 10 by decide) hvalue
  rw [read_of_isLeadingZero hne hdigits, hvalue]
  rfl

theorem Denotes.read_eq (hdenotes : Denotes text value) :
    read text = .ok value ∨
      Numeral.decimalLimit < text.length ∧ read text = .error (.mismatch "an integer" text) := by
  cases hdenotes with
  | zero => exact .inl rfl
  | decimal hne hhead hvalue =>
      rw [read_of_decimal hne hhead hvalue]
      split
      next => exact .inl rfl
      next hlong => exact .inr ⟨Nat.lt_of_not_le hlong, rfl⟩
  | hexadecimal hmark hne hvalue => exact .inl (read_of_hexadecimal hmark hne hvalue)
  | octal hne hvalue => exact .inl (read_of_octal hne hvalue)

/-- The integer of a token without a sign is the one that its numeral denotes, and every
numeral is read that is not too long in decimal digits.  Whatever else is read is spelled
loosely. -/
theorem read_eq_ok_denotes {line : Text} {tokens : List Token} {token : Token}
    (hline : Token.ofLine line = .ok tokens) (htoken : token ∈ tokens)
    (hsign : ∀ point ∈ token.text.head?, point ≠ .scalar '+' ∧ point ≠ .scalar '-')
    (value : Nat) :
    (read token.text = .ok value → Denotes token.text value ∨ Loose token.text) ∧
      (Denotes token.text value → read token.text = .ok value ∨
        Numeral.decimalLimit < token.text.length ∧
          read token.text = .error (.mismatch "an integer" token.text)) := by
  refine ⟨fun hread => ?_, Denotes.read_eq⟩
  by_cases hplain : Loose token.text
  · exact .inr hplain
  · exact .inl (denotes_of_read (Token.proper_of_ofLine hline token htoken) hsign hplain hread)

/-- A numeral in hexadecimal, and one in binary, which is no numeral here. -/
theorem read_eq_ok_denotes_words :
    Token.ofLine "0x1F 0b11" = .ok [.word "0x1F", .word "0b11"] ∧
      Denotes "0x1F" 31 ∧ read "0x1F" = .ok 31 ∧ read "0b11" = .ok 3 ∧ Loose "0b11" := by
  have hline : Token.ofLine "0x1F 0b11" = .ok [.word "0x1F", .word "0b11"] := by
    with_unfolding_all rfl
  have hfirst : Token.word "0x1F" ∈ [Token.word "0x1F", .word "0b11"] := by decide
  have hsecond : Token.word "0b11" ∈ [Token.word "0x1F", .word "0b11"] := by decide
  have hdenotes : Denotes "0x1F" 31 := .hexadecimal (.inl rfl) (by decide) (by decide)
  have hbinary : read "0b11" = .ok 3 := rfl
  have hother : ¬Denotes "0b11" 3 := by
    intro hbad
    cases hbad with
    | decimal hne hhead => exact hhead rfl
    | hexadecimal hmark => exact absurd hmark (by decide)
    | octal hne hvalue => contradiction
  obtain ⟨-, hread⟩ := read_eq_ok_denotes hline hfirst (by decide) 31
  obtain ⟨hknown, -⟩ := read_eq_ok_denotes hline hsecond (by decide) 3
  exact ⟨hline, hdenotes, (hread hdenotes).resolve_right fun hlong => absurd hlong.1 (by decide),
    hbinary, (hknown hbinary).resolve_left hother⟩

/-- An underscore between digits is passed over. -/
theorem not_read_eq_ok_denotes :
    ¬∀ (line : Text) (tokens : List Token), Token.ofLine line = .ok tokens →
      ∀ token ∈ tokens,
        (∀ point ∈ token.text.head?, point ≠ .scalar '+' ∧ point ≠ .scalar '-') →
          ∀ value, read token.text = .ok value ↔ Denotes token.text value := by
  intro hall
  have hline : Token.ofLine "1_0" = .ok [.word "1_0"] := by with_unfolding_all rfl
  have hread : read "1_0" = .ok 10 := rfl
  have hdenotes : Denotes "1_0" 10 :=
    (hall _ _ hline _ (List.mem_singleton_self _) (by decide) 10).mp hread
  cases hdenotes with
  | decimal hne hhead hvalue => contradiction

end DeviceCode

end KeyLayout
