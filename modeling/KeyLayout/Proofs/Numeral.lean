import KeyLayout.Numeral
import KeyLayout.Proofs.Text.Digit

namespace KeyLayout.Numeral

/-! The integer of a decimal numeral has no more digits than can be written.  Where a
numeral has neither underscores nor digits of other scripts, it is read digit by digit. -/

variable {base total : Nat} {text : Text} {digits : List Nat} {value : Int} {point : CodePoint}

theorem one_lt_pow_decimalLimit : 1 < 10 ^ decimalLimit := by
  have hlimit : decimalLimit ≠ 0 := by decide
  -- the power is not to be computed
  generalize decimalLimit = limit at hlimit ⊢
  exact Nat.one_lt_pow hlimit (by decide)

theorem lt_of_digits? (hdigits : digits? base text = some digits) :
    ∀ digit ∈ digits, digit < base := by
  induction text using digits?.induct generalizing digits with
  | case1 => contradiction
  | case2 point =>
      obtain ⟨digit, hdigit, rfl⟩ := Option.map_eq_some_iff.mp hdigits
      exact List.forall_mem_singleton.mpr (Text.lt_of_digitValue? hdigit)
  | case3 point rest ih =>
      obtain ⟨digit, hdigit, hothers⟩ := Option.bind_eq_some_iff.mp hdigits
      obtain ⟨others, hrest, heq⟩ := Option.bind_eq_some_iff.mp hothers
      cases heq
      exact List.forall_mem_cons.mpr ⟨Text.lt_of_digitValue? hdigit, ih hrest⟩
  | case4 point rest hnil hunderscore ih =>
      rw [digits?.eq_4 base point rest hnil hunderscore] at hdigits
      obtain ⟨digit, hdigit, hothers⟩ := Option.bind_eq_some_iff.mp hdigits
      obtain ⟨others, hrest, heq⟩ := Option.bind_eq_some_iff.mp hothers
      cases heq
      exact List.forall_mem_cons.mpr ⟨Text.lt_of_digitValue? hdigit, ih hrest⟩

theorem value_lt (hdigits : ∀ digit ∈ digits, digit < base) :
    Numeral.value base digits < base ^ digits.length := by
  induction digits using List.reverseRecOn with
  | nil => exact Nat.zero_lt_one
  | append_singleton digits digit ih =>
      obtain ⟨hinit, hlast⟩ := List.forall_mem_append.mp hdigits
      rw [Numeral.value, List.foldl_append, List.length_append, List.length_singleton]
      exact Text.mul_add_lt_pow (ih hinit) (hlast digit (List.mem_singleton_self digit))

theorem lt_of_decimal? (hdecimal : decimal? text = some total) : total < 10 ^ decimalLimit := by
  obtain ⟨digits, hdigits, hlimit⟩ := Option.bind_eq_some_iff.mp hdecimal
  split at hlimit
  next hlength =>
    cases hlimit
    exact Nat.lt_of_lt_of_le (value_lt (lt_of_digits? hdigits))
      (Nat.pow_le_pow_right (by decide) hlength)
  next => contradiction

theorem natAbs_lt_of_signed? {read : Text → Option Nat} {limit : Nat}
    (hread : ∀ {text total}, read text = some total → total < limit)
    (hvalue : signed? read text = some value) : value.natAbs < limit := by
  unfold signed? at hvalue
  split at hvalue
  next =>
    obtain ⟨total, htotal, rfl⟩ := Option.map_eq_some_iff.mp hvalue
    rw [Int.natAbs_neg]
    exact hread htotal
  next =>
    obtain ⟨total, htotal, rfl⟩ := Option.map_eq_some_iff.mp hvalue
    exact hread htotal
  next =>
    obtain ⟨total, htotal, rfl⟩ := Option.map_eq_some_iff.mp hvalue
    exact hread htotal

theorem natAbs_lt_of_decimalInteger? (hinteger : decimalInteger? text = some value) :
    value.natAbs < 10 ^ decimalLimit :=
  natAbs_lt_of_signed? lt_of_decimal? hinteger

theorem length_of_digits? (hplain : .scalar '_' ∉ text) (hdigits : digits? base text = some digits) :
    digits.length = text.length := by
  induction text using digits?.induct generalizing digits with
  | case1 => contradiction
  | case2 point =>
      obtain ⟨digit, -, rfl⟩ := Option.map_eq_some_iff.mp hdigits
      rfl
  | case3 point rest => simp at hplain
  | case4 point rest hnil hunderscore ih =>
      rw [digits?.eq_4 base point rest hnil hunderscore] at hdigits
      obtain ⟨digit, -, hothers⟩ := Option.bind_eq_some_iff.mp hdigits
      obtain ⟨others, hrest, heq⟩ := Option.bind_eq_some_iff.mp hothers
      cases heq
      rw [List.length_cons, List.length_cons, ih (fun hmem => hplain (List.mem_cons_of_mem _ hmem)) hrest]

theorem map_foldl_digits? (hne : text ≠ []) (hplain : .scalar '_' ∉ text) (total : Nat) :
    (digits? base text).map (·.foldl (fun total digit => total * base + digit) total) =
      text.foldlM (fun total point => (point.digitValue? base).map (total * base + ·)) total := by
  induction text using digits?.induct generalizing total with
  | case1 => contradiction
  | case2 point =>
      rw [digits?, List.foldlM_cons]
      cases point.digitValue? base <;> rfl
  | case3 point rest => simp at hplain
  | case4 point rest hnil hunderscore ih =>
      have hrest := ih hnil (fun hmem => hplain (List.mem_cons_of_mem _ hmem))
      rw [digits?.eq_4 base point rest hnil hunderscore, List.foldlM_cons]
      cases point.digitValue? base with
      | none => rfl
      | some digit =>
          rw [Option.map_some]
          change _ = List.foldlM _ (total * base + digit) rest
          rw [← hrest (total * base + digit)]
          cases digits? base rest <;> rfl

theorem map_value_digits? (hne : text ≠ []) (hplain : .scalar '_' ∉ text) :
    (digits? base text).map (Numeral.value base) = text.digitsValue? base :=
  map_foldl_digits? hne hplain 0

theorem unifyDigits_eq_self (hascii : ∀ point ∈ text, point.decimalValue?.isSome = true →
      point.isAsciiDigit = true) : unifyDigits text = text := by
  refine (List.map_congr_left fun point hpoint => ?_).trans (List.map_id text)
  cases hvalue : point.decimalValue? with
  | none => rfl
  | some value =>
      have hdigit := hascii point hpoint (Option.isSome_of_eq_some hvalue)
      have hown := CodePoint.decimalValue?_of_isAsciiDigit hdigit
      rw [hvalue, Option.some.injEq] at hown
      simp only [CodePoint.isAsciiDigit, Bool.and_eq_true, decide_eq_true_eq] at hdigit
      cases point with
      | scalar character =>
          have hsum : 0x30 + value = character.toNat := by
            rw [CodePoint.toNat] at hown hdigit
            omega
          change CodePoint.scalar (Char.ofNat (0x30 + value)) = .scalar character
          rw [hsum, Char.ofNat_toNat]
      | surrogate offset =>
          rw [CodePoint.toNat] at hdigit
          omega

theorem trimMargin_eq_self (hfirst : ∀ point ∈ text.head?, point.isBlank = false)
    (hlast : ∀ point ∈ text.getLast?, point.isBlank = false) : trimMargin text = text := by
  have hkeeps {own : Text} (hown : ∀ point ∈ own.head?, point.isBlank = false) :
      own.dropWhile isMargin = own := by
    cases own with
    | nil => rfl
    | cons point rest =>
        rw [List.dropWhile_cons_of_neg]
        simp [isMargin, hown point rfl]
  rw [trimMargin, hkeeps hfirst, hkeeps, List.reverse_reverse]
  rwa [List.head?_reverse]

theorem decimal?_of_plain (hne : text ≠ []) (hplain : .scalar '_' ∉ text) :
    decimal? text = if text.length ≤ decimalLimit then text.digitsValue? 10 else none := by
  rw [← map_value_digits? hne hplain, decimal?]
  cases hdigits : digits? 10 text with
  | none => exact (ite_self none).symm
  | some digits =>
      rw [← length_of_digits? hplain hdigits]
      rfl

theorem signed?_of_unsigned (read : Text → Option Nat)
    (hsign : ∀ point ∈ text.head?, point ≠ .scalar '+' ∧ point ≠ .scalar '-') :
    signed? read text = (read text).map Int.ofNat := by
  rw [signed?]
  · rintro rest rfl
    exact (hsign _ rfl).2 rfl
  · rintro rest rfl
    exact (hsign _ rfl).1 rfl

/-- A text without a margin, a sign or digits of other scripts is read as it stands. -/
theorem prefixedInteger?_eq_map (hfirst : ∀ point ∈ text.head?, point.isBlank = false)
    (hlast : ∀ point ∈ text.getLast?, point.isBlank = false)
    (hascii : ∀ point ∈ text, point.decimalValue?.isSome = true → point.isAsciiDigit = true)
    (hsign : ∀ point ∈ text.head?, point ≠ .scalar '+' ∧ point ≠ .scalar '-') :
    prefixedInteger? text = (prefixed? text).map Int.ofNat := by
  rw [prefixedInteger?, trimMargin_eq_self hfirst hlast, unifyDigits_eq_self hascii,
    signed?_of_unsigned _ hsign]

theorem dropUnderscore_of_plain (hplain : .scalar '_' ∉ text) : dropUnderscore text = text := by
  rw [dropUnderscore]
  rintro rest rfl
  exact hplain (List.mem_cons_self ..)

theorem announcedBase?_eq_sixteen_iff :
    announcedBase? point = some 16 ↔ point = .scalar 'x' ∨ point = .scalar 'X' := by
  constructor
  · intro hbase
    unfold announcedBase? at hbase
    split at hbase <;> simp_all
  · rintro (rfl | rfl) <;> rfl

theorem isLeadingZero_iff : isLeadingZero text = true ↔
    ∃ digits : Text, digits ≠ [] ∧ text = .scalar '0' :: digits ∧
      ∀ point ∈ digits, point.isAsciiDigit = true := by
  constructor
  · intro hzero
    unfold isLeadingZero at hzero
    split at hzero
    next point rest => exact ⟨point :: rest, by simp, rfl, List.all_eq_true.mp hzero⟩
    next => contradiction
  · rintro ⟨digits, hne, rfl, hdigits⟩
    obtain ⟨point, rest, rfl⟩ := List.exists_cons_of_ne_nil hne
    exact List.all_eq_true.mpr hdigits

theorem prefixed?_of_head? (hhead : text.head? ≠ some (.scalar '0')) :
    prefixed? text = decimal? text := by
  rw [prefixed?]
  rintro letter rest rfl
  exact hhead rfl

end KeyLayout.Numeral
