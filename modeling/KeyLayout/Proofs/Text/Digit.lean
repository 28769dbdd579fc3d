import KeyLayout.Text.Blank
import KeyLayout.Text.Digit
import KeyLayout.Text.Quoted
import Mathlib.Algebra.Group.Nat.Defs
import Mathlib.Data.List.Induction

namespace KeyLayout

/-! Digits that are written stand for the number that they were written for. -/

namespace CodePoint

variable {base value : Nat} {point : CodePoint}

theorem digitValue?_eq_some_iff : point.digitValue? base = some value ↔
    point.alphanumericValue? = some value ∧ value < base := by
  rw [digitValue?, Option.filter_eq_some_iff, decide_eq_true_eq]

theorem isAsciiDigit_of_alphanumericValue? (hvalue : point.alphanumericValue? = some value)
    (hsmall : value < 10) : point.isAsciiDigit = true := by
  simp only [alphanumericValue?, Bool.and_eq_true, decide_eq_true_eq] at hvalue
  split at hvalue
  next hdigit => simpa [isAsciiDigit] using hdigit
  next =>
    split at hvalue
    next =>
      have hlarge := Option.some.inj hvalue
      omega
    next =>
      split at hvalue
      next =>
        have hlarge := Option.some.inj hvalue
        omega
      next => contradiction

theorem toNat_of_alphanumericValue? (hvalue : point.alphanumericValue? = some value) :
    0x30 ≤ point.toNat ∧ point.toNat < 0x80 := by
  simp only [alphanumericValue?, Bool.and_eq_true, decide_eq_true_eq] at hvalue
  grind

theorem isBlank_of_alphanumericValue? (hvalue : point.alphanumericValue? = some value) :
    point.isBlank = false := by
  rw [← Bool.not_eq_true, isBlank, List.any_eq_true]
  rintro ⟨range, hrange, hwithin⟩
  simp only [Bool.and_eq_true, decide_eq_true_eq] at hwithin
  have hpoint := toNat_of_alphanumericValue? hvalue
  have hapart : ∀ range ∈ Text.blankRanges, range.2 < 0x30 ∨ 0x80 ≤ range.1 := by decide
  have hown := hapart range hrange
  omega

/-- No script but that of ASCII has its digits there. -/
theorem isAsciiDigit_of_decimalValue? (hsmall : point.toNat < 0x80)
    (hvalue : point.decimalValue? = some value) : point.isAsciiDigit = true := by
  obtain ⟨first, hfirst, -⟩ := Option.map_eq_some_iff.mp hvalue
  have hrange := List.find?_some hfirst
  simp only [Bool.and_eq_true, decide_eq_true_eq] at hrange
  have honly : ∀ start ∈ Text.decimalZeros, start < 0x80 → start = 0x30 := by decide
  have hzero := honly first (List.mem_of_find?_eq_some hfirst) (by omega)
  rw [isAsciiDigit, Bool.and_eq_true, decide_eq_true_eq, decide_eq_true_eq]
  omega

theorem decimalValue?_of_isAsciiDigit (hdigit : point.isAsciiDigit = true) :
    point.decimalValue? = some (point.toNat - 0x30) := by
  simp only [isAsciiDigit, Bool.and_eq_true, decide_eq_true_eq] at hdigit
  have hfind : (Text.decimalZeros.find? fun first =>
      first ≤ point.toNat && point.toNat < first + 10) = some 0x30 := by
    rw [Text.decimalZeros, List.find?_cons_of_pos]
    simp only [Bool.and_eq_true, decide_eq_true_eq]
    omega
  rw [decimalValue?, hfind]
  rfl

end CodePoint

namespace Text

variable {base value : Nat}

theorem digitValue?_digitChar (hbase : base ≤ 16) (hvalue : value < base) :
    (CodePoint.scalar value.digitChar).digitValue? base = some value := by
  have hdigit : ∀ digit < 16,
      (CodePoint.scalar (Nat.digitChar digit)).alphanumericValue? = some digit := by decide
  rw [CodePoint.digitValue?, hdigit value (by omega)]
  simp [hvalue]

theorem digitsValue?_concat (text : Text) (point : CodePoint) :
    digitsValue? base (text ++ [point]) = (digitsValue? base text).bind fun total =>
      (point.digitValue? base).map (total * base + ·) := by
  rw [digitsValue?, List.foldlM_append]
  simp only [List.foldlM_cons, List.foldlM_nil, bind_pure]
  rfl

theorem lt_of_digitValue? {point : CodePoint} (hdigit : point.digitValue? base = some value) :
    value < base :=
  of_decide_eq_true (Option.filter_eq_some_iff.mp hdigit).2

theorem exists_of_digitsValue? (hvalue : digitsValue? base text = some value) :
    ∀ point ∈ text, ∃ digit < base, point.alphanumericValue? = some digit := by
  induction text using List.reverseRecOn generalizing value with
  | nil => exact List.forall_mem_nil _
  | append_singleton text point ih =>
      rw [digitsValue?_concat] at hvalue
      obtain ⟨total, htotal, hlast⟩ := Option.bind_eq_some_iff.mp hvalue
      obtain ⟨digit, hdigit, -⟩ := Option.map_eq_some_iff.mp hlast
      obtain ⟨hown, hsmall⟩ := CodePoint.digitValue?_eq_some_iff.mp hdigit
      exact List.forall_mem_append.mpr
        ⟨ih htotal, List.forall_mem_singleton.mpr ⟨digit, hsmall, hown⟩⟩

theorem isAsciiDigit_of_digitsValue? (hbase : base ≤ 10)
    (hvalue : digitsValue? base text = some value) :
    ∀ point ∈ text, point.isAsciiDigit = true := by
  intro point hpoint
  obtain ⟨digit, hsmall, hdigit⟩ := exists_of_digitsValue? hvalue point hpoint
  exact CodePoint.isAsciiDigit_of_alphanumericValue? hdigit (Nat.lt_of_lt_of_le hsmall hbase)

/-- One digit more makes a number less than the base times as large. -/
theorem mul_add_lt_pow {total digit length : Nat} (htotal : total < base ^ length)
    (hdigit : digit < base) : total * base + digit < base ^ (length + 1) := by
  calc total * base + digit
      < total * base + base := Nat.add_lt_add_left hdigit _
    _ = (total + 1) * base := (Nat.succ_mul total base).symm
    _ ≤ base ^ length * base := Nat.mul_le_mul_right _ htotal
    _ = base ^ (length + 1) := (Nat.pow_succ ..).symm

theorem lt_of_digitsValue? {text : Text} (hvalue : digitsValue? base text = some value) :
    value < base ^ text.length := by
  induction text using List.reverseRecOn generalizing value with
  | nil =>
      cases hvalue
      exact Nat.zero_lt_one
  | append_singleton text point ih =>
      rw [digitsValue?_concat] at hvalue
      obtain ⟨total, htotal, hlast⟩ := Option.bind_eq_some_iff.mp hvalue
      obtain ⟨digit, hdigit, rfl⟩ := Option.map_eq_some_iff.mp hlast
      rw [List.length_append, List.length_singleton]
      exact mul_add_lt_pow (ih htotal) (lt_of_digitValue? hdigit)

theorem digitsValue?_toDigits (hlow : 1 < base) (hhigh : base ≤ 16) (value : Nat) :
    digitsValue? base ((Nat.toDigits base value).map .scalar) = some value := by
  induction value using Nat.strongRecOn with
  | ind value ih =>
      by_cases hvalue : value < base
      · rw [Nat.toDigits_of_lt_base hvalue]
        change digitsValue? base ([] ++ [.scalar value.digitChar]) = _
        rw [digitsValue?_concat, digitValue?_digitChar hhigh hvalue]
        simp [digitsValue?]
      · have hmod : value % base < base := Nat.mod_lt _ (by omega)
        rw [Nat.toDigits_of_base_le hlow (Nat.le_of_not_lt hvalue), List.map_append, List.map_cons,
          List.map_nil, digitsValue?_concat, ih _ (Nat.div_lt_self (by omega) hlow),
          digitValue?_digitChar hhigh hmod]
        exact congrArg some (Nat.div_add_mod' value base)

theorem digitsValue?_zeros (hbase : 0 < base) (count : Nat) (text : Text) :
    digitsValue? base (List.replicate count (.scalar '0') ++ text) = digitsValue? base text := by
  have hzero : (CodePoint.scalar '0').digitValue? base = some 0 := by
    rw [CodePoint.digitValue?, show (CodePoint.scalar '0').alphanumericValue? = some 0 from rfl]
    simp [hbase]
  induction count with
  | zero => rfl
  | succ count ih =>
      rw [← ih, List.replicate_succ, List.cons_append, digitsValue?, List.foldlM_cons, hzero]
      simp [digitsValue?]

theorem digitsValue?_paddedHex (width value : Nat) :
    digitsValue? 16 (paddedHex width value) = some value := by
  rw [paddedHex, digitsValue?_zeros (by decide)]
  exact digitsValue?_toDigits (by decide) (by decide) value

theorem length_paddedHex {width : Nat} (hwidth : 0 < width) (hvalue : value < 16 ^ width) :
    (paddedHex width value).length = width := by
  have hlength := (Nat.length_toDigits_le_iff (by decide) hwidth).mpr hvalue
  simp only [paddedHex, hexOfNat, List.length_append, List.length_replicate, List.length_map]
  omega

theorem ofNat_eq (value : Nat) : ofNat value = (Nat.toDigits 10 value).map .scalar := by
  rw [ofNat, ofString, Nat.toString_eq_ofList_toDigits, String.toList_ofList]

theorem isAsciiDigit_of_mem_ofNat {point : CodePoint} (hpoint : point ∈ ofNat value) :
    point.isAsciiDigit = true := by
  rw [ofNat_eq] at hpoint
  obtain ⟨character, hcharacter, rfl⟩ := List.mem_map.mp hpoint
  have hdigit := Nat.isDigit_of_mem_toDigits (by decide) (by decide) hcharacter
  obtain ⟨hlow, hhigh⟩ := Char.isDigit_iff_toNat.mp hdigit
  exact Bool.and_eq_true_iff.mpr ⟨decide_eq_true hlow, decide_eq_true hhigh⟩

theorem digitsValue?_ofNat (value : Nat) : digitsValue? 10 (ofNat value) = some value := by
  rw [ofNat_eq]
  exact digitsValue?_toDigits (by decide) (by decide) value

theorem length_ofNat_le_iff {count : Nat} (hcount : 0 < count) :
    (ofNat value).length ≤ count ↔ value < 10 ^ count := by
  rw [ofNat_eq, List.length_map]
  exact Nat.length_toDigits_le_iff (by decide) hcount

/-- Only zero is written with a zero in front. -/
theorem head?_ofNat_ne (hvalue : 0 < value) : (ofNat value).head? ≠ some (.scalar '0') := by
  induction value using Nat.strongRecOn with
  | ind value ih =>
      rw [ofNat_eq]
      by_cases hless : value < 10
      · rw [Nat.toDigits_of_lt_base hless]
        have hdigit : ∀ digit < 10, 0 < digit → Nat.digitChar digit ≠ '0' := by decide
        simpa using hdigit value hless hvalue
      · have hrest := ih (value / 10) (Nat.div_lt_self hvalue (by decide)) (by omega)
        rw [ofNat_eq] at hrest
        rw [Nat.toDigits_of_base_le (by decide) (Nat.le_of_not_lt hless), List.map_append,
          List.head?_append]
        obtain ⟨digit, others, hdigits⟩ :=
          List.exists_cons_of_ne_nil (Nat.toDigits_ne_nil (n := value / 10) (b := 10))
        rw [hdigits] at hrest ⊢
        exact hrest

end Text

end KeyLayout
