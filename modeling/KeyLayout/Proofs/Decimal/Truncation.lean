import KeyLayout.Decimal.Binary64
import KeyLayout.Numeral
import Mathlib.Algebra.Order.Ring.Nat
import Mathlib.Data.Nat.Digits.Lemmas

namespace KeyLayout.Binary64

/-! The integer part of a number that is read from a decimal has few digits.  The exponents
in its bound stay variables up to the end, so that no power is computed. -/

variable {negative : Bool} {numerator denominator digits bound reach limit : Nat}
  {exponent value : Int}

theorem natPower_le {base : Nat} (hbase : 0 < base) (hexponent : exponent ≤ limit) :
    natPower base exponent ≤ base ^ limit :=
  Nat.pow_le_pow_right hbase (by omega)

theorem natPower_pos {base : Nat} (hbase : 0 < base) (exponent : Int) :
    0 < natPower base exponent :=
  Nat.pow_pos hbase

theorem roundQuotient_le (numerator denominator : Nat) :
    roundQuotient numerator denominator ≤ numerator / denominator + 1 := by
  rw [roundQuotient]
  split
  next => omega
  split
  next => omega
  next => omega

theorem leastExponent_le_exponentFor (numerator denominator : Nat) :
    leastExponent ≤ exponentFor numerator denominator := by
  have hraise (exponent : Int) :
      leastExponent ≤ if exponent < leastExponent then leastExponent else exponent := by
    split
    next => exact Int.le_refl _
    next hless => exact Int.not_lt.mp hless
  exact hraise _

theorem roundQuotient_scaled_le (hdenominator : 0 < denominator)
    (hquotient : numerator ≤ bound * denominator) (hreach : -exponent ≤ reach) :
    roundQuotient (numerator * natPower 2 (-exponent)) (denominator * natPower 2 exponent) ≤
      bound * 2 ^ reach + 1 := by
  have hscale : natPower 2 (-exponent) ≤ 2 ^ reach := natPower_le (by decide) hreach
  have hshrink : denominator ≤ denominator * natPower 2 exponent :=
    Nat.le_mul_of_pos_right _ (natPower_pos (by decide) exponent)
  calc roundQuotient (numerator * natPower 2 (-exponent)) (denominator * natPower 2 exponent)
      ≤ numerator * natPower 2 (-exponent) / (denominator * natPower 2 exponent) + 1 :=
        roundQuotient_le _ _
    _ ≤ numerator * natPower 2 (-exponent) / denominator + 1 :=
        Nat.succ_le_succ (Nat.div_le_div_left hshrink hdenominator)
    _ ≤ bound * denominator * 2 ^ reach / denominator + 1 :=
        Nat.succ_le_succ (Nat.div_le_div_right (Nat.mul_le_mul hquotient hscale))
    _ = bound * 2 ^ reach + 1 := by
        rw [Nat.mul_right_comm, Nat.mul_div_cancel _ hdenominator]

theorem natAbs_truncate_finite_le {mantissa : Nat} (hlimit : exponent ≤ limit)
    (hvalue : (finite negative mantissa exponent).truncate? = some value) :
    value.natAbs ≤ mantissa * 2 ^ limit := by
  have hwhole : mantissa * natPower 2 exponent / natPower 2 (-exponent) ≤ mantissa * 2 ^ limit :=
    (Nat.div_le_self _ _).trans (Nat.mul_le_mul_left _ (natPower_le (by decide) hlimit))
  rw [truncate?] at hvalue
  cases hvalue
  rw [← Int.natCast_mul, ← Int.natCast_ediv]
  split
  next => rwa [Int.natAbs_neg, Int.natAbs_natCast]
  next => rwa [Int.natAbs_natCast]

theorem natAbs_truncate_limited_le {mantissa : Nat} (hlimit : greatestExponent ≤ limit)
    (hvalue : (limited negative mantissa exponent).truncate? = some value) :
    value.natAbs ≤ mantissa * 2 ^ limit := by
  rw [limited] at hvalue
  split at hvalue
  next => contradiction
  next hfits => exact natAbs_truncate_finite_le ((Int.not_lt.mp hfits).trans hlimit) hvalue

theorem natAbs_truncate_ofRounded_le {mantissa : Nat} (hlimit : greatestExponent ≤ limit)
    (hvalue : (ofRounded negative mantissa exponent).truncate? = some value) :
    value.natAbs ≤ mantissa * 2 ^ limit := by
  rw [ofRounded] at hvalue
  split at hvalue
  next =>
    exact (natAbs_truncate_limited_le hlimit hvalue).trans
      (Nat.mul_le_mul_right _ (Nat.div_le_self _ _))
  next => exact natAbs_truncate_limited_le hlimit hvalue

theorem natAbs_truncate_ofQuotient_le (hdenominator : 0 < denominator)
    (hquotient : numerator ≤ bound * denominator) (hreach : -leastExponent ≤ reach)
    (hlimit : greatestExponent ≤ limit)
    (hvalue : (ofQuotient negative numerator denominator).truncate? = some value) :
    value.natAbs ≤ (bound * 2 ^ reach + 1) * 2 ^ limit := by
  have hleast := leastExponent_le_exponentFor numerator denominator
  have hexponent : -exponentFor numerator denominator ≤ reach := by omega
  rw [ofQuotient] at hvalue
  exact (natAbs_truncate_ofRounded_le hlimit hvalue).trans
    (Nat.mul_le_mul_right _ (roundQuotient_scaled_le hdenominator hquotient hexponent))

theorem digits_mul_natPower_le
    (hmagnitude : (Nat.toDigits 10 digits).length + exponent ≤ bound) :
    digits * natPower 10 exponent ≤ 10 ^ bound * natPower 10 (-exponent) := by
  have hlength : 0 < (Nat.toDigits 10 digits).length :=
    List.length_pos_iff.mpr Nat.toDigits_ne_nil
  have hdigits : digits < 10 ^ (Nat.toDigits 10 digits).length :=
    (Nat.length_toDigits_le_iff (by decide) hlength).mp (Nat.le_refl _)
  change digits * 10 ^ exponent.toNat ≤ 10 ^ bound * 10 ^ (-exponent).toNat
  calc digits * 10 ^ exponent.toNat
      ≤ 10 ^ (Nat.toDigits 10 digits).length * 10 ^ exponent.toNat :=
        Nat.mul_le_mul_right _ hdigits.le
    _ = 10 ^ ((Nat.toDigits 10 digits).length + exponent.toNat) := (Nat.pow_add ..).symm
    _ ≤ 10 ^ (bound + (-exponent).toNat) := Nat.pow_le_pow_right (by decide) (by omega)
    _ = 10 ^ bound * 10 ^ (-exponent).toNat := Nat.pow_add ..

theorem scaled_lt {total : Nat} (htotal : bound + reach + limit + 1 < total) :
    (10 ^ bound * 2 ^ reach + 1) * 2 ^ limit < 10 ^ total := by
  have hpower (power : Nat) : 2 ^ power ≤ 10 ^ power := Nat.pow_le_pow_left (by decide) power
  have hone : 1 ≤ 10 ^ (bound + reach) := Nat.pow_pos (by decide)
  calc (10 ^ bound * 2 ^ reach + 1) * 2 ^ limit
      ≤ (10 ^ bound * 10 ^ reach + 1) * 10 ^ limit :=
        Nat.mul_le_mul (Nat.succ_le_succ (Nat.mul_le_mul_left _ (hpower reach))) (hpower limit)
    _ = (10 ^ (bound + reach) + 1) * 10 ^ limit := by rw [← Nat.pow_add]
    _ ≤ 10 ^ (bound + reach + 1) * 10 ^ limit :=
        Nat.mul_le_mul_right _ (by rw [Nat.pow_succ]; omega)
    _ = 10 ^ (bound + reach + 1 + limit) := (Nat.pow_add ..).symm
    _ < 10 ^ total := Nat.pow_lt_pow_right (by decide) (by omega)

theorem natAbs_truncate_ofDecimal_lt
    (hvalue : (ofDecimal negative digits exponent).truncate? = some value) :
    value.natAbs < 10 ^ Numeral.decimalLimit := by
  obtain ⟨width, hwidth, hwidthLess⟩ : ∃ width : Nat, decimalReach = width ∧ width ≤ 400 :=
    ⟨400, rfl, Nat.le_refl _⟩
  obtain ⟨reach, hreach, hreachLess⟩ : ∃ reach : Nat, -leastExponent ≤ reach ∧ reach ≤ 1074 :=
    ⟨1074, by decide, Nat.le_refl _⟩
  obtain ⟨limit, hlimit, hlimitLess⟩ : ∃ limit : Nat, greatestExponent ≤ limit ∧ limit ≤ 971 :=
    ⟨971, by decide, Nat.le_refl _⟩
  obtain ⟨total, htotal, htotalMore⟩ : ∃ total : Nat, Numeral.decimalLimit = total ∧ 4300 ≤ total :=
    ⟨4300, rfl, Nat.le_refl _⟩
  rw [htotal]
  rw [ofDecimal, hwidth] at hvalue
  split at hvalue
  next =>
    have hleast : leastExponent ≤ (0 : Nat) := by decide
    have hzero := natAbs_truncate_finite_le hleast hvalue
    rw [Nat.zero_mul] at hzero
    exact Nat.lt_of_le_of_lt hzero (Nat.pow_pos (by decide))
  split at hvalue
  next => contradiction
  next hmagnitude =>
    have hquotient := digits_mul_natPower_le (Int.not_lt.mp hmagnitude)
    have hvalueLess := natAbs_truncate_ofQuotient_le (natPower_pos (by decide) _) hquotient hreach
      hlimit hvalue
    exact Nat.lt_of_le_of_lt hvalueLess (scaled_lt (by omega))

end KeyLayout.Binary64
