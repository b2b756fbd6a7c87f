import Lexing.Proofs.Nearest

/-!
# Numbers are rounded correctly

A binary64 number has a sign, an exponent and a significand, and these make its value. The value
that a numeral writes is rounded to the number that is nearest to it among all finite numbers,
whatever their signs. If two are as near, the one with the even significand is taken. From the middle
between the greatest finite value and the next power of two on, there are only infinities.

The magnitude of the answer is known to be nearest among magnitudes. Numbers with the other sign lie
on the other side of zero, so they are no nearer than zero is.
-/

namespace Lexing

namespace Binary64

variable {q : ℚ}

/-! ## Decimal numbers -/

theorem units_zero : (units 0 : ℚ) = 0 := by exact_mod_cast units_of_lt (by decide)

/-- Half a unit and less is rounded to zero. -/
theorem nearestTo_zero (hle : 0 ≤ q) (hhalf : q ≤ 1 / 2) : NearestTo 0 q := by
  have hone : (units (0 + 1) : ℚ) = 1 := by exact_mod_cast units_of_lt (by decide)
  refine nearestTo_lower ?_ ?_ fun _ => rfl
  · rw [units_zero]
    exact hle
  · rw [units_zero, hone]
    linarith

theorem one_half_lt_overflow : (1 / 2 : ℚ) < overflow * unitsOfOne := by
  have hmiddle := units_infinity_add
  have hone : (1 : ℚ) ≤ units infinity := by
    exact_mod_cast (Nat.zero_lt_of_lt (units_strictMono (by decide : 0 < (infinity : Nat))))
  have hgreatest : (1 : ℚ) ≤ units (infinity - 1) := by
    exact_mod_cast (Nat.zero_lt_of_lt (units_strictMono (by decide : 0 < (infinity : Nat) - 1)))
  linarith

theorem roundsTo_zero (hle : 0 ≤ q) (hhalf : q ≤ 1 / 2) : RoundsTo 0 q where
  infinite hq := absurd (hhalf.trans_lt one_half_lt_overflow) (not_lt.mpr hq)
  finite _ := ⟨by decide, nearestTo_zero hle hhalf⟩

/-- From `10 ^ 309` on there are only infinities. -/
theorem overflow_le {digits power : Nat} (hdigits : digits ≠ 0) (hpower : 309 ≤ power) :
    overflow ≤ digits * 10 ^ power := by
  have hnat : 2 ^ 1024 ≤ 10 ^ 309 := by decide +kernel
  have hbase : (2 ^ 1024 : ℚ) ≤ 10 ^ 309 := by
    simpa only [Nat.cast_pow, Nat.cast_ofNat] using (Nat.cast_le (α := ℚ)).mpr hnat
  have hpow : (10 : ℚ) ^ 309 ≤ 10 ^ power := pow_le_pow_right₀ (by norm_num) hpower
  have hone : (1 : ℚ) ≤ digits := by exact_mod_cast Nat.one_le_iff_ne_zero.mpr hdigits
  have hnonneg : (0 : ℚ) ≤ 2 ^ 970 := by positivity
  calc overflow ≤ 2 ^ 1024 := sub_le_self _ hnonneg
    _ ≤ 10 ^ 309 := hbase
    _ ≤ 10 ^ power := hpow
    _ ≤ digits * 10 ^ power := le_mul_of_one_le_left (by positivity) hone

/-- So many places behind the point are less than half a unit. -/
theorem le_one_half {digits power : Nat} (hpower : digits.log2 + 325 ≤ power) :
    (digits / 10 ^ power * unitsOfOne : ℚ) ≤ 1 / 2 := by
  have hbase : (2 * 2 ^ 1074 * 2 : Nat) ≤ 10 ^ 325 := by decide +kernel
  have hdigits : digits ≤ 2 ^ digits.log2 * 2 := (Nat.lt_log2_self (n := digits)).le
  have hnat : digits * 2 ^ 1074 * 2 ≤ 10 ^ power := by
    calc digits * 2 ^ 1074 * 2 ≤ 2 ^ digits.log2 * 2 * 2 ^ 1074 * 2 := by gcongr
      _ = 2 ^ digits.log2 * (2 * 2 ^ 1074 * 2) := by simp only [Nat.mul_assoc]
      _ ≤ 10 ^ digits.log2 * 10 ^ 325 := by gcongr; decide
      _ = 10 ^ (digits.log2 + 325) := (pow_add _ _ _).symm
      _ ≤ 10 ^ power := Nat.pow_le_pow_right (by decide) hpower
  have hcast : (digits * 2 ^ 1074 * 2 : ℚ) ≤ 10 ^ power := by exact_mod_cast hnat
  rw [unitsOfOne, div_mul_eq_mul_div, div_le_div_iff₀ (by positivity) (by positivity), one_mul]
  exact hcast

theorem cast_pow (base exponent : Nat) :
    ((Nat.pow base exponent : Nat) : ℚ) = (base : ℚ) ^ exponent := by
  rw [Nat.pow_eq, Nat.cast_pow]

theorem cast_pow_ten (power : Nat) : ((Nat.pow 10 power : Nat) : ℚ) = 10 ^ power :=
  cast_pow 10 power

theorem cast_pow_two : ((Nat.pow 2 1074 : Nat) : ℚ) = unitsOfOne := by
  unfold unitsOfOne
  generalize 1074 = exponent
  exact cast_pow 2 exponent

theorem unitsOfOne_pos : 0 < unitsOfOne := by
  unfold unitsOfOne
  positivity

theorem roundsTo_nearest_whole (digits power : Nat) :
    RoundsTo (nearest (digits * Nat.pow 10 power * Nat.pow 2 1074) 1)
      (digits * 10 ^ power * unitsOfOne) := by
  have hrounds := roundsTo_nearest (digits * Nat.pow 10 power * Nat.pow 2 1074) Nat.one_pos
  rw [Nat.cast_one, div_one, Nat.cast_mul, Nat.cast_mul, cast_pow_ten, cast_pow_two] at hrounds
  exact hrounds

theorem roundsTo_nearest_fraction (digits power : Nat) :
    RoundsTo (nearest (digits * Nat.pow 2 1074) (Nat.pow 10 power))
      (digits / 10 ^ power * unitsOfOne) := by
  have hpos : 0 < Nat.pow 10 power := Nat.pow_pos (by decide)
  have hrounds := roundsTo_nearest (digits * Nat.pow 2 1074) hpos
  rw [Nat.cast_mul, cast_pow_ten, cast_pow_two, mul_div_right_comm] at hrounds
  exact hrounds

/-- **A decimal number is rounded as it should be**, whatever its exponent. -/
theorem roundsTo_ofDecimal (digits : Nat) (exponent : Int) :
    RoundsTo (ofDecimal digits exponent) (digits * 10 ^ exponent * unitsOfOne) := by
  unfold ofDecimal
  dsimp only
  by_cases hzero : digits = 0
  · rw [if_pos hzero, hzero, Nat.cast_zero, zero_mul, zero_mul]
    exact roundsTo_zero (le_refl 0) (by norm_num)
  rw [if_neg hzero]
  -- on each side of zero, exponents beyond some size are not computed with
  by_cases hexponent : 0 ≤ exponent
  · have hpow : (10 : ℚ) ^ exponent = 10 ^ exponent.natAbs := by
      conv_lhs => rw [← Int.natAbs_of_nonneg hexponent, zpow_natCast]
    rw [if_pos hexponent, hpow]
    split
    · rename_i hlarge
      have hle := mul_le_mul_of_nonneg_right (overflow_le hzero hlarge) unitsOfOne_pos.le
      exact ⟨fun _ => rfl, fun hq => absurd hle (not_le.mpr hq)⟩
    · exact roundsTo_nearest_whole digits exponent.natAbs
  · have hpow : (10 : ℚ) ^ exponent = (10 ^ exponent.natAbs)⁻¹ := by
      rw [← zpow_natCast, ← zpow_neg, Int.ofNat_natAbs_of_nonpos (by omega), neg_neg]
    rw [if_neg hexponent, hpow, ← div_eq_mul_inv]
    split
    · rename_i hsmall
      have hnonneg : (0 : ℚ) ≤ digits / 10 ^ exponent.natAbs := by positivity
      exact roundsTo_zero (mul_nonneg hnonneg unitsOfOne_pos.le) (le_one_half hsmall)
    · exact roundsTo_nearest_fraction digits exponent.natAbs

/-! ## Numbers with a sign -/

/-- The significand of a finite number, with the leading bit that is not stored. -/
def significand (x : Binary64) : Nat :=
  if (x.magnitude : Nat) / 2 ^ 52 = 0 then x.magnitude % 2 ^ 52 else 2 ^ 52 + x.magnitude % 2 ^ 52

/-- The power of two by which the significand of a finite number is scaled. -/
def scale (x : Binary64) : Int := max 1 ((x.magnitude : Nat) / 2 ^ 52 : Nat) - 1075

/-- The value of a finite number. -/
def toRat (x : Binary64) : ℚ := (if x.negative then -1 else 1) * (x.significand * 2 ^ x.scale)

/-- Whether the number is neither an infinity nor no number. -/
def IsFinite (x : Binary64) : Prop := x.magnitude < infinity

/-- Whether the number is none at all, which goes beyond infinity. -/
def IsNaN (x : Binary64) : Prop := infinity < x.magnitude

/-- Whether the number is a finite one with the least distance from the given value, and has an even
significand if a number with another value is as near. -/
structure IsNearest (x : Binary64) (value : ℚ) : Prop where
  isFinite : x.IsFinite
  le : ∀ y : Binary64, y.IsFinite → |x.toRat - value| ≤ |y.toRat - value|
  even : ∀ y : Binary64, y.IsFinite → y.toRat ≠ x.toRat → |y.toRat - value| = |x.toRat - value| →
    x.significand % 2 = 0

/-- Whether the number is what the given value is rounded to, up to the sign of a zero. -/
structure Rounds (x : Binary64) (value : ℚ) : Prop where
  nearest : |value| < 2 ^ 1024 - 2 ^ 970 → x.IsNearest value
  infinite : 2 ^ 1024 - 2 ^ 970 ≤ |value| → x.magnitude = infinity
  zero : |value| ≤ (2 ^ 1075)⁻¹ → (x.magnitude : Nat) = 0

/-- What a value is rounded to is always a number. -/
theorem Rounds.not_isNaN {x : Binary64} {value : ℚ} (h : x.Rounds value) : ¬x.IsNaN := by
  rcases lt_or_ge |value| (2 ^ 1024 - 2 ^ 970) with hlt | hle
  · exact lt_asymm (h.nearest hlt).isFinite
  · unfold IsNaN
    rw [h.infinite hle]
    exact lt_irrefl _

theorem significand_mod_two (x : Binary64) : x.significand % 2 = x.magnitude % 2 := by
  unfold significand
  split
  · omega
  · omega

/-- The fields of a number tell how many units it holds. -/
theorem exists_units_eq (x : Binary64) :
    ∃ shift : Nat, units x.magnitude = x.significand * 2 ^ shift ∧ x.scale = shift - 1074 := by
  obtain ⟨shift, n, hm, hlt, hlead⟩ := exists_shift x.magnitude
  have hunits := units_shift (Nat.le_of_lt hlt) hlead
  have hfields : x.significand = n ∧ x.scale = shift - 1074 := by
    unfold significand scale
    rw [hm]
    -- without a leading bit the exponent field is zero, with one it is one more than the shift
    by_cases hsmall : n < 2 ^ 52
    · obtain rfl := hlead.resolve_right (Nat.not_le.mpr hsmall)
      have hdiv : (0 * 2 ^ 52 + n) / 2 ^ 52 = 0 := by omega
      rw [if_pos hdiv, hdiv]
      omega
    · have hdiv : (shift * 2 ^ 52 + n) / 2 ^ 52 = shift + 1 := by omega
      rw [if_neg (by omega), hdiv]
      omega
  exact ⟨shift, by rw [hm, hunits, hfields.1], hfields.2⟩

theorem toRat_eq (x : Binary64) :
    x.toRat = (if x.negative then -1 else 1) * (units x.magnitude / unitsOfOne) := by
  obtain ⟨shift, hunits, hscale⟩ := exists_units_eq x
  have hpow : (2 : ℚ) ^ ((shift : Int) - (1074 : Nat)) = 2 ^ shift / unitsOfOne := by
    unfold unitsOfOne
    rw [zpow_sub₀ two_ne_zero, zpow_natCast, zpow_natCast]
  rw [toRat, hscale, hunits, Nat.cast_mul, Nat.cast_pow, Nat.cast_ofNat, mul_div_assoc, ← hpow]
  rfl

theorem abs_sign_mul (negative : Bool) (value : ℚ) :
    |(if negative then -1 else 1) * value| = |value| := by
  cases negative with
  | false => exact congrArg _ (one_mul value)
  | true => exact (congrArg _ (neg_one_mul value)).trans (abs_neg value)

/-- Signs aside, a number is as far from a value as the magnitudes are. -/
theorem abs_sub_toRat {x : Binary64} {negative : Bool} (hsign : x.negative = negative) :
    |x.toRat - (if negative then -1 else 1) * (q / unitsOfOne)| =
      |(units x.magnitude : ℚ) - q| / unitsOfOne := by
  rw [toRat_eq, hsign, ← mul_sub, ← sub_div, abs_sign_mul, abs_div, abs_of_pos unitsOfOne_pos]

/-- With the other sign, the distance goes through zero. -/
theorem abs_sub_toRat_of_ne {x : Binary64} {negative : Bool} (hsign : x.negative ≠ negative)
    (hq : 0 ≤ q) :
    |x.toRat - (if negative then -1 else 1) * (q / unitsOfOne)| =
      (units x.magnitude + q) / unitsOfOne := by
  have hopposite : x.toRat =
      -((if negative then -1 else 1) * (units x.magnitude / unitsOfOne)) := by
    rw [toRat_eq, Bool.eq_not_of_ne hsign]
    cases negative <;> simp
  have hnonneg : (0 : ℚ) ≤ units x.magnitude + q := by positivity
  rw [hopposite, ← neg_add', ← mul_add, ← add_div, abs_neg, abs_sign_mul, abs_div,
    abs_of_pos unitsOfOne_pos, abs_of_nonneg hnonneg]

/-- A number whose magnitude is nearest is nearest itself. -/
theorem NearestTo.isNearest {x : Binary64} (h : NearestTo x.magnitude q) (hq : 0 ≤ q)
    (hfinite : x.IsFinite) :
    x.IsNearest ((if x.negative then -1 else 1) * (q / unitsOfOne)) := by
  have hfar : ∀ y : Binary64, |(units y.magnitude : ℚ) - q| ≤ units y.magnitude + q := by
    intro y
    have hnonneg : (0 : ℚ) ≤ units y.magnitude := Nat.cast_nonneg _
    rw [abs_le]
    constructor
    · linarith
    · linarith
  refine ⟨hfinite, ?_, ?_⟩
  · intro y _
    rw [abs_sub_toRat rfl]
    by_cases hsign : y.negative = x.negative
    · rw [abs_sub_toRat hsign]
      exact div_le_div_of_nonneg_right (h.le _) unitsOfOne_pos.le
    · rw [abs_sub_toRat_of_ne hsign hq]
      exact div_le_div_of_nonneg_right ((h.le _).trans (hfar y)) unitsOfOne_pos.le
  · intro y _ hne heq
    rw [significand_mod_two]
    rw [abs_sub_toRat rfl] at heq
    by_cases hsign : y.negative = x.negative
    · have hmagnitude : (y.magnitude : Nat) ≠ x.magnitude := by
        intro hsame
        exact hne (by rw [toRat_eq, toRat_eq, hsign, hsame])
      rw [abs_sub_toRat hsign, div_left_inj' unitsOfOne_pos.ne'] at heq
      exact h.even _ hmagnitude heq
    · -- zero lies between the two, so it is as near as both of them
      rw [abs_sub_toRat_of_ne hsign hq, div_left_inj' unitsOfOne_pos.ne'] at heq
      have hle := h.le 0
      have hnonneg : (0 : ℚ) ≤ units y.magnitude := Nat.cast_nonneg _
      rw [units_zero, zero_sub, abs_neg, abs_of_nonneg hq] at hle
      by_cases hmagnitude : (x.magnitude : Nat) = 0
      · rw [hmagnitude]
      · refine h.even 0 (Ne.symm hmagnitude) ?_
        rw [units_zero, zero_sub, abs_neg, abs_of_nonneg hq]
        linarith

/-- And so a rounded magnitude gives a rounded number. -/
theorem RoundsTo.rounds {x : Binary64} (h : RoundsTo x.magnitude q) (hq : 0 ≤ q) :
    x.Rounds ((if x.negative then -1 else 1) * (q / unitsOfOne)) := by
  have hvalue : |(if x.negative then -1 else 1) * (q / unitsOfOne)| = q / unitsOfOne := by
    rw [abs_sign_mul, abs_of_nonneg (div_nonneg hq unitsOfOne_pos.le)]
  have hfinite : q / unitsOfOne < overflow → x.magnitude < infinity ∧ NearestTo x.magnitude q :=
    fun hlt => h.finite ((div_lt_iff₀ unitsOfOne_pos).mp hlt)
  refine ⟨?_, ?_, ?_⟩
  · intro hlt
    rw [hvalue] at hlt
    exact (hfinite hlt).2.isNearest hq (hfinite hlt).1
  · intro hle
    rw [hvalue] at hle
    exact Fin.ext (h.infinite ((le_div_iff₀ unitsOfOne_pos).mp hle))
  · intro hle
    rw [hvalue, div_le_iff₀ unitsOfOne_pos] at hle
    -- half of the least positive value is half a unit
    have hhalf : q ≤ 1 / 2 := by
      have hunits : (2 ^ 1075 : ℚ)⁻¹ * unitsOfOne = 1 / 2 := by
        have hpos := unitsOfOne_pos.ne'
        rw [pow_succ (2 : ℚ) 1074, ← unitsOfOne, mul_inv, mul_right_comm, inv_mul_cancel₀ hpos,
          one_mul, one_div]
      rwa [hunits] at hle
    have hlt := hhalf.trans_lt one_half_lt_overflow
    exact ((h.finite hlt).2.unique (nearestTo_zero hq hhalf))

/-- **A numeral is rounded as it should be.** -/
theorem rounds_ofNumeral (negative : Bool) (digits : Nat) (exponent : Int) :
    (ofNumeral (.finite negative digits exponent)).Rounds
      ((if negative then -1 else 1) * (digits * 10 ^ exponent)) := by
  have hnonneg : (0 : ℚ) ≤ digits * 10 ^ exponent :=
    mul_nonneg (Nat.cast_nonneg _) (zpow_nonneg (by norm_num) _)
  have hrounds := RoundsTo.rounds (x := ofNumeral (.finite negative digits exponent))
    (roundsTo_ofDecimal digits exponent) (mul_nonneg hnonneg unitsOfOne_pos.le)
  rw [mul_div_assoc, div_self unitsOfOne_pos.ne', mul_one] at hrounds
  exact hrounds

end Binary64

end Lexing
