import Lexing.Binary64
import Mathlib.Algebra.Order.Field.Rat
import Mathlib.Order.Monotone.Basic
import Mathlib.Tactic.FieldSimp
import Mathlib.Tactic.Linarith
import Mathlib.Tactic.Positivity
import Mathlib.Tactic.Ring

/-!
# The nearest magnitude

The magnitudes of binary64 are counted by the units that they hold, and the counts grow with the
magnitude. So a fraction lies between two neighbours, and one of them is nearest to it; the other
magnitudes are out of the question, since all of them lie beyond one of the two. If both neighbours
are as near, the even one is taken.

Rounding keeps the 53 leading bits of a fraction. The count that these bits make is the lower
neighbour, and the next count is the upper one, also where it has a bit more: the carry goes into
the exponent field, and what comes out is the magnitude that follows.

All this knows no greatest magnitude. Infinity is simply the first that is no longer finite, and
what is rounded to it or to anything beyond it is taken for infinity.
-/

namespace Lexing

namespace Binary64

variable {q : ℚ} {m n shift num den : Nat}

/-! ## Magnitudes and units -/

theorem units_of_lt (h : m < 2 ^ 52) : units m = m := if_pos h

/-- Up to a carry, a magnitude is a shift and a count of `2 ^ shift` units. -/
theorem units_shift (hle : n ≤ 2 ^ 53) (hlead : shift = 0 ∨ 2 ^ 52 ≤ n) :
    units (shift * 2 ^ 52 + n) = n * 2 ^ shift := by
  by_cases hsmall : n < 2 ^ 52
  · obtain rfl := hlead.resolve_right (Nat.not_le.mpr hsmall)
    rw [Nat.zero_mul, Nat.zero_add, units_of_lt hsmall, Nat.pow_zero, Nat.mul_one]
  have hnot : ¬shift * 2 ^ 52 + n < Nat.pow 2 52 := by
    rw [Nat.pow_eq]
    omega
  rw [units, if_neg hnot]
  simp only [Nat.pow_eq]
  by_cases hcarry : n = 2 ^ 53
  · -- the carry has gone into the exponent field
    have hdiv : (shift * 2 ^ 52 + n) / 2 ^ 52 = shift + 2 := by omega
    have hmod : (shift * 2 ^ 52 + n) % 2 ^ 52 = 0 := by omega
    rw [hdiv, hmod, hcarry, Nat.add_zero, Nat.add_sub_cancel_right (n := shift + 1) (m := 1)]
    ring
  · have hdiv : (shift * 2 ^ 52 + n) / 2 ^ 52 = shift + 1 := by omega
    have hmod : (shift * 2 ^ 52 + n) % 2 ^ 52 = n - 2 ^ 52 := by omega
    rw [hdiv, hmod, Nat.add_sub_cancel, Nat.add_sub_cancel' (by omega)]

/-- Every magnitude is a shift and a count of at most 53 bits, which has 53 of them if there is a
shift. -/
theorem exists_shift (m : Nat) :
    ∃ shift n, m = shift * 2 ^ 52 + n ∧ n < 2 ^ 53 ∧ (shift = 0 ∨ 2 ^ 52 ≤ n) := by
  by_cases hsmall : m < 2 ^ 52
  · exact ⟨0, m, by omega, by omega, Or.inl rfl⟩
  · exact ⟨m / 2 ^ 52 - 1, 2 ^ 52 + m % 2 ^ 52, by omega, by omega, Or.inr (by omega)⟩

theorem units_lt_units_succ (m : Nat) : units m < units (m + 1) := by
  obtain ⟨shift, n, rfl, hlt, hlead⟩ := exists_shift m
  have hlead' : shift = 0 ∨ 2 ^ 52 ≤ n + 1 := hlead.imp_right fun h => Nat.le_succ_of_le h
  rw [units_shift (Nat.le_of_lt hlt) hlead, Nat.add_assoc, units_shift hlt hlead']
  exact Nat.mul_lt_mul_of_pos_right (Nat.lt_succ_self n) (Nat.two_pow_pos shift)

/-- Greater magnitudes hold more units. -/
theorem units_strictMono : StrictMono units := strictMono_nat_of_lt_succ units_lt_units_succ

/-! ## Nearest magnitudes -/

/-- Whether no magnitude is nearer to the given number of units, and no other is as near if this one
is odd. -/
structure NearestTo (m : Nat) (q : ℚ) : Prop where
  le : ∀ other, |(units m : ℚ) - q| ≤ |(units other : ℚ) - q|
  even : ∀ other, other ≠ m → |(units other : ℚ) - q| = |(units m : ℚ) - q| → m % 2 = 0

theorem units_le_units (h : m ≤ n) : (units m : ℚ) ≤ units n := by
  exact_mod_cast units_strictMono.monotone h

theorem units_lt_units (h : m < n) : (units m : ℚ) < units n := by
  exact_mod_cast units_strictMono h

/-- Of two neighbours with the given number between them, the lower one is nearest to it if the
upper one is no nearer, and is not as near unless the lower one is even. -/
theorem nearestTo_lower (hle : (units m : ℚ) ≤ q) (hnear : q - units m ≤ units (m + 1) - q)
    (heven : q - units m = units (m + 1) - q → m % 2 = 0) : NearestTo m q := by
  have hdist : |(units m : ℚ) - q| = q - units m := by
    rw [abs_sub_comm, abs_of_nonneg (by linarith)]
  have hbelow : ∀ other < m, q - units m < |(units other : ℚ) - q| := by
    intro other h
    have hlt := units_lt_units h
    rw [abs_sub_comm, abs_of_nonneg (by linarith)]
    linarith
  have habove : ∀ other, m < other → units (m + 1) - q ≤ |(units other : ℚ) - q| := by
    intro other h
    have hle' := units_le_units (Nat.succ_le_of_lt h)
    exact (by linarith : (units (m + 1) : ℚ) - q ≤ units other - q).trans (le_abs_self _)
  constructor
  · intro other
    rw [hdist]
    rcases lt_trichotomy other m with h | rfl | h
    · exact (hbelow other h).le
    · exact hdist.ge
    · exact hnear.trans (habove other h)
  · intro other hne heq
    rw [hdist] at heq
    rcases lt_or_gt_of_ne hne with h | h
    · exact absurd heq (hbelow other h).ne'
    · exact heven (le_antisymm hnear ((habove other h).trans heq.le))

/-- And the upper one likewise. -/
theorem nearestTo_upper (hle : q ≤ units (m + 1)) (hnear : units (m + 1) - q ≤ q - units m)
    (heven : units (m + 1) - q = q - units m → (m + 1) % 2 = 0) : NearestTo (m + 1) q := by
  have hdist : |(units (m + 1) : ℚ) - q| = units (m + 1) - q := abs_of_nonneg (by linarith)
  have habove : ∀ other, m + 1 < other → units (m + 1) - q < |(units other : ℚ) - q| := by
    intro other h
    have hlt := units_lt_units h
    exact (by linarith : (units (m + 1) : ℚ) - q < units other - q).trans_le (le_abs_self _)
  have hbelow : ∀ other < m + 1, q - units m ≤ |(units other : ℚ) - q| := by
    intro other h
    have hle' := units_le_units (Nat.le_of_lt_succ h)
    rw [abs_sub_comm]
    exact (by linarith : q - (units m : ℚ) ≤ q - units other).trans (le_abs_self _)
  constructor
  · intro other
    rw [hdist]
    rcases lt_trichotomy other (m + 1) with h | rfl | h
    · exact hnear.trans (hbelow other h)
    · exact hdist.ge
    · exact (habove other h).le
  · intro other hne heq
    rw [hdist] at heq
    rcases lt_or_gt_of_ne hne with h | h
    · exact heven (le_antisymm hnear ((hbelow other h).trans heq.le))
    · exact absurd heq (habove other h).ne'

/-- There is only one nearest magnitude. -/
theorem NearestTo.unique (h : NearestTo m q) (h' : NearestTo n q) : m = n := by
  by_contra hne
  wlog hlt : m < n generalizing m n
  · exact this h' h (Ne.symm hne) (by omega)
  have heq : |(units n : ℚ) - q| = |(units m : ℚ) - q| := le_antisymm (h'.le m) (h.le n)
  have heven := h.even n (Ne.symm hne) heq
  have heven' := h'.even m hne heq.symm
  -- two even magnitudes have one between them, which is nearer
  have hbelow : (units m : ℚ) < units (m + 1) := units_lt_units (Nat.lt_succ_self m)
  have habove : (units (m + 1) : ℚ) < units n := units_lt_units (by omega)
  have hnearer := h.le (m + 1)
  have hmiddle : (units n : ℚ) - q = q - units m := by
    rcases abs_eq_abs.mp heq with hsame | hopposite
    · linarith
    · linarith
  rw [abs_sub_comm, abs_of_nonneg (by linarith)] at hnearer
  rcases le_abs'.mp hnearer with hleft | hright
  · linarith
  · linarith

/-! ## Rounding to 53 bits -/

/-- The rounded quotient is the quotient or the next number, as the remainder is less or more than
half of the divisor; at the half it is the even one. -/
theorem roundHalfEven_cases (num den : Nat) :
    roundHalfEven num den = num / den ∧
        (2 * (num % den) < den ∨ 2 * (num % den) = den ∧ num / den % 2 = 0) ∨
      roundHalfEven num den = num / den + 1 ∧
        (den < 2 * (num % den) ∨ 2 * (num % den) = den ∧ (num / den + 1) % 2 = 0) := by
  unfold roundHalfEven
  dsimp only
  split
  · rename_i h
    exact Or.inl ⟨rfl, h⟩
  · exact Or.inr ⟨rfl, by omega⟩

/-- Shifted to the right like this, a count keeps 53 bits at most, and no fewer if it is shifted at
all. -/
theorem shifted_bounds (count : Nat) :
    count / 2 ^ (count.log2 - 52) < 2 ^ 53 ∧
      (count.log2 - 52 = 0 ∨ 2 ^ 52 ≤ count / 2 ^ (count.log2 - 52)) := by
  constructor
  · have hlt : count < 2 ^ (count.log2 + 1) := Nat.lt_log2_self
    have hpow : 2 ^ (count.log2 + 1) ≤ 2 ^ (53 + (count.log2 - 52)) :=
      Nat.pow_le_pow_right (by decide) (by omega)
    rw [Nat.div_lt_iff_lt_mul (Nat.two_pow_pos _), ← Nat.pow_add]
    exact hlt.trans_le hpow
  · by_cases hlog : count.log2 ≤ 52
    · exact Or.inl (Nat.sub_eq_zero_of_le hlog)
    · right
      have hne : count ≠ 0 := by
        rintro rfl
        exact hlog (by decide)
      have hpow : 2 ^ 52 * 2 ^ (count.log2 - 52) = 2 ^ count.log2 := by
        rw [← Nat.pow_add, Nat.add_sub_cancel' (by omega)]
      rw [Nat.le_div_iff_mul_le (Nat.two_pow_pos _), hpow]
      exact Nat.log2_self_le hne

/-- How far a fraction is from the counts of 53 bits below and above it. -/
theorem sub_units_shifted (num : Nat) (hden : 0 < den) (hshift : shift = (num / den).log2 - 52) :
    (num / den : ℚ) - units (shift * 2 ^ 52 + num / (den * 2 ^ shift)) =
        (num % (den * 2 ^ shift) : Nat) / den ∧
      (units (shift * 2 ^ 52 + num / (den * 2 ^ shift) + 1) : ℚ) - num / den =
        (den * 2 ^ shift - num % (den * 2 ^ shift) : Nat) / den := by
  obtain ⟨hlt, hlead⟩ := shifted_bounds (num / den)
  rw [← hshift, Nat.div_div_eq_div_mul] at hlt hlead
  have hlead' : shift = 0 ∨ 2 ^ 52 ≤ num / (den * 2 ^ shift) + 1 :=
    hlead.imp_right fun h => Nat.le_succ_of_le h
  have hremainder := Nat.mod_lt num (Nat.mul_pos hden (Nat.two_pow_pos shift))
  have hne : (den : ℚ) ≠ 0 := by exact_mod_cast hden.ne'
  have hnum : (num : ℚ) =
      den * 2 ^ shift * (num / (den * 2 ^ shift) : Nat) + (num % (den * 2 ^ shift) : Nat) := by
    exact_mod_cast (Nat.div_add_mod num (den * 2 ^ shift)).symm
  rw [Nat.add_assoc, units_shift (Nat.le_of_lt hlt) hlead, units_shift hlt hlead',
    Nat.cast_sub hremainder.le, hnum]
  generalize num / (den * 2 ^ shift) = quotient
  generalize num % (den * 2 ^ shift) = remainder
  push_cast
  constructor
  · field_simp
    ring
  · field_simp
    ring

/-- **What is rounded to 53 bits is nearest among all magnitudes.** -/
theorem nearestTo_rounded (num : Nat) (hden : 0 < den) (hshift : shift = (num / den).log2 - 52) :
    NearestTo (shift * 2 ^ 52 + roundHalfEven num (den * 2 ^ shift)) (num / den : ℚ) := by
  obtain ⟨hbelow, habove⟩ := sub_units_shifted num hden hshift
  have hround := roundHalfEven_cases num (den * 2 ^ shift)
  have hremainder := Nat.mod_lt num (Nat.mul_pos hden (Nat.two_pow_pos shift))
  have hpos : (0 : ℚ) < den := by exact_mod_cast hden
  have hle : ∀ {a b : Nat}, (a / den : ℚ) ≤ b / den ↔ a ≤ b := by
    intro a b
    rw [div_le_div_iff_of_pos_right hpos, Nat.cast_le]
  have hinj : ∀ {a b : Nat}, (a / den : ℚ) = b / den ↔ a = b := by
    intro a b
    rw [div_left_inj' hpos.ne', Nat.cast_inj]
  generalize num / (den * 2 ^ shift) = quotient at hbelow habove hround
  generalize num % (den * 2 ^ shift) = remainder at hbelow habove hround hremainder
  generalize den * 2 ^ shift = divisor at habove hround hremainder ⊢
  rcases hround with ⟨heq, hhalf⟩ | ⟨heq, hhalf⟩
  · rw [heq]
    refine nearestTo_lower ?_ ?_ ?_
    · rw [← sub_nonneg, hbelow]
      positivity
    · rw [hbelow, habove, hle]
      omega
    · rw [hbelow, habove, hinj]
      omega
  · rw [heq, ← Nat.add_assoc]
    refine nearestTo_upper ?_ ?_ ?_
    · rw [← sub_nonneg, habove]
      positivity
    · rw [hbelow, habove, hle]
      omega
    · rw [hbelow, habove, hinj]
      omega

/-! ## Where finite magnitudes end -/

/-- From this value on, numbers are rounded to infinity. It lies in the middle between the greatest
finite value and the value that would come next. -/
def overflow : ℚ := 2 ^ 1024 - 2 ^ 970

/-- The number of units that make up one. -/
def unitsOfOne : ℚ := 2 ^ 1074

theorem units_infinity_add : (units infinity : ℚ) + units (infinity - 1) =
    2 * (overflow * unitsOfOne) := by
  have hinfinity : (infinity : Nat) = 2046 * 2 ^ 52 + 2 ^ 52 := by decide
  have hgreatest : (infinity : Nat) - 1 = 2045 * 2 ^ 52 + (2 ^ 53 - 1) := by decide
  have hmiddle : overflow * unitsOfOne = (2 ^ 54 - 1) * 2 ^ 2044 := by
    rw [overflow, unitsOfOne, sub_mul, sub_mul, one_mul, ← pow_add, ← pow_add, ← pow_add]
  have hfirst : (2 : ℚ) ^ 2045 = 2 * 2 ^ 2044 := pow_succ' 2 2044
  have hsecond : (2 : ℚ) ^ 2046 = 2 ^ 2 * 2 ^ 2044 := pow_add 2 2 2044
  rw [hgreatest, hinfinity, units_shift (by decide) (by decide),
    units_shift (by decide) (by decide), hmiddle]
  simp only [Nat.cast_mul, Nat.cast_pow, Nat.cast_ofNat, hfirst, hsecond]
  generalize (2 : ℚ) ^ 2044 = p
  ring

/-- So numbers that large are as near to infinity as to any finite magnitude. -/
theorem NearestTo.infinity_le (h : NearestTo m q) (hq : overflow * unitsOfOne ≤ q) :
    (infinity : Nat) ≤ m := by
  have hmiddle := units_infinity_add
  generalize overflow * unitsOfOne = middle at hq hmiddle
  by_contra hlt
  have hgreatest : (units m : ℚ) ≤ units (infinity - 1) := units_le_units (by omega)
  have hinfinity : (units m : ℚ) < units infinity := units_lt_units (by omega)
  have hle := h.le infinity
  rw [abs_sub_comm, abs_of_nonneg (by linarith)] at hle
  rcases le_abs'.mp hle with hleft | hright
  · linarith
  · -- infinity is as near as the greatest finite magnitude, which is odd
    have heq : (units m : ℚ) = units (infinity - 1) := by linarith
    have hm : m = infinity - 1 := units_strictMono.injective (by exact_mod_cast heq)
    have heven := h.even infinity (by omega) (by
      rw [abs_of_nonneg (by linarith), abs_sub_comm, abs_of_nonneg (by linarith)]
      linarith)
    rw [hm] at heven
    exact absurd heven (by decide)

/-- And all others are nearer to a finite one. -/
theorem NearestTo.lt_infinity (h : NearestTo m q) (hq : q < overflow * unitsOfOne) :
    m < infinity := by
  have hmiddle := units_infinity_add
  generalize overflow * unitsOfOne = middle at hq hmiddle
  by_contra hge
  have hbelow : (units (infinity - 1) : ℚ) < units infinity := units_lt_units (by decide)
  have hinfinity : (units infinity : ℚ) ≤ units m := units_le_units (Nat.not_lt.mp hge)
  have hle := h.le (infinity - 1)
  rw [abs_of_nonneg (by linarith)] at hle
  rcases le_abs'.mp hle with hleft | hright
  · linarith
  · linarith

/-- Whether the magnitude is the one to which the given number of units is rounded: infinity from
the overflow on, and below it the nearest magnitude, which is finite. -/
structure RoundsTo (m : Nat) (q : ℚ) : Prop where
  infinite : overflow * unitsOfOne ≤ q → m = infinity
  finite : q < overflow * unitsOfOne → m < infinity ∧ NearestTo m q

/-- Magnitudes beyond infinity count as infinity. -/
theorem NearestTo.roundsTo_min (h : NearestTo m q) : RoundsTo (min m infinity) q where
  infinite hq := Nat.min_eq_right (h.infinity_le hq)
  finite hq := by
    have hlt := h.lt_infinity hq
    rw [Nat.min_eq_left (Nat.le_of_lt hlt)]
    exact ⟨hlt, h⟩

theorem roundsTo_nearest (num : Nat) (hden : 0 < den) :
    RoundsTo (nearest num den) (num / den : ℚ) := by
  have hrounded := (nearestTo_rounded num hden rfl).roundsTo_min
  unfold nearest
  exact hrounded

end Binary64

end Lexing
