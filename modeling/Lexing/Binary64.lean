import Lexing.Numeral

/-!
# Binary64 numbers

The 64-bit floating-point format: a sign, eleven bits of exponent and 52 bits of fraction. Below
the sign the bits, read as one natural number, order the magnitudes, and from each finite magnitude
to the next the value grows by some power of two times `2 ^ -1074`, the least positive value of all.
So every finite value is a whole number of such *units*, and rounding becomes a question about
natural numbers: how many units are nearest to a given fraction, among the counts that the format
can hold?

`nearest` answers it. It keeps the 53 leading bits of the fraction, rounds there with a half going
to the even neighbour, and lets a carry run over into the exponent field, where it is just right.
-/

namespace Lexing

-- Written as the plain function, a power means the same whatever algebra is imported.
open Nat (pow)

/-- A binary64 number: its sign, and the 63 bits below the sign as a natural number. -/
structure Binary64 where
  /-- Whether the sign bit is set. -/
  negative : Bool
  /-- The exponent and fraction bits. -/
  magnitude : Fin (pow 2 63)
deriving DecidableEq, Repr

namespace Binary64

/-- All 64 bits as one natural number. -/
def bits (x : Binary64) : Nat :=
  (if x.negative then pow 2 63 else 0) + x.magnitude

/-- The bits below the sign are the magnitude. -/
theorem bits_mod (x : Binary64) : x.bits % pow 2 63 = x.magnitude := by
  unfold bits
  cases x.negative with
  | false => rw [if_neg Bool.noConfusion, Nat.zero_add, Nat.mod_eq_of_lt x.magnitude.isLt]
  | true => rw [if_pos rfl, Nat.add_mod_left, Nat.mod_eq_of_lt x.magnitude.isLt]

/-- The bit above them is the sign. -/
theorem bits_div (x : Binary64) : x.bits / pow 2 63 = x.negative.toNat := by
  unfold bits
  cases x.negative with
  | false =>
      rw [if_neg Bool.noConfusion, Nat.zero_add, Nat.div_eq_of_lt x.magnitude.isLt]
      rfl
  | true =>
      rw [if_pos rfl, Nat.add_div_left _ (by decide), Nat.div_eq_of_lt x.magnitude.isLt]
      rfl

/-- There are no more than 64 bits. -/
theorem bits_lt (x : Binary64) : x.bits < pow 2 64 := by
  have hdouble : pow 2 64 = 2 * pow 2 63 := rfl
  rw [hdouble, ← Nat.div_lt_iff_lt_mul (by decide), bits_div]
  exact x.negative.toNat_lt

/-- **The bits determine the number.** -/
theorem bits_inj {x y : Binary64} : x.bits = y.bits ↔ x = y := by
  constructor
  · intro h
    have hnegative : x.negative = y.negative := by
      rw [Bool.eq_iff_iff, ← Bool.toNat_eq_one, ← Bool.toNat_eq_one, ← bits_div, ← bits_div, h]
    have hmagnitude : x.magnitude.val = y.magnitude.val := by rw [← bits_mod, ← bits_mod, h]
    rw [Binary64.mk.injEq]
    exact ⟨hnegative, Fin.ext hmagnitude⟩
  · intro h
    rw [h]

/-- The magnitude of infinity: every exponent bit is set and no fraction bit. All finite
magnitudes lie below it. -/
def infinity : Fin (pow 2 63) := ⟨2047 * pow 2 52, by decide⟩

/-- The magnitude of the value that is no number. -/
def nan : Fin (pow 2 63) := ⟨2047 * pow 2 52 + pow 2 51, by decide⟩

/-- How many times the least positive value a finite magnitude holds. -/
def units (magnitude : Nat) : Nat :=
  if magnitude < pow 2 52 then magnitude
  else (pow 2 52 + magnitude % pow 2 52) * pow 2 (magnitude / pow 2 52 - 1)

/-- The natural number nearest to `num / den`; a half goes to the even one. -/
def roundHalfEven (num den : Nat) : Nat :=
  let quotient := num / den
  let twice := 2 * (num % den)
  if twice < den ∨ twice = den ∧ quotient % 2 = 0 then quotient else quotient + 1

/-- The magnitude nearest to `num / den` units; a half goes to the even one, and what is too large
for the format goes to infinity. -/
def nearest (num den : Nat) : Fin (pow 2 63) :=
  -- The count keeps its 53 leading bits; the `shift` bits below them are rounded away.
  let shift := (num / den).log2 - 52
  let rounded := shift * pow 2 52 + roundHalfEven num (den * pow 2 shift)
  ⟨min rounded infinity, Nat.lt_of_le_of_lt (Nat.min_le_right ..) infinity.isLt⟩

/-- The magnitude nearest to `digits * 10 ^ exponent`. Powers of ten that alone decide the answer
are never computed: from `10 ^ 309` on everything but zero is infinity, and below `10 ^ -324`, which
is less than half a unit, everything is zero. -/
def ofDecimal (digits : Nat) (exponent : Int) : Fin (pow 2 63) :=
  let power := exponent.natAbs
  -- Zero comes first: its exponent may be of any size and says nothing.
  if digits = 0 then ⟨0, by decide⟩
  else if 0 ≤ exponent then
    if 309 ≤ power then infinity else nearest (digits * pow 10 power * pow 2 1074) 1
  else if digits.log2 + 325 ≤ power then ⟨0, by decide⟩
  else nearest (digits * pow 2 1074) (pow 10 power)

/-- The binary64 number nearest to a numeral. A zero keeps its sign. -/
def ofNumeral : Numeral → Binary64
  | .finite negative digits exponent => ⟨negative, ofDecimal digits exponent⟩
  | .infinity negative => ⟨negative, infinity⟩
  | .nan negative => ⟨negative, nan⟩

example : (ofNumeral (.finite false 325 (-2))).bits = 0x400a000000000000 := by decide +kernel

end Binary64

end Lexing
