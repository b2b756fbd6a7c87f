import Lexing.Numeral
import Lexing.Proofs.Grammar
import Mathlib.Algebra.Order.Field.Rat
import Mathlib.Tactic.FieldSimp
import Mathlib.Tactic.Ring

/-!
# Decimal notation

A number is written with a sign, digits in front of a point, digits behind it and an exponent, and
all of these but one digit may be missing. `Decimal` holds the parts, and what is written by them is
a rational number. The reader takes every `Decimal` back to its digits and its power of ten, and
accepts nothing else but a few words.

Each part of the reader is shown to accept exactly one part of the notation. Since digits are read
as far as they go, the parts can be told apart by the character that stands behind them.
-/

namespace Lexing

/-! ## What can be written -/

/-- A sign in front of digits. -/
inductive Sign where
  | plus
  | minus
deriving DecidableEq, Repr

namespace Sign

/-- The characters of a sign that may be missing. -/
def chars : Option Sign → List Char
  | none => []
  | some plus => ['+']
  | some minus => ['-']

/-- Whether a sign is a minus; a missing one is not. -/
def isMinus : Option Sign → Bool
  | some minus => true
  | some plus | none => false

end Sign

/-- An exponent as it is written. -/
structure Exponent where
  mark : Char
  sign : Option Sign
  digits : List Char
  mark_eq : mark = 'e' ∨ mark = 'E'
  isDigits : Text.IsDigits digits

namespace Exponent

/-- The characters of an exponent that may be missing. -/
def chars : Option Exponent → List Char
  | none => []
  | some e => e.mark :: (Sign.chars e.sign ++ e.digits)

/-- The power of ten that an exponent stands for; a missing one counts as zero. -/
def value : Option Exponent → Int
  | none => 0
  | some e =>
    let size : Int := Nat.ofDigitChars 10 e.digits 0
    if Sign.isMinus e.sign then -size else size

end Exponent

/-- A number in decimal notation as it is written. -/
structure Decimal where
  sign : Option Sign
  /-- The digits in front of the point. -/
  whole : List Char
  /-- The digits behind the point, if there is a point. -/
  fraction : Option (List Char)
  exponent : Option Exponent
  isDigit_whole : ∀ c ∈ whole, c.isDigit = true
  isDigit_fraction : ∀ digits ∈ fraction, ∀ c ∈ digits, c.isDigit = true
  /-- On one side of the point there is a digit. -/
  ne_nil : whole ≠ [] ∨ fraction.getD [] ≠ []

namespace Decimal

/-- The characters of a point and the digits behind it. -/
def point : Option (List Char) → List Char
  | none => []
  | some digits => '.' :: digits

/-- The characters of a number. -/
def chars (d : Decimal) : List Char :=
  Sign.chars d.sign ++ (d.whole ++ (point d.fraction ++ Exponent.chars d.exponent))

/-- The number that is written. -/
def value (d : Decimal) : ℚ :=
  let fraction := d.fraction.getD []
  (if Sign.isMinus d.sign then -1 else 1) *
    ((Nat.ofDigitChars 10 d.whole 0 + Nat.ofDigitChars 10 fraction 0 / 10 ^ fraction.length) *
      10 ^ Exponent.value d.exponent)

/-- All digits as one number. -/
def digits (d : Decimal) : Nat := Nat.ofDigitChars 10 (d.whole ++ d.fraction.getD []) 0

/-- The power of ten that belongs to the last digit. -/
def power (d : Decimal) : Int := Exponent.value d.exponent - (d.fraction.getD []).length

/-- The point can be moved behind the last digit. -/
theorem value_eq (d : Decimal) :
    d.value = (if Sign.isMinus d.sign then -1 else 1) * (d.digits * 10 ^ d.power) := by
  have hten : (10 : ℚ) ≠ 0 := by norm_num
  have hpow : (10 : ℚ) ^ (d.fraction.getD []).length ≠ 0 := pow_ne_zero _ hten
  have hdigits : d.digits = 10 ^ (d.fraction.getD []).length * Nat.ofDigitChars 10 d.whole 0 +
      Nat.ofDigitChars 10 (d.fraction.getD []) 0 := by
    rw [digits, Nat.ofDigitChars_append]
    exact Nat.ofDigitChars_eq_ofDigitChars_zero
  rw [value, hdigits, power, zpow_sub₀ hten, zpow_natCast]
  push_cast
  field_simp

end Decimal

/-- Whether the text is the given word, in letters of either case. -/
def Text.Spells (text : List Char) (word : String) : Prop := text.map Char.toLower = word.toList

instance (text : List Char) (word : String) : Decidable (Text.Spells text word) :=
  inferInstanceAs (Decidable (text.map Char.toLower = word.toList))

/-! ## Reading what is written -/

namespace Numeral

theorem splitSign_of_ne {rest : List Char} (h : ∀ c ∈ rest.head?, c ≠ '+' ∧ c ≠ '-') :
    splitSign rest = (false, rest) := by
  unfold splitSign
  split
  · exact absurd rfl (h '-' rfl).2
  · exact absurd rfl (h '+' rfl).1
  · rfl

theorem splitSign_chars {rest : List Char} (h : ∀ c ∈ rest.head?, c ≠ '+' ∧ c ≠ '-')
    (sign : Option Sign) : splitSign (Sign.chars sign ++ rest) = (Sign.isMinus sign, rest) := by
  cases sign with
  | none => exact splitSign_of_ne h
  | some sign => cases sign <;> rfl

/-- Every text is a sign, which may be missing, and a rest. -/
theorem exists_splitSign (text : List Char) :
    ∃ sign rest, text = Sign.chars sign ++ rest ∧ splitSign text = (Sign.isMinus sign, rest) := by
  unfold splitSign
  split
  · exact ⟨some .minus, _, rfl, rfl⟩
  · exact ⟨some .plus, _, rfl, rfl⟩
  · exact ⟨none, _, rfl, rfl⟩

theorem ne_sign_of_isDigits {digits : List Char} (h : Text.IsDigits digits) :
    ∀ c ∈ digits.head?, c ≠ '+' ∧ c ≠ '-' := by
  intro c hc
  have hdigit := h.2 c (List.mem_of_head? hc)
  constructor
  · rintro rfl
    cases hdigit
  · rintro rfl
    cases hdigit

/-- **The end of a numeral is an exponent, or nothing.** -/
theorem exponent?_eq_some_iff {text : List Char} {value : Int} :
    exponent? text = some value ↔
      ∃ e : Option Exponent, text = Exponent.chars e ∧ value = Exponent.value e := by
  constructor
  · intro h
    cases text with
    | nil => exact ⟨none, rfl, (Option.some_inj.mp h).symm⟩
    | cons mark rest =>
        obtain ⟨sign, digits, rfl, hsplit⟩ := exists_splitSign rest
        rw [exponent?, hsplit] at h
        dsimp only at h
        split at h
        · -- the tests of the reader are the fields of an exponent
          rename_i hproper
          obtain ⟨hmark, hne, hdigits⟩ := hproper
          refine ⟨some ⟨mark, sign, digits, hmark, hne, List.all_eq_true.mp hdigits⟩, rfl, ?_⟩
          exact (Option.some_inj.mp h).symm
        · cases h
  · rintro ⟨e, rfl, rfl⟩
    cases e with
    | none => rfl
    | some e =>
        have hproper : (e.mark = 'e' ∨ e.mark = 'E') ∧ e.digits ≠ [] ∧ e.digits.all Char.isDigit :=
          ⟨e.mark_eq, e.isDigits.1, List.all_eq_true.mpr e.isDigits.2⟩
        rw [Exponent.chars, exponent?, splitSign_chars (ne_sign_of_isDigits e.isDigits)]
        dsimp only
        rw [if_pos hproper]
        rfl

/-- Where digits, perhaps a point and more digits end, an exponent has to follow. -/
theorem magnitude?_append {whole : List Char} (hwhole : ∀ c ∈ whole, c.isDigit = true)
    {fraction : Option (List Char)}
    (hfraction : ∀ digits ∈ fraction, ∀ c ∈ digits, c.isDigit = true)
    {rest : List Char} (hrest : ∀ c ∈ rest.head?, c.isDigit = false)
    (hpoint : fraction = none → ∀ c ∈ rest.head?, c ≠ '.') :
    magnitude? (whole ++ (Decimal.point fraction ++ rest)) =
      if whole = [] ∧ fraction.getD [] = [] then none
      else (exponent? rest).map fun exponent : Int =>
        (Nat.ofDigitChars 10 (whole ++ fraction.getD []) 0,
          exponent - (fraction.getD []).length) := by
  unfold magnitude?
  dsimp only
  cases fraction with
  | none =>
      rw [Decimal.point, List.nil_append, Text.takeWhile_append_of_stop hwhole hrest,
        Text.dropWhile_append_of_stop hwhole hrest]
      -- a point behind the digits would belong to the number
      split
      · exact absurd rfl (hpoint rfl '.' rfl)
      · rfl
  | some digits =>
      have hstop : ∀ c ∈ (Decimal.point (some digits) ++ rest).head?, c.isDigit = false := by
        rintro _ ⟨⟩
        rfl
      have hdigits := hfraction digits rfl
      have htake := Text.takeWhile_append_of_stop hdigits hrest
      have hdrop := Text.dropWhile_append_of_stop hdigits hrest
      rw [Text.takeWhile_append_of_stop hwhole hstop, Text.dropWhile_append_of_stop hwhole hstop]
      simp only [Decimal.point, List.cons_append, htake, hdrop, Option.getD_some]

/-- Every text begins with digits, perhaps a point and more digits. -/
theorem exists_point (text : List Char) :
    ∃ whole fraction rest, text = whole ++ (Decimal.point fraction ++ rest) ∧
      (∀ c ∈ whole, c.isDigit = true) ∧
      (∀ digits ∈ fraction, ∀ c ∈ digits, c.isDigit = true) ∧
      (∀ c ∈ rest.head?, c.isDigit = false) ∧ (fraction = none → ∀ c ∈ rest.head?, c ≠ '.') := by
  obtain ⟨whole, rest, rfl, hwhole, hstop⟩ := Text.exists_digits_append text
  by_cases hpoint : ∃ behind, rest = '.' :: behind
  · obtain ⟨behind, rfl⟩ := hpoint
    obtain ⟨digits, rest, rfl, hdigits, hrest⟩ := Text.exists_digits_append behind
    refine ⟨whole, some digits, rest, rfl, hwhole, ?_, hrest, ?_⟩
    · rintro _ ⟨⟩
      exact hdigits
    · rintro ⟨⟩
  · refine ⟨whole, none, rest, rfl, hwhole, ?_, hstop, ?_⟩
    · rintro _ ⟨⟩
    · rintro _ c hc rfl
      obtain ⟨behind, hbehind⟩ := List.head?_eq_some_iff.mp hc
      exact hpoint ⟨behind, hbehind⟩

theorem head_exponent {e : Option Exponent} :
    ∀ c ∈ (Exponent.chars e).head?, c = 'e' ∨ c = 'E' := by
  cases e with
  | none => rintro _ ⟨⟩
  | some e =>
      rintro _ ⟨⟩
      exact e.mark_eq

/-- **Reading takes back the digits and the exponent of a number**, but for its sign. -/
theorem magnitude?_chars (d : Decimal) :
    magnitude? (d.whole ++ (Decimal.point d.fraction ++ Exponent.chars d.exponent)) =
      some (d.digits, d.power) := by
  have hstop : ∀ c ∈ (Exponent.chars d.exponent).head?, c.isDigit = false := by
    intro c hc
    rcases head_exponent c hc with rfl | rfl
    · rfl
    · rfl
  have hpoint : ∀ c ∈ (Exponent.chars d.exponent).head?, c ≠ '.' := by
    intro c hc
    rcases head_exponent c hc with rfl | rfl
    · decide
    · decide
  have hnot : ¬(d.whole = [] ∧ d.fraction.getD [] = []) := by
    rintro ⟨hwhole, hfraction⟩
    exact d.ne_nil.elim (fun h => h hwhole) fun h => h hfraction
  have hexponent := exponent?_eq_some_iff.mpr ⟨d.exponent, rfl, rfl⟩
  rw [magnitude?_append d.isDigit_whole d.isDigit_fraction hstop fun _ => hpoint, if_neg hnot,
    hexponent]
  rfl

/-- **Nothing else is read as one.** -/
theorem exists_of_magnitude? {text : List Char} {result : Nat × Int}
    (h : magnitude? text = some result) (sign : Option Sign) :
    ∃ d : Decimal, Sign.chars sign ++ text = d.chars := by
  obtain ⟨whole, fraction, rest, rfl, hwhole, hfraction, hrest, hpoint⟩ := exists_point text
  rw [magnitude?_append hwhole hfraction hrest hpoint] at h
  split at h
  · cases h
  · rename_i hne
    obtain ⟨value, hvalue, _⟩ := Option.map_eq_some_iff.mp h
    obtain ⟨exponent, rfl, _⟩ := exponent?_eq_some_iff.mp hvalue
    exact ⟨⟨sign, whole, fraction, exponent, hwhole, hfraction, not_and_or.mp hne⟩, rfl⟩

/-! ## Words and numbers -/

theorem parse?_of_splitSign {text rest : List Char} {negative : Bool}
    (h : splitSign text = (negative, rest)) :
    parse? text =
      if Text.Spells rest "inf" ∨ Text.Spells rest "infinity" then some (.infinity negative)
      else if Text.Spells rest "nan" then some (.nan negative)
      else (magnitude? rest).map fun (digits, exponent) => .finite negative digits exponent := by
  unfold parse? Text.Spells
  rw [h]
  rfl

theorem toLower_of_isDigit {c : Char} (h : c.isDigit = true) : c.toLower = c := by
  unfold Char.toLower
  rw [dif_neg]
  rintro ⟨hle, _⟩
  rw [ge_iff_le, UInt32.le_iff_toNat_le] at hle
  exact absurd (hle.trans (Char.isDigit_iff_toNat.mp h).2) (by decide)

/-- What begins with another character than a letter is no word. -/
theorem head_of_spells {text : List Char} {word : String} {first : Char} {more : List Char}
    (h : Text.Spells text word) (hword : word.toList = first :: more)
    (hfirst : first ≠ '+' ∧ first ≠ '-' ∧ first ≠ '.' ∧ first.isDigit = false) :
    ∀ c ∈ text.head?, c ≠ '+' ∧ c ≠ '-' ∧ c ≠ '.' ∧ c.isDigit = false := by
  intro c hc
  obtain ⟨rest, rfl⟩ := List.head?_eq_some_iff.mp hc
  unfold Text.Spells at h
  rw [hword, List.map_cons] at h
  obtain rfl := (List.cons.inj h).1
  obtain ⟨hplus, hminus, hpoint, hdigit⟩ := hfirst
  refine ⟨?_, ?_, ?_, ?_⟩
  · rintro rfl
    exact hplus (by decide)
  · rintro rfl
    exact hminus (by decide)
  · rintro rfl
    exact hpoint (by decide)
  · by_contra hc
    rw [Bool.not_eq_false] at hc
    rw [toLower_of_isDigit hc, hc] at hdigit
    cases hdigit

/-- Whether the text is one of the words for infinity and for the value that is no number. -/
def IsWord (text : List Char) : Prop :=
  (Text.Spells text "inf" ∨ Text.Spells text "infinity") ∨ Text.Spells text "nan"

theorem IsWord.head {text : List Char} (h : IsWord text) :
    ∀ c ∈ text.head?, c ≠ '+' ∧ c ≠ '-' ∧ c ≠ '.' ∧ c.isDigit = false := by
  rcases h with (h | h) | h
  · exact head_of_spells h rfl (by decide)
  · exact head_of_spells h rfl (by decide)
  · exact head_of_spells h rfl (by decide)

theorem splitSign_of_isWord {word : List Char} (h : IsWord word) (sign : Option Sign) :
    splitSign (Sign.chars sign ++ word) = (Sign.isMinus sign, word) :=
  splitSign_chars (fun c hc => ⟨(h.head c hc).1, (h.head c hc).2.1⟩) sign

theorem parse?_infinity {word : List Char}
    (h : Text.Spells word "inf" ∨ Text.Spells word "infinity") (sign : Option Sign) :
    parse? (Sign.chars sign ++ word) = some (.infinity (Sign.isMinus sign)) := by
  rw [parse?_of_splitSign (splitSign_of_isWord (Or.inl h) sign), if_pos h]

theorem parse?_nan {word : List Char} (h : Text.Spells word "nan") (sign : Option Sign) :
    parse? (Sign.chars sign ++ word) = some (.nan (Sign.isMinus sign)) := by
  have hother : ¬(Text.Spells word "inf" ∨ Text.Spells word "infinity") := by
    unfold Text.Spells at h ⊢
    rw [h]
    decide
  rw [parse?_of_splitSign (splitSign_of_isWord (Or.inr h) sign), if_neg hother, if_pos h]

/-- A number begins with a digit or with its point. -/
theorem head_magnitude (d : Decimal) :
    ∃ c ∈ (d.whole ++ (Decimal.point d.fraction ++ Exponent.chars d.exponent)).head?,
      c = '.' ∨ c.isDigit = true := by
  cases hwhole : d.whole with
  | cons c rest =>
      refine ⟨c, rfl, Or.inr (d.isDigit_whole c ?_)⟩
      rw [hwhole]
      exact List.mem_cons_self
  | nil =>
      cases hfraction : d.fraction with
      | none =>
          rcases d.ne_nil with hne | hne
          · exact absurd hwhole hne
          · rw [hfraction] at hne
            exact absurd rfl hne
      | some digits => exact ⟨'.', rfl, Or.inl rfl⟩

/-- **Every number is read**, with its sign, its digits and its exponent. -/
theorem parse?_chars (d : Decimal) :
    parse? d.chars = some (.finite (Sign.isMinus d.sign) d.digits d.power) := by
  obtain ⟨c, hc, hfirst⟩ := head_magnitude d
  have hsign : ∀ c' ∈ (d.whole ++ (Decimal.point d.fraction ++ Exponent.chars d.exponent)).head?,
      c' ≠ '+' ∧ c' ≠ '-' := by
    intro c' hc'
    obtain rfl : c' = c := Option.mem_unique hc' hc
    rcases hfirst with rfl | hdigit
    · decide
    · exact ne_sign_of_isDigits ⟨List.cons_ne_nil c' [], by simpa using hdigit⟩ c' rfl
  -- words begin with a letter
  have hword : ¬IsWord (d.whole ++ (Decimal.point d.fraction ++ Exponent.chars d.exponent)) := by
    intro h
    obtain ⟨_, _, hpoint, hdigit⟩ := h.head c hc
    rcases hfirst with hc | hc
    · exact hpoint hc
    · rw [hdigit] at hc
      cases hc
  obtain ⟨hinfinity, hnan⟩ := not_or.mp hword
  rw [Decimal.chars, parse?_of_splitSign (splitSign_chars hsign d.sign), if_neg hinfinity,
    if_neg hnan, magnitude?_chars]
  rfl

/-- **Nothing else is read** but words. -/
theorem exists_of_parse? {text : List Char} {n : Numeral} (h : parse? text = some n) :
    (∃ d : Decimal, text = d.chars) ∨
      ∃ sign word, text = Sign.chars sign ++ word ∧ IsWord word := by
  obtain ⟨sign, rest, rfl, hsplit⟩ := exists_splitSign text
  rw [parse?_of_splitSign hsplit] at h
  split at h
  · rename_i hinfinity
    exact Or.inr ⟨sign, rest, rfl, Or.inl hinfinity⟩
  split at h
  · rename_i hnan
    exact Or.inr ⟨sign, rest, rfl, Or.inr hnan⟩
  · obtain ⟨result, hresult, _⟩ := Option.map_eq_some_iff.mp h
    exact Or.inl (exists_of_magnitude? hresult sign)

end Numeral

end Lexing
