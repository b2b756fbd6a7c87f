import Lexing.Token.Value
import Lexing.Proofs.Location
import Lexing.Proofs.Notation
import Lexing.Proofs.Rounding

/-!
# What literals stand for

A literal is read twice. To be recognized it has to be a number without sign and exponent, or to
stand between quotation marks; to be given a value it has to read as a numeral, or to stand between
quotation marks. The numerals that can be read are many more than the numbers that are recognized:
they may have a sign and an exponent, and there are words among them. So a token that a caller makes
need not have a value, and its value may be no number at all; but a literal of a source always has
one, and it is never negative.
-/

namespace Lexing

/-! ## Quotation marks -/

theorem unwrapQuotes?_eq_some_iff {text contents : List Char} :
    unwrapQuotes? text = some contents ↔ text = '"' :: contents ++ ['"'] := by
  constructor
  · intro h
    unfold unwrapQuotes? at h
    split at h
    · rename_i rest
      obtain ⟨hlast, hcontents⟩ := Option.ite_none_right_eq_some.mp h
      obtain ⟨front, rfl⟩ := List.getLast?_eq_some_iff.mp hlast
      rw [List.dropLast_concat, Option.some_inj] at hcontents
      rw [hcontents, List.cons_append]
    · cases h
  · rintro rfl
    rw [List.cons_append, unwrapQuotes?, if_pos List.getLast?_concat, List.dropLast_concat]

/-- The text between quotation marks, as characters. -/
theorem eq_quoted_iff {text contents : String} :
    text = "\"" ++ contents ++ "\"" ↔ text.toList = '"' :: contents.toList ++ ['"'] := by
  rw [← String.toList_inj, String.toList_append, String.toList_append]
  rfl

theorem isQuoted_iff {text : String} :
    Text.IsQuoted text.toList ↔ ∃ contents, text = "\"" ++ contents ++ "\"" := by
  constructor
  · rintro ⟨contents, h⟩
    refine ⟨String.ofList contents, eq_quoted_iff.mpr ?_⟩
    rw [h, String.toList_ofList]
  · rintro ⟨contents, h⟩
    exact ⟨contents.toList, eq_quoted_iff.mp h⟩

namespace Token

variable {t : Token}

/-- **A literal stands for a text exactly if it is that text between quotation marks.** -/
theorem value?_eq_string_iff (hkind : t.kind = .literal) {contents : String} :
    t.value? = some (.string contents) ↔ t.text = "\"" ++ contents ++ "\"" := by
  rw [eq_quoted_iff, ← unwrapQuotes?_eq_some_iff, value?, if_pos hkind]
  split
  · rename_i found hfound
    rw [hfound, Option.some_inj, Option.some_inj, Value.string.injEq, ← String.toList_inj,
      String.toList_ofList]
  · rename_i hnone
    rw [hnone]
    simp

/-- Any other literal stands for the numeral that it reads as. -/
theorem value?_eq_map_parse? (hkind : t.kind = .literal) (hquoted : ¬Text.IsQuoted t.text.toList) :
    t.value? = (Numeral.parse? t.text.toList).map fun n => .number (.ofNumeral n) := by
  rw [value?, if_pos hkind]
  split
  · rename_i contents hcontents
    exact absurd ⟨contents, unwrapQuotes?_eq_some_iff.mp hcontents⟩ hquoted
  · rfl

end Token

/-! ## Numbers -/

/-- What is written in decimal notation does not begin with a quotation mark. -/
theorem Decimal.not_isQuoted_chars (d : Decimal) : ¬Text.IsQuoted d.chars := by
  rintro ⟨contents, h⟩
  obtain ⟨c, hc, hfirst⟩ := Numeral.head_magnitude d
  obtain ⟨rest, hrest⟩ := List.head?_eq_some_iff.mp hc
  rw [Decimal.chars, hrest] at h
  cases hsign : d.sign with
  | none =>
      rw [hsign] at h
      obtain rfl : c = '"' := (List.cons.inj h).1
      rcases hfirst with hpoint | hdigit
      · cases hpoint
      · cases hdigit
  | some sign =>
      rw [hsign] at h
      cases sign <;> cases h

namespace Token

variable {t : Token}

/-- A literal in decimal notation stands for the number that is written, rounded. -/
theorem exists_value?_of_decimal (hkind : t.kind = .literal) {d : Decimal}
    (htext : t.text.toList = d.chars) :
    ∃ x, t.value? = some (.number x) ∧ x.negative = Sign.isMinus d.sign ∧ x.Rounds d.value := by
  have hquoted : ¬Text.IsQuoted t.text.toList := by
    rw [htext]
    exact d.not_isQuoted_chars
  refine ⟨.ofNumeral (.finite (Sign.isMinus d.sign) d.digits d.power), ?_, rfl, ?_⟩
  · rw [value?_eq_map_parse? hkind hquoted, htext, Numeral.parse?_chars]
    rfl
  · rw [d.value_eq]
    exact Binary64.rounds_ofNumeral (Sign.isMinus d.sign) d.digits d.power

end Token

/-- **Literals without quotation marks are rounded correctly.** What is written in decimal notation
stands for the nearest number, with the sign that is written, also if it is rounded to zero or to
infinity. The words for infinity and for the value that is no number stand for these, again with the
sign that is written. All other texts stand for nothing. -/
theorem literal_correctly_rounded {t : Token} (hkind : t.kind = .literal)
    (hquoted : ¬Text.IsQuoted t.text.toList) :
    (∀ d : Decimal, t.text.toList = d.chars →
        ∃ x, t.value? = some (.number x) ∧ x.negative = Sign.isMinus d.sign ∧ x.Rounds d.value) ∧
      (∀ sign word, t.text.toList = Sign.chars sign ++ word →
        Text.Spells word "inf" ∨ Text.Spells word "infinity" →
          t.value? = some (.number ⟨Sign.isMinus sign, Binary64.infinity⟩)) ∧
      (∀ sign word, t.text.toList = Sign.chars sign ++ word → Text.Spells word "nan" →
        t.value? = some (.number ⟨Sign.isMinus sign, Binary64.nan⟩)) ∧
      ((∀ d : Decimal, t.text.toList ≠ d.chars) →
        (∀ sign word, t.text.toList = Sign.chars sign ++ word → ¬Numeral.IsWord word) →
          t.value? = none) := by
  have hvalue := Token.value?_eq_map_parse? hkind hquoted
  refine ⟨fun d htext => Token.exists_value?_of_decimal hkind htext, ?_, ?_, ?_⟩
  · intro sign word htext hword
    rw [hvalue, htext, Numeral.parse?_infinity hword]
    rfl
  · intro sign word htext hword
    rw [hvalue, htext, Numeral.parse?_nan hword]
    rfl
  · intro hdecimal hword
    rw [hvalue, Option.map_eq_none_iff, Option.eq_none_iff_forall_ne_some]
    intro n hn
    rcases Numeral.exists_of_parse? hn with ⟨d, htext⟩ | ⟨sign, word, htext, h⟩
    · exact hdecimal d htext
    · exact hword sign word htext h

/-- A little more than half of the least positive value, below zero: `-2.5e-324`. -/
def Decimal.belowMinusHalf : Decimal where
  sign := some .minus
  whole := ['2']
  fraction := some ['5']
  exponent := some
    ⟨'e', some .minus, ['3', '2', '4'], Or.inl rfl, List.cons_ne_nil _ _, List.all_eq_true.mp rfl⟩
  isDigit_whole := List.all_eq_true.mp rfl
  isDigit_fraction := by
    rintro _ ⟨⟩
    exact List.all_eq_true.mp rfl
  ne_nil := Or.inl (List.cons_ne_nil _ _)

/-- It is rounded to the least positive value, with its sign. -/
theorem literal_correctly_rounded_least :
    ¬Text.IsQuoted "-2.5e-324".toList ∧
      (Token.mk .literal "-2.5e-324" ⟨1, 1, 9⟩).value? = some (.number ⟨true, 1⟩) ∧
      Binary64.Rounds ⟨true, 1⟩ Decimal.belowMinusHalf.value := by
  have hvalue : (Token.mk .literal "-2.5e-324" ⟨1, 1, 9⟩).value? = some (.number ⟨true, 1⟩) := by
    decide +kernel
  have hquoted : ¬Text.IsQuoted "-2.5e-324".toList := by
    rintro ⟨contents, h⟩
    cases h
  obtain ⟨hdecimal, _⟩ :=
    literal_correctly_rounded (t := ⟨.literal, "-2.5e-324", ⟨1, 1, 9⟩⟩) rfl hquoted
  obtain ⟨x, hx, _, hrounds⟩ := hdecimal Decimal.belowMinusHalf rfl
  obtain rfl : Binary64.mk true 1 = x :=
    Value.number.inj (Option.some_inj.mp (hvalue.symm.trans hx))
  exact ⟨hquoted, hvalue, hrounds⟩

/-! ## Literals of a source -/

/-- A number as the rule has it is in decimal notation. -/
theorem Text.IsNumber.exists_decimal {text : List Char} (h : Text.IsNumber text) :
    ∃ d : Decimal, d.sign = none ∧ text = d.chars := by
  obtain ⟨whole, hwhole, hrest⟩ := h
  obtain ⟨hne, hdigits⟩ := hwhole.isDigits
  rcases hrest with rfl | ⟨fraction, hfraction, rfl⟩
  · refine ⟨⟨none, text, none, none, hdigits, ?_, Or.inl hne⟩, rfl, ?_⟩
    · rintro _ ⟨⟩
    · exact (List.append_nil text).symm
  · refine ⟨⟨none, whole, some fraction, none, hdigits, ?_, Or.inl hne⟩, rfl, ?_⟩
    · rintro _ ⟨⟩
      exact hfraction.2
    · exact congrArg (whole ++ '.' :: ·) (List.append_nil fraction).symm

theorem Text.IsNumber.head_ne {text : List Char} (h : Text.IsNumber text) :
    text.head? ≠ some '"' := by
  obtain ⟨c, hc, hdigit⟩ := h.exists_digit
  intro hfirst
  obtain rfl : c = '"' := Option.mem_unique hc hfirst
  cases hdigit

/-- A token of a source is a separator, or its kind describes it. -/
theorem describes_of_mem_tokens {source : String} {t : Token} (h : t ∈ (lex source).tokens)
    (hkind : t.kind ≠ .separator) : t.kind.Describes t.text := by
  obtain ⟨p, _, htoken⟩ := mem_tokens.mp h
  unfold Piece.token? at htoken
  split at htoken
  · cases htoken
    exact absurd rfl hkind
  · obtain ⟨⟨rule, kind⟩, hrecognize, rfl⟩ := Option.map_eq_some_iff.mp htoken
    exact Rule.map_snd_recognize_eq_some_iff.mp (Option.map_eq_some_iff.mpr ⟨_, hrecognize, rfl⟩)
  · cases htoken

namespace Token

variable {t : Token}

/-- So a number that the rule accepts stands for a number that is not negative. -/
theorem exists_value?_of_isNumber (hkind : t.kind = .literal) (h : Text.IsNumber t.text.toList) :
    ∃ x, t.value? = some (.number x) ∧ ¬x.IsNaN ∧ x.negative = false := by
  obtain ⟨d, hsign, htext⟩ := h.exists_decimal
  obtain ⟨x, hx, hnegative, hrounds⟩ := exists_value?_of_decimal hkind htext
  rw [hsign] at hnegative
  exact ⟨x, hx, hrounds.not_isNaN, hnegative⟩

/-- And a quoted text stands for what is quoted. -/
theorem exists_value?_of_isQuoted (hkind : t.kind = .literal) (h : Text.IsQuoted t.text.toList) :
    ∃ contents, t.value? = some (.string contents) ∧ "\"" ++ contents ++ "\"" = t.text := by
  obtain ⟨contents, htext⟩ := isQuoted_iff.mp h
  exact ⟨contents, (value?_eq_string_iff hkind).mpr htext, htext.symm⟩

end Token

/-- A literal of a source has a value, and its first character tells of which sort. -/
theorem exists_value?_of_mem_tokens {source : String} {t : Token} (h : t ∈ (lex source).tokens)
    (hkind : t.kind = .literal) :
    (t.text.toList.head? = some '"' →
        ∃ contents, t.value? = some (.string contents) ∧ "\"" ++ contents ++ "\"" = t.text) ∧
      (t.text.toList.head? ≠ some '"' →
        ∃ x, t.value? = some (.number x) ∧ ¬x.IsNaN ∧ x.negative = false) := by
  have hdescribes := describes_of_mem_tokens h (by rw [hkind]; decide)
  rw [hkind] at hdescribes
  cases hdescribes with
  | number hnumber =>
      exact ⟨fun hfirst => absurd hfirst hnumber.head_ne,
        fun _ => Token.exists_value?_of_isNumber hkind hnumber⟩
  | string hquoted =>
      exact ⟨fun _ => Token.exists_value?_of_isQuoted hkind hquoted,
        fun hfirst => absurd hquoted.head hfirst⟩

theorem value?_eq_none_iff_of_mem_tokens {source : String} {t : Token}
    (h : t ∈ (lex source).tokens) : t.value? = none ↔ t.kind ≠ .literal := by
  constructor
  · intro hnone hkind
    obtain ⟨hstring, hnumber⟩ := exists_value?_of_mem_tokens h hkind
    by_cases hfirst : t.text.toList.head? = some '"'
    · obtain ⟨contents, hvalue, _⟩ := hstring hfirst
      rw [hnone] at hvalue
      cases hvalue
    · obtain ⟨x, hvalue, _⟩ := hnumber hfirst
      rw [hnone] at hvalue
      cases hvalue
  · intro hkind
    exact if_neg hkind

/-- **What is recognized as a literal and what literals stand for agree.** A literal stands for a
text exactly if it is that text between quotation marks, and this is what the rule for strings
accepts. What the rule for numbers accepts stands for a number that is not negative. So in a source,
all literals have a value and no other token does, and the first character tells of which sort. -/
theorem values_agree :
    (∀ (text contents : String) (span : Span),
        (Token.mk .literal text span).value? = some (.string contents) ↔
          text = "\"" ++ contents ++ "\"") ∧
      (∀ (text : String) (span : Span),
        (∃ contents, (Token.mk .literal text span).value? = some (.string contents)) ↔
          (Rule.string.kind? text).isSome) ∧
      (∀ (text : String) (span : Span), (Rule.number.kind? text).isSome →
        ∃ x, (Token.mk .literal text span).value? = some (.number x) ∧
          ¬x.IsNaN ∧ x.negative = false) ∧
      ∀ source, ∀ t ∈ (lex source).tokens,
        (t.value? = none ↔ t.kind ≠ .literal) ∧
          (t.kind = .literal → t.text.toList.head? = some '"' →
            ∃ contents, t.value? = some (.string contents) ∧ "\"" ++ contents ++ "\"" = t.text) ∧
          (t.kind = .literal → t.text.toList.head? ≠ some '"' →
            ∃ x, t.value? = some (.number x) ∧ ¬x.IsNaN ∧ x.negative = false) := by
  refine ⟨fun _ _ _ => Token.value?_eq_string_iff rfl, ?_, ?_, ?_⟩
  · intro text span
    rw [Rule.isSome_string_iff, isQuoted_iff]
    exact exists_congr fun contents => Token.value?_eq_string_iff rfl
  · intro text span h
    exact Token.exists_value?_of_isNumber rfl (Rule.isSome_number_iff.mp h)
  · intro source t ht
    exact ⟨value?_eq_none_iff_of_mem_tokens ht,
      fun hkind => (exists_value?_of_mem_tokens ht hkind).1,
      fun hkind => (exists_value?_of_mem_tokens ht hkind).2⟩

/-- A number and a text with a mark of its own inside, both found in one source. -/
theorem values_agree_marks :
    (Rule.number.kind? "0.5").isSome ∧
      (∃ x, (Token.mk .literal "0.5" ⟨1, 5, 7⟩).value? = some (.number x) ∧
        ¬x.IsNaN ∧ x.negative = false) ∧
      Token.mk .literal "0.5" ⟨1, 5, 7⟩ ∈ (lex "x = 0.5 \"a\"\"").tokens ∧
      Token.mk .literal "\"a\"\"" ⟨1, 9, 12⟩ ∈ (lex "x = 0.5 \"a\"\"").tokens ∧
      ∃ contents, (Token.mk .literal "\"a\"\"" ⟨1, 9, 12⟩).value? = some (.string contents) ∧
        "\"" ++ contents ++ "\"" = "\"a\"\"" := by
  obtain ⟨_, _, hrule, htokens⟩ := values_agree
  have hnumber : (Rule.number.kind? "0.5").isSome := by decide
  have hfirst : Token.mk .literal "0.5" ⟨1, 5, 7⟩ ∈ (lex "x = 0.5 \"a\"\"").tokens := by
    decide +kernel
  have hsecond : Token.mk .literal "\"a\"\"" ⟨1, 9, 12⟩ ∈ (lex "x = 0.5 \"a\"\"").tokens := by
    decide +kernel
  refine ⟨hnumber, hrule "0.5" ⟨1, 5, 7⟩ hnumber, hfirst, hsecond, ?_⟩
  exact (htokens _ _ hsecond).2.1 rfl rfl

end Lexing
