import Lexing.Rule
import Lexing.Text.Fields
import Lexing.Text.Ranges
import Mathlib.Computability.Language

/-!
# What the rules accept

Each kind of run has a grammar of its own, which says nothing of rules: a keyword or an operator is
one of a list, a name is made of letters, digits and underscores, a number has a whole part and
perhaps a fraction, and a string is whatever stands between two quotation marks. The rules accept
what these grammars describe, and give it the kind that they name.

Two of the rules can be written as patterns. That they are the languages of those patterns is shown
by following each pattern from left to right.

The order in which the rules are asked makes no difference, because the first character of a run
already tells which of them could accept it.
-/

namespace Lexing

open scoped Computability

/-! ## Grammars -/

namespace Text

/-- Letters, digits and underscores of ASCII, at least one, and no digit in front. -/
structure IsName (text : List Char) : Prop where
  ne_nil : text ≠ []
  chars : ∀ c ∈ text, c.isAlpha = true ∨ c.isDigit = true ∨ c = '_'
  head : ∀ c ∈ text.head?, c.isDigit = false

/-- Digits of ASCII, at least one. -/
def IsDigits (text : List Char) : Prop := text ≠ [] ∧ ∀ c ∈ text, c.isDigit = true

/-- A zero, or digits of which the first is not zero. -/
def IsWhole (text : List Char) : Prop := text = ['0'] ∨ IsDigits text ∧ text.head? ≠ some '0'

theorem IsWhole.isDigits {text : List Char} (h : IsWhole text) : IsDigits text := by
  rcases h with rfl | ⟨hdigits, _⟩
  · refine ⟨List.cons_ne_nil _ _, fun c hc => ?_⟩
    rw [List.mem_singleton.mp hc]
    rfl
  · exact hdigits

/-- A whole part, and perhaps a point and more digits. -/
def IsNumber (text : List Char) : Prop :=
  ∃ whole, IsWhole whole ∧
    (text = whole ∨ ∃ fraction, IsDigits fraction ∧ text = whole ++ '.' :: fraction)

/-- A number begins with a digit. -/
theorem IsNumber.exists_digit {text : List Char} (h : IsNumber text) :
    ∃ c ∈ text.head?, c.isDigit = true := by
  obtain ⟨whole, hwhole, hrest⟩ := h
  obtain ⟨hne, hdigits⟩ := hwhole.isDigits
  obtain ⟨c, digits, rfl⟩ := List.exists_cons_of_ne_nil hne
  refine ⟨c, ?_, hdigits c List.mem_cons_self⟩
  rcases hrest with rfl | ⟨fraction, _, rfl⟩
  · rfl
  · rfl

/-- Anything between two quotation marks. -/
def IsQuoted (text : List Char) : Prop := ∃ contents, text = '"' :: contents ++ ['"']

theorem IsQuoted.head {text : List Char} (h : IsQuoted text) : text.head? = some '"' := by
  obtain ⟨contents, rfl⟩ := h
  rfl

/-- Every text begins with some digits, perhaps none, behind which there is no further digit. -/
theorem exists_digits_append (text : List Char) :
    ∃ digits rest, text = digits ++ rest ∧ (∀ c ∈ digits, c.isDigit = true) ∧
      ∀ c ∈ rest.head?, c.isDigit = false := by
  refine ⟨text.takeWhile Char.isDigit, text.dropWhile Char.isDigit,
    List.takeWhile_append_dropWhile.symm, List.all_eq_true.mp List.all_takeWhile, ?_⟩
  intro c hc
  have hstop := List.head?_dropWhile_not Char.isDigit text
  rwa [Option.mem_def.mp hc] at hstop

end Text

/-- What makes a run one of a kind. -/
inductive Kind.Describes : Kind → String → Prop where
  | keyword {text : String} : text ∈ keywords → Describes .keyword text
  | identifier {text : String} : Text.IsName text.toList → text ∉ keywords →
      Describes .identifier text
  | operator {text : String} : text ∈ operators → Describes .operator text
  | number {text : String} : Text.IsNumber text.toList → Describes .literal text
  | string {text : String} : Text.IsQuoted text.toList → Describes .literal text

/-! ## Patterns -/

namespace Text

/-- The texts of a single character that lies in one of the ranges. -/
def oneOf (ranges : List (Nat × Nat)) : Language Char :=
  {text | ∃ c, within ranges c = true ∧ text = [c]}

/-- A letter or an underscore, then letters, digits and underscores: `[A-Za-z_][A-Za-z0-9_]*`. -/
def namePattern : Language Char :=
  oneOf [(0x41, 0x5a), (0x61, 0x7a), (0x5f, 0x5f)] *
    (oneOf [(0x41, 0x5a), (0x61, 0x7a), (0x30, 0x39), (0x5f, 0x5f)])∗

/-- A number without leading zeros, and perhaps a fraction: `(?:[1-9][0-9]*|0)(?:\.[0-9]+)?`. -/
def numberPattern : Language Char :=
  (oneOf [(0x31, 0x39)] * (oneOf [(0x30, 0x39)])∗ + {['0']}) *
    (1 + {['.']} * (oneOf [(0x30, 0x39)] * (oneOf [(0x30, 0x39)])∗))

theorem mem_oneOf_kstar {ranges : List (Nat × Nat)} {text : List Char} :
    text ∈ (oneOf ranges)∗ ↔ ∀ c ∈ text, within ranges c = true := by
  rw [Language.mem_kstar]
  constructor
  · rintro ⟨parts, rfl, hparts⟩ c hc
    obtain ⟨part, hpart, hc⟩ := List.mem_flatten.mp hc
    obtain ⟨d, hd, rfl⟩ := hparts part hpart
    rw [List.mem_singleton.mp hc]
    exact hd
  · intro h
    refine ⟨text.map fun c => [c], ?_, ?_⟩
    · rw [← List.flatMap_def, List.flatMap_singleton']
    · intro part hpart
      obtain ⟨c, hc, rfl⟩ := List.mem_map.mp hpart
      exact ⟨c, h c hc, rfl⟩

theorem mem_oneOf_mul {ranges : List (Nat × Nat)} {l : Language Char} {text : List Char} :
    text ∈ oneOf ranges * l ↔ ∃ c rest, text = c :: rest ∧ within ranges c = true ∧ rest ∈ l := by
  rw [Language.mem_mul]
  constructor
  · rintro ⟨_, ⟨c, hc, rfl⟩, rest, hrest, rfl⟩
    exact ⟨c, rest, rfl, hc, hrest⟩
  · rintro ⟨c, rest, rfl, hc, hrest⟩
    exact ⟨[c], ⟨c, hc, rfl⟩, rest, hrest, rfl⟩

theorem within_digit_iff {c : Char} : within [(0x30, 0x39)] c = true ↔ c.isDigit = true := by
  rw [within_iff, Char.isDigit_iff_toNat]
  simp only [List.mem_singleton, exists_eq_left]
  rfl

/-- A digit that is not zero. -/
theorem within_nonzero_iff {c : Char} :
    within [(0x31, 0x39)] c = true ↔ c.isDigit = true ∧ c ≠ '0' := by
  have hzero : c ≠ '0' ↔ c.toNat ≠ 0x30 := Char.toNat_inj.symm.not
  rw [hzero, ← within_digit_iff, within_iff, within_iff]
  simp only [List.mem_singleton, exists_eq_left]
  omega

theorem isAlpha_iff_toNat {c : Char} : c.isAlpha = true ↔
    (0x41 ≤ c.toNat ∧ c.toNat ≤ 0x5a) ∨ 0x61 ≤ c.toNat ∧ c.toNat ≤ 0x7a := by
  show (decide (0x41 ≤ c.val ∧ c.val ≤ 0x5a) ||
    (decide (0x61 ≤ c.val) && decide (c.val ≤ 0x7a))) = true ↔ _
  simp only [Bool.or_eq_true, Bool.and_eq_true, decide_eq_true_eq, UInt32.le_iff_toNat_le]
  rfl

theorem within_start_iff {c : Char} :
    within [(0x41, 0x5a), (0x61, 0x7a), (0x5f, 0x5f)] c = true ↔ Rule.startsWord c = true := by
  have hmark : c = '_' ↔ c.toNat = 0x5f := Char.toNat_inj.symm
  rw [within_iff, Rule.startsWord, Bool.or_eq_true, beq_iff_eq, isAlpha_iff_toNat, hmark]
  simp only [List.mem_cons, List.not_mem_nil, or_false, exists_eq_or_imp, exists_eq_left]
  omega

theorem within_rest_iff {c : Char} :
    within [(0x41, 0x5a), (0x61, 0x7a), (0x30, 0x39), (0x5f, 0x5f)] c = true ↔
      Rule.continuesWord c = true := by
  have hcontinues : Rule.continuesWord c = true ↔ Rule.startsWord c = true ∨ c.isDigit = true := by
    simp only [Rule.continuesWord, Rule.startsWord, Char.isAlphanum, Bool.or_eq_true]
    tauto
  rw [hcontinues, ← within_start_iff, ← within_digit_iff]
  simp only [within_iff, List.mem_cons, List.not_mem_nil, or_false, exists_eq_or_imp,
    exists_eq_left]
  tauto

end Text

/-! ## What each rule accepts -/

namespace Rule

theorem continuesWord_iff {c : Char} : continuesWord c = true ↔
    c.isAlpha = true ∨ c.isDigit = true ∨ c = '_' := by
  simp only [continuesWord, Char.isAlphanum, Bool.or_eq_true, beq_iff_eq]
  tauto

/-- A word may begin with whatever it may go on with, except for a digit. -/
theorem startsWord_iff {c : Char} :
    startsWord c = true ↔ continuesWord c = true ∧ c.isDigit = false := by
  rw [← Text.within_start_iff, ← Text.within_rest_iff, ← Bool.not_eq_true, ← Text.within_digit_iff]
  simp only [Text.within_iff, List.mem_cons, List.not_mem_nil, or_false, exists_eq_or_imp,
    exists_eq_left]
  omega

theorem isWord_iff {text : List Char} : isWord text = true ↔ Text.IsName text := by
  cases text with
  | nil => exact ⟨fun h => Bool.noConfusion h, fun h => absurd rfl h.ne_nil⟩
  | cons c rest =>
      rw [isWord, Bool.and_eq_true, List.all_eq_true, startsWord_iff]
      constructor
      · rintro ⟨⟨hc, hdigit⟩, hrest⟩
        refine ⟨List.cons_ne_nil c rest, ?_, ?_⟩
        · intro d hd
          rcases List.mem_cons.mp hd with rfl | hd
          · exact continuesWord_iff.mp hc
          · exact continuesWord_iff.mp (hrest d hd)
        · rintro _ ⟨⟩
          exact hdigit
      · rintro ⟨_, hchars, hhead⟩
        refine ⟨⟨continuesWord_iff.mpr (hchars c List.mem_cons_self), hhead c rfl⟩, ?_⟩
        intro d hd
        exact continuesWord_iff.mpr (hchars d (List.mem_cons_of_mem c hd))

theorem isWord_iff_mem_namePattern {text : List Char} :
    isWord text = true ↔ text ∈ Text.namePattern := by
  rw [Text.namePattern, Text.mem_oneOf_mul]
  cases text with
  | nil => simp [isWord]
  | cons c rest =>
      simp [isWord, Text.mem_oneOf_kstar, Text.within_start_iff, Text.within_rest_iff]

theorem isWholePart_iff {digits : List Char} (h : ∀ c ∈ digits, c.isDigit = true) :
    isWholePart digits = true ↔ Text.IsWhole digits := by
  unfold isWholePart Text.IsWhole Text.IsDigits
  split
  · simp
  · simp
  · rename_i hnil hzero
    simp only [Bool.and_eq_true, List.all_eq_true, bne_iff_ne]
    tauto

theorem isFraction_iff {text : List Char} : isFraction text = true ↔
    text = [] ∨ ∃ fraction, Text.IsDigits fraction ∧ text = '.' :: fraction := by
  cases text with
  | nil => simp [isFraction]
  | cons c digits =>
      simp only [isFraction, Text.IsDigits, Bool.and_eq_true, beq_iff_eq, Bool.not_eq_true',
        List.isEmpty_eq_false_iff, List.all_eq_true, List.cons.injEq, reduceCtorEq, false_or]
      constructor
      · rintro ⟨⟨hc, hne⟩, hall⟩
        exact ⟨digits, ⟨hne, hall⟩, hc, rfl⟩
      · rintro ⟨_, ⟨hne, hall⟩, hc, rfl⟩
        exact ⟨⟨hc, hne⟩, hall⟩

/-- The digits in front of a number are its whole part, since a fraction begins with its point. -/
theorem isNumber_append_iff {whole rest : List Char} (hwhole : ∀ c ∈ whole, c.isDigit = true)
    (hrest : ∀ c ∈ rest.head?, c.isDigit = false) :
    isNumber (whole ++ rest) = true ↔ Text.IsWhole whole ∧
      (rest = [] ∨ ∃ fraction, Text.IsDigits fraction ∧ rest = '.' :: fraction) := by
  rw [isNumber, Text.takeWhile_append_of_stop hwhole hrest,
    Text.dropWhile_append_of_stop hwhole hrest, Bool.and_eq_true, isWholePart_iff hwhole,
    isFraction_iff]

theorem isNumber_iff {text : List Char} : isNumber text = true ↔ Text.IsNumber text := by
  constructor
  · intro h
    obtain ⟨whole, rest, rfl, hdigits, hstop⟩ := Text.exists_digits_append text
    obtain ⟨hwhole, hrest⟩ := (isNumber_append_iff hdigits hstop).mp h
    refine ⟨whole, hwhole, ?_⟩
    rcases hrest with rfl | ⟨fraction, hfraction, rfl⟩
    · exact Or.inl (List.append_nil whole)
    · exact Or.inr ⟨fraction, hfraction, rfl⟩
  · -- the whole part ends where the text ends or at the point, which is no digit
    rintro ⟨whole, hwhole, rfl | ⟨fraction, hfraction, rfl⟩⟩
    · have hend : ∀ c ∈ ([] : List Char).head?, c.isDigit = false := by rintro _ ⟨⟩
      rw [← List.append_nil text]
      exact (isNumber_append_iff hwhole.isDigits.2 hend).mpr ⟨hwhole, Or.inl rfl⟩
    · have hpoint : ∀ c ∈ ('.' :: fraction).head?, c.isDigit = false := by
        rintro _ ⟨⟩
        rfl
      exact (isNumber_append_iff hwhole.isDigits.2 hpoint).mpr
        ⟨hwhole, Or.inr ⟨fraction, hfraction, rfl⟩⟩

theorem isString_iff {text : List Char} : isString text = true ↔ Text.IsQuoted text := by
  unfold isString Text.IsQuoted
  simp only [Bool.and_eq_true, decide_eq_true_eq, beq_iff_eq]
  constructor
  · rintro ⟨⟨hlength, hfirst⟩, hlast⟩
    obtain ⟨rest, rfl⟩ := List.head?_eq_some_iff.mp hfirst
    obtain ⟨init, hinit⟩ := List.getLast?_eq_some_iff.mp hlast
    -- a single mark would be both the first and the last character
    cases init with
    | nil =>
        rw [hinit] at hlength
        exact absurd hlength (by decide)
    | cons c init =>
        obtain ⟨rfl, hrest⟩ := List.cons.inj hinit
        exact ⟨init, congrArg _ hrest⟩
  · rintro ⟨contents, rfl⟩
    refine ⟨⟨?_, rfl⟩, List.getLast?_concat⟩
    rw [List.length_append]
    show 2 ≤ contents.length + 1 + 1
    omega

theorem isSome_number_iff {text : String} :
    (number.kind? text).isSome ↔ Text.IsNumber text.toList := by
  rw [← isNumber_iff, kind?]
  simp

theorem isSome_string_iff {text : String} :
    (string.kind? text).isSome ↔ Text.IsQuoted text.toList := by
  rw [← isString_iff, kind?]
  simp

end Rule

namespace Text

theorem mem_digits {text : List Char} :
    text ∈ oneOf [(0x30, 0x39)] * (oneOf [(0x30, 0x39)])∗ ↔ IsDigits text := by
  rw [mem_oneOf_mul]
  cases text with
  | nil => simp [IsDigits]
  | cons c rest => simp [IsDigits, mem_oneOf_kstar, within_digit_iff]

theorem mem_whole {text : List Char} :
    text ∈ oneOf [(0x31, 0x39)] * (oneOf [(0x30, 0x39)])∗ + ({['0']} : Language Char) ↔
      IsWhole text := by
  rw [Language.mem_add, or_comm, IsWhole, mem_oneOf_mul]
  refine or_congr Set.mem_singleton_iff ?_
  cases text with
  | nil => simp [IsDigits]
  | cons c rest =>
      simp only [List.cons.injEq, IsDigits, mem_oneOf_kstar, within_digit_iff, within_nonzero_iff,
        List.head?_cons, ne_eq, Option.some.injEq, List.forall_mem_cons]
      constructor
      · rintro ⟨d, digits, ⟨rfl, rfl⟩, ⟨hc, hzero⟩, hrest⟩
        exact ⟨⟨List.cons_ne_nil c rest, hc, hrest⟩, hzero⟩
      · rintro ⟨⟨_, hc, hrest⟩, hzero⟩
        exact ⟨c, rest, ⟨rfl, rfl⟩, ⟨hc, hzero⟩, hrest⟩

theorem mem_fraction {text : List Char} :
    text ∈ 1 + ({['.']} : Language Char) * (oneOf [(0x30, 0x39)] * (oneOf [(0x30, 0x39)])∗) ↔
      text = [] ∨ ∃ fraction, IsDigits fraction ∧ text = '.' :: fraction := by
  rw [Language.mem_add, Language.mem_one, Language.mem_mul]
  refine or_congr_right ?_
  constructor
  · rintro ⟨point, hpoint, fraction, hfraction, rfl⟩
    rw [Set.mem_singleton_iff.mp hpoint]
    exact ⟨fraction, mem_digits.mp hfraction, rfl⟩
  · rintro ⟨fraction, hfraction, rfl⟩
    exact ⟨['.'], rfl, fraction, mem_digits.mpr hfraction, rfl⟩

/-- A number is what its pattern describes. -/
theorem mem_numberPattern {text : List Char} : text ∈ numberPattern ↔ IsNumber text := by
  rw [numberPattern, Language.mem_mul, IsNumber]
  constructor
  · rintro ⟨whole, hwhole, rest, hrest, rfl⟩
    refine ⟨whole, mem_whole.mp hwhole, ?_⟩
    rcases mem_fraction.mp hrest with rfl | ⟨fraction, hdigits, rfl⟩
    · exact Or.inl (List.append_nil whole)
    · exact Or.inr ⟨fraction, hdigits, rfl⟩
  · rintro ⟨whole, hwhole, rfl | ⟨fraction, hdigits, rfl⟩⟩
    · exact ⟨text, mem_whole.mpr hwhole, [], mem_fraction.mpr (Or.inl rfl), List.append_nil text⟩
    · exact ⟨whole, mem_whole.mpr hwhole, '.' :: fraction,
        mem_fraction.mpr (Or.inr ⟨fraction, hdigits, rfl⟩), rfl⟩

end Text

/-! ## Which rule answers -/

namespace Rule

/-- The only rule that could accept a run beginning with the given character. -/
def ofFirst (c : Char) : Rule :=
  if startsWord c then .word
  else if c.isDigit then .number
  else if c = '"' then .string
  else .operator

theorem ofFirst_of_isDigit {c : Char} (h : c.isDigit = true) : ofFirst c = .number := by
  have hstarts : ¬startsWord c = true := by
    intro hstart
    rw [(startsWord_iff.mp hstart).2] at h
    cases h
  rw [ofFirst, if_neg hstarts, if_pos h]

/-- **The first character of a run tells which rule accepts it**, if one does. -/
theorem ofFirst_of_kind? {rule : Rule} {text : String} {kind : Kind}
    (h : rule.kind? text = some kind) : text.toList.head?.map ofFirst = some rule := by
  cases rule with
  | word =>
      obtain ⟨hword, _⟩ := Option.ite_none_right_eq_some.mp h
      cases hchars : text.toList with
      | nil =>
          rw [hchars] at hword
          cases hword
      | cons c rest =>
          rw [hchars, isWord, Bool.and_eq_true] at hword
          exact congrArg some (if_pos hword.1)
  | number =>
      obtain ⟨hnumber, _⟩ := Option.ite_none_right_eq_some.mp h
      obtain ⟨c, hfirst, hdigit⟩ := (isNumber_iff.mp hnumber).exists_digit
      rw [hfirst]
      exact congrArg some (ofFirst_of_isDigit hdigit)
  | operator =>
      obtain ⟨hoperator, _⟩ := Option.ite_none_right_eq_some.mp h
      have hall : ∀ text ∈ operators, text.toList.head?.map ofFirst = some operator := by decide
      exact hall text hoperator
  | string =>
      obtain ⟨hstring, _⟩ := Option.ite_none_right_eq_some.mp h
      rw [(isString_iff.mp hstring).head]
      rfl

/-- So no two rules accept the same run. -/
theorem eq_of_kind? {rule other : Rule} {text : String} {kind kind' : Kind}
    (h : rule.kind? text = some kind) (h' : other.kind? text = some kind') : rule = other :=
  Option.some_inj.mp ((ofFirst_of_kind? h).symm.trans (ofFirst_of_kind? h'))

/-- The rule that answers is the one that accepts, wherever in the list it stands. -/
theorem firstOf_eq_some_iff {rules : List Rule} {text : String} {rule : Rule} {kind : Kind} :
    firstOf rules text = some (rule, kind) ↔ rule ∈ rules ∧ rule.kind? text = some kind := by
  induction rules with
  | nil => simp [firstOf]
  | cons first rules ih =>
      rw [firstOf, List.findSome?_cons, List.mem_cons]
      cases hfirst : first.kind? text with
      | none =>
          refine ih.trans ⟨fun h => ⟨Or.inr h.1, h.2⟩, fun h => ⟨h.1.resolve_left ?_, h.2⟩⟩
          rintro rfl
          rw [hfirst] at h
          cases h.2
      | some kind' =>
          show some (first, kind') = some (rule, kind) ↔ _
          rw [Option.some_inj, Prod.mk.injEq]
          constructor
          · rintro ⟨rfl, rfl⟩
            exact ⟨Or.inl rfl, hfirst⟩
          · rintro ⟨_, h⟩
            obtain rfl := eq_of_kind? hfirst h
            rw [hfirst, Option.some_inj] at h
            exact ⟨rfl, h⟩

theorem mem_all (rule : Rule) : rule ∈ all := by
  cases rule <;> decide

theorem recognize_eq_some_iff {text : String} {rule : Rule} {kind : Kind} :
    recognize text = some (rule, kind) ↔ rule.kind? text = some kind := by
  rw [recognize, firstOf_eq_some_iff]
  exact and_iff_right (mem_all rule)

/-- In whatever order the rules are asked, the same one answers. -/
theorem firstOf_eq_recognize {rules : List Rule} (h : rules.Perm all) (text : String) :
    firstOf rules text = recognize text := by
  refine Option.ext fun answer => ?_
  rw [firstOf_eq_some_iff, recognize_eq_some_iff]
  exact and_iff_right (h.mem_iff.mpr (mem_all answer.1))

/-! ## Kinds -/

/-- All reserved words are names. -/
theorem isName_of_mem_keywords {text : String} (h : text ∈ keywords) : Text.IsName text.toList := by
  have hall : ∀ text ∈ keywords, isWord text.toList = true := by decide
  exact isWord_iff.mp (hall text h)

/-- A run is given the kind that describes it, and only that one. -/
theorem exists_kind?_iff {text : String} {kind : Kind} :
    (∃ rule : Rule, rule.kind? text = some kind) ↔ kind.Describes text := by
  constructor
  · rintro ⟨rule, h⟩
    cases rule with
    | word =>
        obtain ⟨hword, hkind⟩ := Option.ite_none_right_eq_some.mp h
        rw [Option.some_inj] at hkind
        split at hkind
        · rename_i hkeyword
          rw [← hkind]
          exact .keyword hkeyword
        · rename_i hkeyword
          rw [← hkind]
          exact .identifier (isWord_iff.mp hword) hkeyword
    | number =>
        obtain ⟨hnumber, hkind⟩ := Option.ite_none_right_eq_some.mp h
        obtain rfl := Option.some_inj.mp hkind
        exact .number (isNumber_iff.mp hnumber)
    | operator =>
        obtain ⟨hoperator, hkind⟩ := Option.ite_none_right_eq_some.mp h
        obtain rfl := Option.some_inj.mp hkind
        exact .operator hoperator
    | string =>
        obtain ⟨hstring, hkind⟩ := Option.ite_none_right_eq_some.mp h
        obtain rfl := Option.some_inj.mp hkind
        exact .string (isString_iff.mp hstring)
  · intro h
    cases h with
    | keyword h =>
        -- reserved words are asked for only among words, and all of them are some
        refine ⟨.word, ?_⟩
        rw [kind?, if_pos (isWord_iff.mpr (isName_of_mem_keywords h)), if_pos h]
    | identifier h hkeyword =>
        refine ⟨.word, ?_⟩
        rw [kind?, if_pos (isWord_iff.mpr h), if_neg hkeyword]
    | operator h => exact ⟨.operator, if_pos h⟩
    | number h => exact ⟨.number, if_pos (isNumber_iff.mpr h)⟩
    | string h => exact ⟨.string, if_pos (isString_iff.mpr h)⟩

/-- The kind of a run, if a rule recognizes it. -/
theorem map_snd_recognize_eq_some_iff {text : String} {kind : Kind} :
    (recognize text).map Prod.snd = some kind ↔ kind.Describes text := by
  rw [← exists_kind?_iff, Option.map_eq_some_iff]
  constructor
  · rintro ⟨⟨rule, _⟩, h, rfl⟩
    exact ⟨rule, recognize_eq_some_iff.mp h⟩
  · rintro ⟨rule, h⟩
    exact ⟨(rule, kind), recognize_eq_some_iff.mpr h, rfl⟩

/-- **The rules accept what the grammars describe**, and nothing else. Words and numbers are the
languages of their patterns. No run is accepted by two rules, so in whatever order they are asked,
the same rule answers and gives the same kind. -/
theorem recognize_exact (text : String) :
    (∀ kind, (recognize text).map Prod.snd = some kind ↔ kind.Describes text) ∧
      (recognize text = none ↔ ∀ kind, ¬Kind.Describes kind text) ∧
      ((word.kind? text).isSome ↔ text.toList ∈ Text.namePattern) ∧
      ((number.kind? text).isSome ↔ text.toList ∈ Text.numberPattern) ∧
      (∀ rule other : Rule, (rule.kind? text).isSome → (other.kind? text).isSome →
        rule = other) ∧
      ∀ rules : List Rule, rules.Perm all → firstOf rules text = recognize text := by
  refine ⟨fun kind => map_snd_recognize_eq_some_iff, ?_, ?_, ?_, ?_, ?_⟩
  · simp only [← map_snd_recognize_eq_some_iff]
    rw [← Option.map_eq_none_iff (f := Prod.snd), Option.eq_none_iff_forall_ne_some]
  · rw [← isWord_iff_mem_namePattern, kind?]
    simp
  · rw [Text.mem_numberPattern, isSome_number_iff]
  · intro rule other h h'
    obtain ⟨kind, h⟩ := Option.isSome_iff_exists.mp h
    obtain ⟨kind', h'⟩ := Option.isSome_iff_exists.mp h'
    exact eq_of_kind? h h'
  · intro rules h
    exact firstOf_eq_recognize h text

/-- Asked the other way round, the rules still take a fraction for a number, and a word with a mark
behind it for nothing. -/
theorem recognize_exact_reversed :
    [string, operator, number, word].Perm all ∧
      firstOf [string, operator, number, word] "0.50" = some (number, .literal) ∧
      firstOf [string, operator, number, word] "if!" = none ∧
      (number.kind? "0.50").isSome ∧
      ∀ other : Rule, (other.kind? "0.50").isSome → number = other := by
  have hperm : [string, operator, number, word].Perm all := by decide
  obtain ⟨_, _, _, _, hunique, horder⟩ := recognize_exact "0.50"
  obtain ⟨_, _, _, _, _, horder'⟩ := recognize_exact "if!"
  have hnumber : (number.kind? "0.50").isSome := by decide
  have hfraction := (horder _ hperm).trans (by decide : _ = some (number, .literal))
  have hword := (horder' _ hperm).trans (by decide : _ = none)
  refine ⟨hperm, hfraction, hword, hnumber, ?_⟩
  intro other h
  exact hunique number other hnumber h

end Rule

end Lexing
