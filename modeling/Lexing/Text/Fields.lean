/-!
# Reading fields

Written forms with several fields are read from the front, one field after the other. Each reader
gives what it read and the characters after it, and takes back what was written: a number if no
digit follows it, and the text before a mark if the mark is not in it.
-/

namespace Lexing.Text

theorem takeWhile_append_of_stop {α : Type} {p : α → Bool} {xs rest : List α}
    (hxs : ∀ x ∈ xs, p x = true) (hrest : ∀ x ∈ rest.head?, p x = false) :
    (xs ++ rest).takeWhile p = xs := by
  rw [List.takeWhile_append_of_pos hxs]
  cases rest with
  | nil => simp
  | cons x rest => simp [hrest x rfl]

theorem dropWhile_append_of_stop {α : Type} {p : α → Bool} {xs rest : List α}
    (hxs : ∀ x ∈ xs, p x = true) (hrest : ∀ x ∈ rest.head?, p x = false) :
    (xs ++ rest).dropWhile p = rest := by
  rw [List.dropWhile_append_of_pos hxs]
  cases rest with
  | nil => rfl
  | cons x rest => simp [hrest x rfl]

/-- Reads a decimal number of at least one digit: its value, and the characters after it. -/
def readNat? (chars : List Char) : Option (Nat × List Char) :=
  let digits := chars.takeWhile Char.isDigit
  if digits.isEmpty then none
  else some (Nat.ofDigitChars 10 digits 0, chars.dropWhile Char.isDigit)

/-- A number is read back from its decimal digits if no further digit follows. -/
theorem readNat?_toDigits_append (n : Nat) (rest : List Char)
    (h : ∀ c ∈ rest.head?, c.isDigit = false) :
    readNat? (Nat.toDigits 10 n ++ rest) = some (n, rest) := by
  have hd : ∀ c ∈ Nat.toDigits 10 n, c.isDigit = true := fun c hc =>
    Nat.isDigit_of_mem_toDigits (by decide) (by decide) hc
  simp [readNat?, takeWhile_append_of_stop hd h, dropWhile_append_of_stop hd h,
    Nat.toDigits_ne_nil, Nat.ofDigitChars_ten_toDigits]

/-- A blank is no digit, so it ends the number in front of it. -/
theorem readNat?_toDigits_text {text : String} (h : text.toList.head? = some ' ') (n : Nat)
    (rest : List Char) :
    readNat? (Nat.toDigits 10 n ++ (text.toList ++ rest)) = some (n, text.toList ++ rest) := by
  refine readNat?_toDigits_append n _ ?_
  intro c hc
  rw [List.head?_append, h] at hc
  cases hc
  rfl

/-- Reads the given mark: the characters after it. -/
def readMark? (mark : Char) : List Char → Option (List Char)
  | [] => none
  | c :: rest => if c = mark then some rest else none

@[simp] theorem readMark?_self (mark : Char) (rest : List Char) :
    readMark? mark (mark :: rest) = some rest := by
  simp [readMark?]

/-- Reads the given text: the characters after it. -/
def readText? (text : String) (chars : List Char) : Option (List Char) :=
  text.toList.foldlM (fun rest mark => readMark? mark rest) chars

@[simp] theorem readText?_append (text : String) (rest : List Char) :
    readText? text (text.toList ++ rest) = some rest := by
  unfold readText?
  induction text.toList with
  | nil => rfl
  | cons mark text ih =>
      rw [List.cons_append, List.foldlM_cons, readMark?_self]
      exact ih

/-- Reads up to the given mark: the characters before it and those after it. -/
def readUntil? (mark : Char) (chars : List Char) : Option (List Char × List Char) :=
  (readMark? mark (chars.dropWhile (· != mark))).map fun rest => (chars.takeWhile (· != mark), rest)

/-- A text without the mark is read back from in front of the mark. -/
theorem readUntil?_append {mark : Char} {before : List Char} (h : mark ∉ before)
    (rest : List Char) : readUntil? mark (before ++ mark :: rest) = some (before, rest) := by
  have hb : ∀ c ∈ before, (c != mark) = true := fun c hc => by
    rw [bne_iff_ne]
    exact fun e => h (e ▸ hc)
  have hr : ∀ c ∈ (mark :: rest).head?, (c != mark) = false := by simp
  simp [readUntil?, takeWhile_append_of_stop hb hr, dropWhile_append_of_stop hb hr]

end Lexing.Text
