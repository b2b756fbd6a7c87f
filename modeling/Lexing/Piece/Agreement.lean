import Lexing.Piece.ByLine
import Lexing.Piece.Cutter

/-!
# The two accounts of pieces agree

The cutter reads a source in one pass and knows only what stands open; the account line by line sees
each line whole. That they agree is shown by saying, for every state of the cutter, what it is still
going to find on the lines that are left, and checking that reading one character keeps that
promise. What is left of the current line matters only as far as the mode lets it: an open run first
takes in the plain characters that follow it, and an open comment takes in the whole line.
-/

namespace Lexing

namespace Piece

/-! ## Lines, one character at a time -/

theorem isPlain_commentMark : isPlain commentMark = false := by decide

theorem isPlain_iff {c : Char} : isPlain c = true ↔ Role.of c = .plain := by
  simp [isPlain]

theorem role_commentMark : Role.of commentMark = .mark := by decide

theorem eq_commentMark_of_role {c : Char} (h : Role.of c = .mark) : c = commentMark := by
  unfold Role.of at h
  split at h
  · cases h
  split at h
  · cases h
  split at h
  · assumption
  · cases h

theorem ne_commentMark_of_role {c : Char} (h : Role.of c ≠ .mark) : c ≠ commentMark :=
  fun e => h (e ▸ role_commentMark)

theorem code_cons {c : Char} (h : c ≠ commentMark) (line : List Char) :
    code (c :: line) = c :: code line := by
  simp [code, h]

theorem lastForm_cons {c : Char} (h : c ≠ commentMark) (line : List Char) :
    lastForm (c :: line) = lastForm line := by
  have h' : commentMark ≠ c := fun e => h e.symm
  simp [lastForm, h']

theorem ofLine_nil (number column : Nat) : ofLine number column [] = [] := by
  simp [ofLine, code, ofCode]

theorem ofLine_blank {c : Char} (h : Role.of c = .blank) (number column : Nat)
    (line : List Char) : ofLine number column (c :: line) = ofLine number (column + 1) line := by
  have hne : c ≠ commentMark := ne_commentMark_of_role (by rw [h]; decide)
  rw [ofLine, code_cons hne, lastForm_cons hne, ofCode, h]
  rfl

theorem ofLine_separator {c : Char} (h : Role.of c = .separator) (number column : Nat)
    (line : List Char) : ofLine number column (c :: line) =
      ⟨.separator, String.singleton c, ⟨number, column + 1, column + 1⟩⟩ ::
        ofLine number (column + 1) line := by
  have hne : c ≠ commentMark := ne_commentMark_of_role (by rw [h]; decide)
  rw [ofLine, code_cons hne, lastForm_cons hne, ofCode, h]
  rfl

theorem ofLine_mark {c : Char} (h : Role.of c = .mark) (number column : Nat)
    (line : List Char) : ofLine number column (c :: line) = [] := by
  rw [ofLine, eq_commentMark_of_role h]
  simp [code, ofCode]

theorem takeWhile_isPlain_code (line : List Char) :
    (code line).takeWhile isPlain = line.takeWhile isPlain := by
  induction line with
  | nil => rfl
  | cons c line ih =>
    by_cases h : c = commentMark
    · subst h
      simp [code, isPlain_commentMark]
    · rw [code_cons h, List.takeWhile_cons, List.takeWhile_cons, ih]

theorem dropWhile_isPlain_code (line : List Char) :
    (code line).dropWhile isPlain = code (line.dropWhile isPlain) := by
  induction line with
  | nil => rfl
  | cons c line ih =>
    by_cases h : c = commentMark
    · subst h
      simp [code, isPlain_commentMark]
    · rw [code_cons h, List.dropWhile_cons, List.dropWhile_cons]
      split
      · exact ih
      · exact (code_cons h line).symm

theorem lastForm_dropWhile_isPlain (line : List Char) :
    lastForm (line.dropWhile isPlain) = lastForm line := by
  induction line with
  | nil => rfl
  | cons c line ih =>
    rw [List.dropWhile_cons]
    split
    · rename_i h
      have hne : c ≠ commentMark := ne_commentMark_of_role (by rw [isPlain_iff.mp h]; decide)
      rw [ih, lastForm_cons hne]
    · rfl

/-! ## Open runs -/

/-- What a run turns out to be in front of the given characters, if it does not go on. -/
def formBefore (after : List Char) : Form := (Form.ofNext? after.head?).getD .run

theorem lastForm_code {after : List Char} (h : ∀ c ∈ after.head?, isPlain c = false) :
    (if (code after).isEmpty then lastForm after else .run) = formBefore after := by
  cases after with
  | nil => rfl
  | cons c after =>
    have hc : isPlain c = false := h c rfl
    by_cases hm : c = commentMark
    · subst hm
      simp [code, lastForm, formBefore, Form.ofNext?, role_commentMark]
    · rw [code_cons hm]
      have hrole : Role.of c ≠ .mark := fun e => hm (eq_commentMark_of_role e)
      simp only [List.isEmpty_cons, formBefore, List.head?_cons, Form.ofNext?]
      cases hr : Role.of c with
      | blank => rfl
      | separator => rfl
      | mark => exact absurd hr hrole
      | plain => rw [isPlain_iff.mpr hr] at hc; cases hc

/-- The pieces of what a line holds after the given column, where a run is open that began in
column `first` and has the given text so far. -/
def ofLineInRun (number first column : Nat) (text : String) (line : List Char) : List Piece :=
  let run := line.takeWhile isPlain
  let after := line.dropWhile isPlain
  ⟨formBefore after, text ++ String.ofList run, ⟨number, first, column + run.length⟩⟩ ::
    ofLine number (column + run.length) after

theorem ofLineInRun_cons {c : Char} (h : Role.of c = .plain) (number first column : Nat)
    (text : String) (line : List Char) :
    ofLineInRun number first column text (c :: line) =
      ofLineInRun number first (column + 1) (text.push c) line := by
  have htext : text ++ String.ofList (c :: line.takeWhile isPlain) =
      text.push c ++ String.ofList (line.takeWhile isPlain) := by
    rw [← String.toList_inj]
    simp
  have hlength : column + (c :: line.takeWhile isPlain).length =
      column + 1 + (line.takeWhile isPlain).length := by
    rw [List.length_cons]
    omega
  simp only [ofLineInRun, List.takeWhile_cons, List.dropWhile_cons, isPlain_iff.mpr h, if_true,
    htext, hlength]

theorem ofLineInRun_of_stop {line : List Char} (h : ∀ c ∈ line.head?, isPlain c = false)
    (number first column : Nat) (text : String) :
    ofLineInRun number first column text line =
      ⟨formBefore line, text, ⟨number, first, column⟩⟩ :: ofLine number column line := by
  have htake : line.takeWhile isPlain = [] := by
    cases line with
    | nil => rfl
    | cons c line => simp [h c rfl]
  have hdrop : line.dropWhile isPlain = line := by
    cases line with
    | nil => rfl
    | cons c line => simp [h c rfl]
  simp [ofLineInRun, htake, hdrop]

theorem ofLineInRun_nil (number first column : Nat) (text : String) :
    ofLineInRun number first column text [] = [⟨.run, text, ⟨number, first, column⟩⟩] := by
  rw [ofLineInRun_of_stop (by rintro _ ⟨⟩), ofLine_nil]
  rfl

theorem ofLine_plain {c : Char} (h : Role.of c = .plain) (number column : Nat)
    (line : List Char) : ofLine number column (c :: line) =
      ofLineInRun number (column + 1) (column + 1) (String.singleton c) line := by
  have hne : c ≠ commentMark := ne_commentMark_of_role (by rw [h]; decide)
  have hstop : ∀ d ∈ (line.dropWhile isPlain).head?, isPlain d = false := by
    intro d hd
    have := List.head?_dropWhile_not isPlain line
    rw [Option.mem_def.mp hd] at this
    simpa using this
  have hform := lastForm_code hstop
  rw [lastForm_dropWhile_isPlain] at hform
  have htext : String.ofList (c :: line.takeWhile isPlain) =
      String.singleton c ++ String.ofList (line.takeWhile isPlain) := by
    rw [← String.toList_inj]
    simp
  have hlength : column + (c :: line.takeWhile isPlain).length =
      column + 1 + (line.takeWhile isPlain).length := by
    rw [List.length_cons]
    omega
  rw [ofLine, code_cons hne, lastForm_cons hne, ofCode, h]
  simp only [takeWhile_isPlain_code, dropWhile_isPlain_code, hform, htext, hlength, ofLineInRun,
    ofLine, lastForm_dropWhile_isPlain]

theorem ofLines_cons (number : Nat) (line : List Char) (lines : List (List Char)) :
    ofLines number (line :: lines) = ofLine number 0 line ++ ofLines (number + 1) lines := by
  simp [ofLines, List.zipIdx_cons]

end Piece

/-! ## What the cutter still finds -/

/-- The pieces still to be found on a line of which the given characters are left. -/
def Mode.outlook (mode : Mode) (number column : Nat) (line : List Char) : List Piece :=
  match mode with
  | .idle => Piece.ofLine number column line
  | .comment => []
  | .separator mark =>
    ⟨.separator, String.singleton mark, ⟨number, column, column⟩⟩ ::
      Piece.ofLine number column line
  | .run first text => Piece.ofLineInRun number first column text line

/-- Where nothing is open, a character opens what it stands for. -/
theorem Piece.ofLine_cons (c : Char) (number column : Nat) (line : List Char) :
    Piece.ofLine number column (c :: line) =
      (Mode.read.opening c (.run (column + 1) (String.singleton c))).outlook number (column + 1)
        line := by
  unfold Mode.read.opening
  split
  · rename_i h
    exact Piece.ofLine_blank h number column line
  · rename_i h
    exact Piece.ofLine_separator h number column line
  · rename_i h
    exact Piece.ofLine_mark h number column line
  · rename_i h
    exact Piece.ofLine_plain h number column line

/-- Only a plain character cares about an open run. -/
theorem Mode.opening_of_not_plain {c : Char} (h : Role.of c ≠ .plain) (run run' : Mode) :
    Mode.read.opening c run = Mode.read.opening c run' := by
  unfold Mode.read.opening
  split
  · rfl
  · rfl
  · rfl
  · contradiction

theorem Form.ofNext?_of_not_plain {c : Char} (h : Role.of c ≠ .plain) (after : List Char) :
    Form.ofNext? (some c) = some (Piece.formBefore (c :: after)) := by
  rw [Piece.formBefore, List.head?_cons, Form.ofNext?]
  cases hr : Role.of c with
  | blank => rfl
  | separator => rfl
  | mark => rfl
  | plain => exact absurd hr h

namespace Cutter

/-- The pieces that the cutter is still going to find, if the given lines are left. -/
def outlook (k : Cutter) : List (List Char) → List Piece
  | [] => []
  | line :: lines =>
    k.mode.outlook k.cursor.line k.cursor.column line ++ Piece.ofLines (k.cursor.line + 1) lines

/-- At the end of a line the cutter settles what is open, whether a newline follows or nothing. -/
theorem outlook_end (k : Cutter) (next : Option Char) (h : ∀ c ∈ next, Role.of c = .blank) :
    k.mode.outlook k.cursor.line k.cursor.column [] = (k.settle next).toList := by
  have hform : Form.ofNext? next = some .run := by
    cases next with
    | none => rfl
    | some c => rw [Form.ofNext?, h c rfl]
  obtain ⟨cursor, mode⟩ := k
  cases mode with
  | idle => exact Piece.ofLine_nil cursor.line cursor.column
  | comment => rfl
  | separator mark => simp [Mode.outlook, settle, Piece.ofLine_nil]
  | run first text => simp [Mode.outlook, settle, hform, Piece.ofLineInRun_nil]

theorem role_newline : Role.of '\n' = .blank := by decide

/-- After a newline the next line is looked at afresh. -/
theorem outlook_read_newline (k : Cutter) (line : List Char) (lines : List (List Char)) :
    (k.read '\n').outlook (line :: lines) = Piece.ofLines (k.cursor.line + 1) (line :: lines) := by
  have hmode : (k.read '\n').mode = .idle := by
    simp only [read, Mode.read, Mode.read.opening, role_newline]
    split <;> rfl
  rw [outlook, hmode, Piece.ofLines_cons]
  rfl

/-- Any other character settles what it ends, and the rest of its line is looked at from there. -/
theorem outlook_cons (k : Cutter) {c : Char} (h : c ≠ '\n') (line : List Char)
    (lines : List (List Char)) :
    k.outlook ((c :: line) :: lines) =
      (k.settle (some c)).toList ++ (k.read c).outlook (line :: lines) := by
  obtain ⟨cursor, mode⟩ := k
  have hcursor : cursor.advance c =
      ⟨cursor.offset + c.utf8Size, cursor.line, cursor.column + 1⟩ := if_neg h
  cases mode with
  | idle => simp [outlook, Mode.outlook, settle, read, Mode.read, hcursor, Piece.ofLine_cons]
  | comment => simp [outlook, Mode.outlook, settle, read, Mode.read, hcursor, h]
  | separator mark =>
    simp [outlook, Mode.outlook, settle, read, Mode.read, hcursor, Piece.ofLine_cons]
  | run first text =>
    by_cases hc : Role.of c = .plain
    · simp [outlook, Mode.outlook, settle, read, Mode.read, Mode.read.opening, hc, hcursor,
        Form.ofNext?, Piece.ofLineInRun_cons hc]
    · have hstop : ∀ d ∈ (c :: line).head?, Piece.isPlain d = false := by
        rintro d ⟨⟩
        simpa [Piece.isPlain] using hc
      have hopening := Mode.opening_of_not_plain hc (.run first (text.push c))
        (.run (cursor.column + 1) (String.singleton c))
      simp [outlook, Mode.outlook, settle, read, Mode.read, hcursor, hopening,
        Form.ofNext?_of_not_plain hc line, Piece.ofLineInRun_of_stop hstop, Piece.ofLine_cons]

/-- The cutter finds what the lines that are left promise. -/
theorem pieces_eq_outlook (k : Cutter) (chars : List Char) :
    k.pieces chars = k.outlook (Text.lines chars) := by
  induction chars generalizing k with
  | nil =>
    rw [pieces, ← outlook_end k none (by rintro _ ⟨⟩)]
    simp [outlook, Piece.ofLines]
  | cons c chars ih =>
    obtain ⟨line, lines, hlines⟩ : ∃ line lines, Text.lines chars = line :: lines :=
      List.exists_cons_of_length_pos (by rw [Text.length_lines]; exact Nat.succ_pos _)
    rw [pieces, ih, hlines]
    by_cases h : c = '\n'
    · subst h
      rw [Text.lines_newline, hlines, outlook_read_newline, outlook,
        outlook_end k (some '\n') (by rintro _ ⟨⟩; exact role_newline)]
    · rw [Text.lines_cons h, hlines]
      exact (outlook_cons k h line lines).symm

end Cutter

/-- The pieces of a source are those of its lines. -/
theorem Piece.ofSource_eq_byLine (source : String) :
    Piece.ofSource source = Piece.byLine source := by
  rw [Piece.ofSource_eq, Cutter.pieces_eq_outlook]
  obtain ⟨line, lines, hlines⟩ : ∃ line lines, Text.lines source.toList = line :: lines :=
    List.exists_cons_of_length_pos (by rw [Text.length_lines]; exact Nat.succ_pos _)
  rw [Piece.byLine, hlines, Piece.ofLines_cons]
  rfl

end Lexing
