import Lexing.Proofs.Output

/-!
# Reports can be told apart

A fault leaves the program as text, first as a message and in the end as the one line that the
program writes when it fails. Nothing is lost on the way. `Fault.ofMessage?` and `Fault.ofLine?` take
the fault back out of the message and out of the line, so two faults that differ are never reported
alike, whatever the texts in them look like.

What is left to show is that the message and the line are single lines. The texts inside them come
from a source and may hold anything; but they are quoted, and quoting writes no control character:
each one has no shape of its own and is shown by its number, if no short escape is there for it.
-/

namespace Lexing

namespace Text

/-! ## Control characters -/

/-- The code points of the control characters, those of the general category Cc. -/
def controlRanges : List (Nat × Nat) := [(0x0, 0x1f), (0x7f, 0x9f)]

/-- Whether the character is a control character. -/
def isControl (c : Char) : Bool := within controlRanges c

theorem isControl_iff {c : Char} :
    isControl c = true ↔ c.toNat ≤ 0x1f ∨ 0x7f ≤ c.toNat ∧ c.toNat ≤ 0x9f := by
  simp [isControl, within, controlRanges]

/-- Control characters have no shape of their own. -/
theorem isShapeless_of_isControl {c : Char} (h : isControl c = true) : isShapeless c = true := by
  refine within_iff.mpr ?_
  rcases isControl_iff.mp h with h | h
  · exact ⟨(0x0, 0x1f), List.mem_cons_self, Nat.zero_le _, h⟩
  · exact ⟨(0x7f, 0xa0), List.mem_cons_of_mem _ List.mem_cons_self, h.1, by omega⟩

/-- Whether no character of the text is a control character. -/
def HoldsNoControl (chars : List Char) : Prop := ∀ c ∈ chars, isControl c = false

theorem holdsNoControl_of_all {chars : List Char} (h : (chars.all fun c => !isControl c) = true) :
    HoldsNoControl chars := by
  intro c hc
  have hcontrol := List.all_eq_true.mp h c hc
  rwa [Bool.not_eq_true'] at hcontrol

theorem HoldsNoControl.append {a b : List Char} (ha : HoldsNoControl a) (hb : HoldsNoControl b) :
    HoldsNoControl (a ++ b) := by
  intro c hc
  rcases List.mem_append.mp hc with hc | hc
  · exact ha c hc
  · exact hb c hc

theorem HoldsNoControl.newline_not_mem {chars : List Char} (h : HoldsNoControl chars) :
    '\n' ∉ chars := by
  intro hc
  exact Bool.noConfusion (h '\n' hc)

/-! ## Quoting writes no control character -/

theorem not_isControl_digitChar {d : Nat} (h : d < 16) : isControl d.digitChar = false := by
  revert d
  decide

theorem holdsNoControl_toDigits (n : Nat) : HoldsNoControl (Nat.toDigits 16 n) := by
  have hdigit {d : Nat} (h : d < 16) : HoldsNoControl [d.digitChar] := by
    intro c hc
    rw [List.mem_singleton.mp hc]
    exact not_isControl_digitChar h
  induction n using Nat.strongRecOn with
  | ind n ih =>
      by_cases hn : n < 16
      · rw [Nat.toDigits_of_lt_base hn]
        exact hdigit hn
      · rw [Nat.toDigits_of_base_le (by decide) (by omega)]
        exact (ih (n / 16) (by omega)).append (hdigit (Nat.mod_lt n (by decide)))

/-- The written form of a character holds no control character, whatever the character. -/
theorem holdsNoControl_escape (c : Char) : HoldsNoControl (escape c) := by
  unfold escape
  split
  iterate 6 exact holdsNoControl_of_all rfl
  · split
    · exact ((holdsNoControl_of_all rfl).append (holdsNoControl_toDigits _)).append
        (holdsNoControl_of_all rfl)
    · -- a character that is written as it is has a shape
      rename_i hshape
      intro d hd
      rw [List.mem_singleton.mp hd, Bool.eq_false_iff]
      intro hcontrol
      exact hshape (isShapeless_of_isControl hcontrol)

theorem holdsNoControl_quote (text : String) : HoldsNoControl (quote text).toList := by
  have hescaped : HoldsNoControl (text.toList.flatMap escape) := by
    intro c hc
    obtain ⟨d, _, hcd⟩ := List.mem_flatMap.mp hc
    exact holdsNoControl_escape d c hcd
  rw [quote, String.toList_ofList]
  show HoldsNoControl (['"'] ++ text.toList.flatMap escape ++ ['"'])
  exact ((holdsNoControl_of_all rfl).append hescaped).append (holdsNoControl_of_all rfl)

end Text

/-! ## Messages and lines -/

theorem Span.holdsNoControl_render (s : Span) : Text.HoldsNoControl s.render.toList := by
  intro c hc
  rcases eq_of_mem_render hc with hdigit | hmark | hmark
  · have hrange := Char.isDigit_iff_toNat.mp hdigit
    have hzero : '0'.toNat = 48 := rfl
    have hnine : '9'.toNat = 57 := rfl
    rw [Bool.eq_false_iff, Ne, Text.isControl_iff]
    omega
  · rw [hmark]
    rfl
  · rw [hmark]
    rfl

/-- No two faults have the same message. -/
theorem Fault.eq_of_message_eq {f g : Fault} (h : f.message = g.message) : f = g := by
  have hread := ofMessage?_message f
  rw [h, ofMessage?_message g, Option.some_inj] at hread
  exact hread.symm

/-- No two faults are reported on the same line, though a text that the message quotes is quoted
there a second time. -/
theorem Fault.eq_of_render_report_eq {f g : Fault} (h : f.report.render = g.report.render) :
    f = g := by
  have hread := ofLine?_render_report f
  rw [h, ofLine?_render_report g, Option.some_inj] at hread
  exact hread.symm

/-- The message for an unrecognized text is a single line without control characters, whatever the
text. -/
theorem Fault.holdsNoControl_message (stray : Stray) :
    Text.HoldsNoControl (unrecognized stray).message.toList := by
  rw [message_unrecognized]
  simp only [String.toList_append]
  exact (((Text.holdsNoControl_of_all rfl).append (Text.holdsNoControl_quote stray.text)).append
    (Text.holdsNoControl_of_all rfl)).append stray.span.holdsNoControl_render

/-- So is the line of a report, whatever its message. -/
theorem Report.holdsNoControl_render (r : Report) : Text.HoldsNoControl r.render.toList := by
  have hname : Text.HoldsNoControl r.category.name.toList := by
    cases r.category with
    | invalidData => exact Text.holdsNoControl_of_all rfl
    | invalidInput => exact Text.holdsNoControl_of_all rfl
  change Text.HoldsNoControl (_ ++ _ ++ _ ++ _ ++ _ : String).toList
  simp only [String.toList_append]
  exact ((((Text.holdsNoControl_of_all rfl).append hname).append
    (Text.holdsNoControl_of_all rfl)).append (Text.holdsNoControl_quote r.message)).append
    (Text.holdsNoControl_of_all rfl)

/-- A program that fails writes the line of the report, and nothing else. -/
theorem exists_line_of_exitCode {deliveries : List Delivery}
    (h : (respond deliveries).exitCode ≠ 0) :
    ∃ fault, lexDeliveries deliveries = .error fault ∧
      respond deliveries = ⟨1, "", fault.report.render ++ "\n"⟩ := by
  cases hlex : lexDeliveries deliveries with
  | ok tokens =>
      rw [respond_of_ok hlex] at h
      exact absurd rfl h
  | error fault => exact ⟨fault, rfl, respond_of_error hlex⟩

/-- **Reports can be told apart.** No two faults have the same message or the same line. The message
for an unrecognized text holds no control character, so it is a single line, and the text and its
span can be read from it. A program that fails writes exactly one line, from which its fault can be
read; so two inputs on which it writes the same have the same fault. -/
theorem reports_unambiguous :
    (∀ f g : Fault, f.message = g.message → f = g) ∧
      (∀ stray : Stray,
        (∀ c ∈ (Fault.unrecognized stray).message.toList, Text.isControl c = false) ∧
        (Fault.unrecognized stray).message.toList.splitOn '\n' =
          [(Fault.unrecognized stray).message.toList] ∧
        Fault.ofMessage? (Fault.unrecognized stray).message.toList = some (.unrecognized stray)) ∧
      (∀ f g : Fault, f.report.render = g.report.render → f = g) ∧
      (∀ deliveries, (respond deliveries).exitCode ≠ 0 →
        ∃ fault line, lexDeliveries deliveries = .error fault ∧
          respond deliveries = ⟨1, "", line ++ "\n"⟩ ∧
          (∀ c ∈ line.toList, Text.isControl c = false) ∧
          (line ++ "\n").toList.splitOn '\n' = [line.toList, []] ∧
          Fault.ofLine? line.toList = some fault) ∧
      ∀ ds es f g, lexDeliveries ds = .error f → lexDeliveries es = .error g →
        (respond ds).errors = (respond es).errors → f = g := by
  refine ⟨fun f g => Fault.eq_of_message_eq, ?_, fun f g => Fault.eq_of_render_report_eq, ?_, ?_⟩
  · intro stray
    have hcontrol := Fault.holdsNoControl_message stray
    refine ⟨hcontrol, ?_, Fault.ofMessage?_message (.unrecognized stray)⟩
    rw [← Text.lines_eq_splitOn]
    exact Text.lines_of_newline_not_mem hcontrol.newline_not_mem
  · intro deliveries hcode
    obtain ⟨fault, hlex, hrespond⟩ := exists_line_of_exitCode hcode
    have hcontrol := fault.report.holdsNoControl_render
    refine ⟨fault, fault.report.render, hlex, hrespond, hcontrol, ?_,
      Fault.ofLine?_render_report fault⟩
    rw [String.toList_append, ← Text.lines_eq_splitOn]
    exact Text.lines_append_newline hcontrol.newline_not_mem []
  · intro ds es f g hds hes hsame
    rw [respond_of_error hds, respond_of_error hes] at hsame
    exact Fault.eq_of_render_report_eq ((String.append_left_inj "\n").mp hsame)

/-- A stray of a quotation mark, a backslash and a control character. What comes after it does not
show, and a reader that fails with the very message for it is reported otherwise. -/
theorem reports_unambiguous_marks :
    lexDeliveries [.portion (Utf8.encode "\"\\\x01")] =
        .error (.unrecognized ⟨"\"\\\x01", ⟨1, 1, 3⟩⟩) ∧
      (∃ line, respond [.portion (Utf8.encode "\"\\\x01")] = ⟨1, "", line ++ "\n"⟩ ∧
        (line ++ "\n").toList.splitOn '\n' = [line.toList, []] ∧
        Fault.ofLine? line.toList = some (.unrecognized ⟨"\"\\\x01", ⟨1, 1, 3⟩⟩)) ∧
      (∃ f g, lexDeliveries [.portion (Utf8.encode "\"\\\x01")] = .error f ∧
        lexDeliveries [.portion (Utf8.encode "\"\\\x01;$")] = .error g ∧
        (respond [.portion (Utf8.encode "\"\\\x01")]).errors =
          (respond [.portion (Utf8.encode "\"\\\x01;$")]).errors ∧ f = g) ∧
      (respond [.portion (Utf8.encode "\"\\\x01")]).errors ≠
        (respond [.failure (Fault.unrecognized ⟨"\"\\\x01", ⟨1, 1, 3⟩⟩).message]).errors := by
  have halone : lexDeliveries [.portion (Utf8.encode "\"\\\x01")] =
      .error (.unrecognized ⟨"\"\\\x01", ⟨1, 1, 3⟩⟩) := by
    rw [lexDeliveries_encode]
    decide +kernel
  have hfollowed : lexDeliveries [.portion (Utf8.encode "\"\\\x01;$")] =
      .error (.unrecognized ⟨"\"\\\x01", ⟨1, 1, 3⟩⟩) := by
    rw [lexDeliveries_encode]
    decide +kernel
  have hfailed (reason : String) :
      lexDeliveries [.failure reason] = .error (.unreadable reason) := lexDeliveries_of_failure rfl
  have hcode : (respond [.portion (Utf8.encode "\"\\\x01")]).exitCode ≠ 0 := by
    rw [respond_of_error halone]
    exact Nat.one_ne_zero
  have hsame : (respond [.portion (Utf8.encode "\"\\\x01")]).errors =
      (respond [.portion (Utf8.encode "\"\\\x01;$")]).errors := by
    rw [respond_of_error halone, respond_of_error hfollowed]
  obtain ⟨_, _, _, hfails, hapart⟩ := reports_unambiguous
  obtain ⟨fault, line, hfault, hrespond, _, hsplit, hread⟩ := hfails _ hcode
  rw [halone, Except.error.injEq] at hfault
  refine ⟨halone, ⟨line, hrespond, hsplit, hfault ▸ hread⟩,
    ⟨_, _, halone, hfollowed, hsame, hapart _ _ _ _ halone hfollowed hsame⟩, ?_⟩
  intro hequal
  exact Fault.noConfusion (hapart _ _ _ _ halone (hfailed _) hequal)

end Lexing
