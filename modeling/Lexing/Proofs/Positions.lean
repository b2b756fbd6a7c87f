import Lexing.Machine
import Lexing.Proofs.Arrival
import Lexing.Proofs.Resumption
import Mathlib.Algebra.Group.Nat.Defs

/-!
# Where a cursor may stand

A cursor that has read the first part of a text stands right behind it, in each of its three counts.
The offset is the length of that part in UTF-8. So it lies between two characters and not past the
end, and the text can be looked into there; what is seen is the next character. The line and the
column are small: between them they count no more characters than were read, and no character takes
up less than a byte. If a machine word has one bit more than it takes to count the bytes, none of the
three overflows it.
-/

namespace Lexing

/-! ## Offsets -/

namespace Utf8

theorem length_encode (text : String) : (encode text).length = text.utf8ByteSize := by
  rw [← toList_toUTF8]
  rfl

theorem length_encode_append (a b : String) :
    (encode (a ++ b)).length = (encode a).length + (encode b).length := by
  simp only [length_encode, String.utf8ByteSize_append]

/-- Every character takes up at least one byte. -/
theorem length_le_length_encode (chars : List Char) :
    chars.length ≤ (encode (String.ofList chars)).length := by
  induction chars with
  | nil => exact Nat.zero_le _
  | cons c chars ih =>
      have hsize : 0 < c.utf8Size := c.utf8Size_pos
      have hlength : (encode (String.ofList (c :: chars))).length =
          c.utf8Size + (encode (String.ofList chars)).length := by
        simp [encode]
      rw [hlength, List.length_cons]
      omega

end Utf8

/-- The offset reached is the length of what was read. -/
theorem Cursor.offset_start_advanceAll (chars : List Char) :
    (start.advanceAll chars).offset = (Utf8.encode (String.ofList chars)).length := by
  induction chars using List.reverseRecOn with
  | nil => rfl
  | append_singleton chars c ih =>
      have hadvance (p : Cursor) : (p.advance c).offset = p.offset + c.utf8Size := by
        unfold advance
        split
        · rfl
        · rfl
      rw [advanceAll_append, String.ofList_append, Utf8.length_encode_append, ← ih]
      show ((start.advanceAll chars).advance c).offset = _
      rw [hadvance]
      simp [Utf8.encode]

/-! ## Looking into a text -/

namespace Text

theorem pos?_offset {text : String} (position : text.Pos) :
    text.pos? position.offset = some position := by
  have hvalid := String.Pos.Raw.isValidForSlice_eq_true_iff.mpr position.isValid.toSlice
  rw [String.pos?, String.Slice.pos?, dif_pos hvalid, Option.map_some, Option.some_inj]
  exact String.Pos.ext rfl

/-- What stands behind a position is what the text goes on with. -/
theorem get?_of_splits {text front back : String} {position : text.Pos}
    (h : position.Splits front back) : position.get? = back.toList.head? := by
  by_cases hend : position = text.endPos
  · rw [String.Pos.get?_eq_none hend, h.eq_endPos_iff.mp hend]
    rfl
  · obtain ⟨rest, hrest⟩ := h.exists_eq_singleton_append hend
    rw [String.Pos.get?_eq_some_get hend, hrest]
    simp

/-- **Behind its first part a text can be looked into**, and the next character is seen there. -/
theorem peek?_append (front back : String) :
    peek? (front ++ back) (Utf8.encode front).length = some back.toList.head? := by
  have hsplits := String.Pos.splits_ofEqAppend (rfl : front ++ back = front ++ back)
  have hoffset : (⟨(Utf8.encode front).length⟩ : String.Pos.Raw) =
      (String.Pos.ofEqAppend (rfl : front ++ back = front ++ back)).offset := by
    rw [hsplits.offset_eq_rawEndPos, Utf8.length_encode]
    rfl
  rw [peek?, hoffset, pos?_offset, Option.map_some, get?_of_splits hsplits]

/-! ## Counts -/

/-- The newlines of a text and the characters after the last one are some of its characters. -/
theorem count_newline_add_length_lastLine_le (chars : List Char) :
    chars.count '\n' + (lastLine chars).length ≤ chars.length := by
  rcases lastLine_cases chars with hnone | ⟨front, hfront⟩
  · rw [lastLine_eq_self hnone, List.count_eq_zero_of_not_mem hnone, Nat.zero_add]
  · have hcount : chars.count '\n' = front.count '\n' + 1 := by
      rw [hfront, List.count_append, List.count_cons_self,
        List.count_eq_zero_of_not_mem (newline_not_mem_lastLine chars)]
    have hlength : chars.length = front.length + ((lastLine chars).length + 1) := by
      rw [← List.length_cons, ← List.length_append, ← hfront]
    have hle : front.count '\n' ≤ front.length := List.count_le_length
    omega

end Text

namespace Cursor

/-- Behind a line and a column lie as many characters at least. -/
theorem line_add_column_le (chars : List Char) :
    (start.advanceAll chars).line - 1 + (start.advanceAll chars).column ≤ chars.length := by
  have hle := Text.count_newline_add_length_lastLine_le chars
  rw [line_start_advanceAll, column_start_advanceAll]
  omega

/-- **No count overflows** a machine word, if the bytes can be counted with one bit less. -/
theorem advanceAll_lt_two_pow {source : String} {done rest : List Char}
    (h : source.toList = done ++ rest) {bits : Nat}
    (hbits : (Utf8.encode source).length < 2 ^ bits) :
    (start.advanceAll done).offset < 2 ^ (bits + 1) ∧
      (start.advanceAll done).line < 2 ^ (bits + 1) ∧
      (start.advanceAll done).column < 2 ^ (bits + 1) := by
  have hsource : source = String.ofList done ++ String.ofList rest := by
    rw [← String.ofList_append, ← h, String.ofList_toList]
  have hlength : (Utf8.encode source).length =
      (Utf8.encode (String.ofList done)).length + (Utf8.encode (String.ofList rest)).length := by
    rw [hsource, Utf8.length_encode_append]
  have hchars := Utf8.length_le_length_encode done
  have hplace := line_add_column_le done
  have hpow : 2 ^ (bits + 1) = 2 ^ bits * 2 := pow_succ 2 bits
  rw [offset_start_advanceAll]
  omega

end Cursor

end Lexing
