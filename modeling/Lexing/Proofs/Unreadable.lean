import Lexing.Proofs.Arrival
import Lexing.Proofs.Sequences

/-!
# When bytes cannot be read

Bytes are refused exactly if they are not the UTF-8 form of any text. The refusal then says at which
index it goes wrong and how, and both are as good as they can be: up to the index the bytes are the
form of a text, and of no longer one; and the bytes from there on are either the beginning of a
character that was cut off by the end of the input, or as many of them are reported as could still
have begun one.

Decoding takes one character after the other until there is none at the front (`exists_readable`).
How far it comes does not depend on choices, since no encoding is the beginning of another
(`encode_append_inj`); so no text could have come further.
-/

namespace Lexing

namespace Utf8

/-- The bytes are the UTF-8 form of some text. -/
def IsEncoded (bytes : List UInt8) : Prop := ∃ text, encode text = bytes

/-- No character stands at the front of the bytes. -/
def Stuck (bytes : List UInt8) : Prop := ∀ c after, bytes ≠ String.utf8EncodeChar c ++ after

/-- Bytes can be read up to where no character stands any more. -/
theorem exists_readable (bytes : List UInt8) :
    ∃ chars rest, bytes = List.flatMap String.utf8EncodeChar chars ++ rest ∧ Stuck rest := by
  rcases Classical.em (∃ c after, bytes = String.utf8EncodeChar c ++ after) with hchar | hstuck
  · obtain ⟨c, after, hbytes⟩ := hchar
    have hlt : after.length < bytes.length := by
      have hpos := c.utf8Size_pos
      rw [hbytes, List.length_append, String.length_utf8EncodeChar]
      omega
    obtain ⟨chars, rest, hafter, hrest⟩ := exists_readable after
    refine ⟨c :: chars, rest, ?_, hrest⟩
    rw [hbytes, hafter, List.flatMap_cons, List.append_assoc]
  · exact ⟨[], bytes, rfl, fun c after hbytes => hstuck ⟨c, after, hbytes⟩⟩
termination_by bytes.length

/-- Nothing longer can be read. -/
theorem length_le_of_stuck {rest : List UInt8} (hrest : Stuck rest) {chars others : List Char}
    (h : others.flatMap String.utf8EncodeChar <+: chars.flatMap String.utf8EncodeChar ++ rest) :
    (others.flatMap String.utf8EncodeChar).length ≤
      (chars.flatMap String.utf8EncodeChar).length := by
  induction chars generalizing others with
  | nil =>
      cases others with
      | nil => exact Nat.le_refl _
      | cons d others =>
          obtain ⟨after, hafter⟩ := h
          rw [List.flatMap_cons, List.append_assoc] at hafter
          exact absurd hafter.symm (hrest d _)
  | cons c chars ih =>
      cases others with
      | nil => exact Nat.zero_le _
      | cons d others =>
          obtain ⟨after, hafter⟩ := h
          rw [List.flatMap_cons, List.flatMap_cons, List.append_assoc, List.append_assoc] at hafter
          obtain ⟨rfl, hrest⟩ := encode_append_inj hafter
          rw [List.flatMap_cons, List.flatMap_cons, List.length_append, List.length_append]
          exact Nat.add_le_add_left (ih ⟨after, hrest⟩) _

/-- What is decoded from readable bytes is up to the bytes behind them. -/
theorem decode_append (text : String) (rest : List UInt8) :
    decode (encode text ++ rest) =
      (decodeFrom (encode text).length text.toList.toArray rest).map
        fun chars => String.ofList chars.toList := by
  unfold decode encode
  rw [decodeFrom_encode_append, Nat.zero_add]
  simp

/-- What the fault says about bytes that are not the form of a text. -/
theorem exists_decode_eq_error {bytes : List UInt8} (h : ¬IsEncoded bytes) :
    ∃ valid rest, bytes = valid ++ rest ∧ rest ≠ [] ∧ LongestFront IsEncoded valid bytes ∧
      (BeginsChar rest ∧ decode bytes = .error (.truncated valid.length) ∨
        ¬BeginsChar rest ∧ ∃ start, LongestFront BeginsChar start rest ∧
          decode bytes = .error (.malformed (max 1 start.length) valid.length)) := by
  obtain ⟨chars, rest, hbytes, hstuck⟩ := exists_readable bytes
  obtain ⟨text, rfl⟩ : ∃ text : String, text.toList = chars :=
    ⟨String.ofList chars, String.toList_ofList⟩
  have hbytes : bytes = encode text ++ rest := hbytes
  have hne : rest ≠ [] := by
    intro hnil
    rw [hnil, List.append_nil] at hbytes
    exact h ⟨text, hbytes.symm⟩
  have hlongest : LongestFront IsEncoded (encode text) bytes := by
    refine ⟨⟨rest, hbytes.symm⟩, ⟨text, rfl⟩, ?_⟩
    intro other hother hencoded
    obtain ⟨longer, rfl⟩ := hencoded
    rw [hbytes] at hother
    exact length_le_of_stuck hstuck hother
  refine ⟨encode text, rest, hbytes, hne, hlongest, ?_⟩
  rw [hbytes, decode_append]
  cases rest with
  | nil => exact absurd rfl hne
  | cons byte rest =>
      rw [decodeFrom]
      split
      · rename_i hread
        exact absurd (append_of_readFront_scalar hread) (hstuck _ _)
      · rename_i hread
        exact Or.inl ⟨beginsChar_of_readFront_truncated hread, rfl⟩
      · rename_i hread
        obtain ⟨hnone, start, hstart, rfl⟩ := exists_longestFront_of_readFront_malformed hread
        exact Or.inr ⟨hnone, start, hstart, rfl⟩

end Utf8

/-- A text is never refused as unreadable. -/
theorem lexStrict_ne_unreadable (source reason : String) :
    lexStrict source ≠ .error (.unreadable reason) := by
  unfold lexStrict Lexed.strict
  split
  · exact nofun
  · exact nofun

theorem message_truncated (index : Nat) :
    "input is not UTF-8: " ++ (Utf8.Fault.truncated index).message =
      "input is not UTF-8: incomplete utf-8 byte sequence from index " ++ index.repr := by
  change "input is not UTF-8: " ++ ("incomplete utf-8 byte sequence from index " ++ index.repr) = _
  rw [← String.append_assoc]
  exact congrArg (fun words => words ++ index.repr) (by decide +kernel)

theorem message_malformed (length index : Nat) :
    "input is not UTF-8: " ++ (Utf8.Fault.malformed length index).message =
      "input is not UTF-8: invalid utf-8 sequence of " ++ length.repr ++ " bytes from index " ++
        index.repr := by
  change "input is not UTF-8: " ++
    ("invalid utf-8 sequence of " ++ length.repr ++ " bytes from index " ++ index.repr) = _
  rw [← String.append_assoc, ← String.append_assoc, ← String.append_assoc]
  exact congrArg (fun words => words ++ length.repr ++ " bytes from index " ++ index.repr)
    (by decide +kernel)

open Utf8 in
/-- **Bytes are refused exactly if they encode no text, and the message says where and how.** They
are split where the longest part ends that encodes a text. What is left is the beginning of a
character that was cut off, or the message counts how much of it could have begun one. -/
theorem unreadable_exact (bytes : List UInt8) :
    ((∃ reason, lexBytes bytes = .error (.unreadable reason)) ↔ ¬IsEncoded bytes) ∧
      (¬IsEncoded bytes → (∃ valid, LongestFront IsEncoded valid bytes) ∧
        ∀ valid rest, LongestFront IsEncoded valid bytes → bytes = valid ++ rest →
          (rest ≠ [] ∧ BeginsChar rest →
            lexBytes bytes = .error (.unreadable
              ("input is not UTF-8: incomplete utf-8 byte sequence from index " ++
                valid.length.repr))) ∧
          (¬(rest ≠ [] ∧ BeginsChar rest) →
            ∃ start, LongestFront BeginsChar start rest ∧
              1 ≤ max 1 start.length ∧ max 1 start.length ≤ 3 ∧
              lexBytes bytes = .error (.unreadable
                ("input is not UTF-8: invalid utf-8 sequence of " ++ (max 1 start.length).repr ++
                  " bytes from index " ++ valid.length.repr)))) := by
  constructor
  · constructor
    · intro hrefused hencoded
      obtain ⟨reason, hrefused⟩ := hrefused
      obtain ⟨text, rfl⟩ := hencoded
      rw [lexBytes_encode] at hrefused
      exact lexStrict_ne_unreadable text reason hrefused
    · intro hnone
      obtain ⟨valid, rest, _, _, _, ⟨_, hdecode⟩ | ⟨_, start, _, hdecode⟩⟩ :=
        exists_decode_eq_error hnone
      · exact ⟨_, lexBytes_of_fault hdecode⟩
      · exact ⟨_, lexBytes_of_fault hdecode⟩
  · intro hnone
    obtain ⟨valid, rest, hbytes, hne, hvalid, hfault⟩ := exists_decode_eq_error hnone
    refine ⟨⟨valid, hvalid⟩, ?_⟩
    intro valid' rest' hvalid' hbytes'
    obtain rfl := hvalid.unique hvalid'
    obtain rfl := List.append_cancel_left (hbytes.symm.trans hbytes')
    rcases hfault with ⟨hbegins, hdecode⟩ | ⟨hbegins, start, hstart, hdecode⟩
    · constructor
      · intro _
        rw [lexBytes_of_fault hdecode, message_truncated]
      · intro hwhole
        exact absurd ⟨hne, hbegins⟩ hwhole
    · constructor
      · intro hcut
        exact absurd hcut.2 hbegins
      · intro _
        have hlength := hstart.holds.length_le
        refine ⟨start, hstart, Nat.le_max_left _ _, by omega, ?_⟩
        rw [lexBytes_of_fault hdecode, message_malformed]

open Utf8 in
/-- Here only two of the three bytes of a euro sign are left behind a letter. -/
theorem unreadable_exact_euro :
    ¬IsEncoded [0x61, 0xe2, 0x82] ∧ LongestFront IsEncoded [0x61] [0x61, 0xe2, 0x82] ∧
      BeginsChar [0xe2, 0x82] ∧
      lexBytes [0x61, 0xe2, 0x82] = .error (.unreadable
        ("input is not UTF-8: incomplete utf-8 byte sequence from index " ++ Nat.repr 1)) := by
  have hdecode : decode [0x61, 0xe2, 0x82] = .error (.truncated 1) := by
    have hsize : (Char.ofNat 97).utf8Size = 1 := rfl
    simp [decode, decodeFrom, readFront, Lead.of?, readOwed, Except.map, hsize]
  have hexact := unreadable_exact [0x61, 0xe2, 0x82]
  have hnone := hexact.1.mp ⟨_, lexBytes_of_fault hdecode⟩
  obtain ⟨valid, rest, hbytes, hne, hvalid, hfault⟩ := exists_decode_eq_error hnone
  rcases hfault with ⟨hbegins, hcut⟩ | ⟨_, _, _, hcut⟩
  · rw [hdecode, Except.error.injEq, Fault.truncated.injEq] at hcut
    obtain ⟨byte, rfl⟩ := List.length_eq_one_iff.mp hcut.symm
    cases hbytes
    exact ⟨hnone, hvalid, hbegins, ((hexact.2 hnone).2 _ _ hvalid rfl).1 ⟨hne, hbegins⟩⟩
  · rw [hdecode] at hcut
    cases hcut

end Lexing
