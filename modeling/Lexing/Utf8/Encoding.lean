import Lexing.Utf8

/-!
# Decoding what was encoded

Every text is decoded from its UTF-8 form. The work is in `readFront_encode`: the encoding of a
character is read as that character whatever follows it. It goes by the length of the encoding, and
for each length by two facts: what the lead byte announces, and that the second byte lies in the
range announced, the narrower ranges included.
-/

namespace Lexing.Utf8

theorem toNat_ofNat {n : Nat} (h : n < 256) : (UInt8.ofNat n).toNat = n := by
  rw [UInt8.toNat_ofNat', Nat.mod_eq_of_lt h]

/-! ## Lead bytes -/

theorem Lead.of?_one {n : Nat} (h : n < 128) :
    Lead.of? (UInt8.ofNat n) = some ⟨n, 0, 0x80, 0xbf⟩ := by
  unfold Lead.of?
  rw [toNat_ofNat (by omega)]
  exact if_pos h

theorem Lead.of?_two {n : Nat} (h : 2 ≤ n ∧ n < 32) :
    Lead.of? (UInt8.ofNat (n + 192)) = some ⟨n, 1, 0x80, 0xbf⟩ := by
  unfold Lead.of?
  rw [toNat_ofNat (by omega)]
  dsimp only
  rw [if_neg (by omega), if_neg (by omega), if_pos (by omega), Nat.add_sub_cancel]

theorem Lead.of?_three {n : Nat} (h : n < 16) :
    Lead.of? (UInt8.ofNat (n + 224)) =
      some ⟨n, 2, if n = 0 then 0xa0 else 0x80, if n = 13 then 0x9f else 0xbf⟩ := by
  have hfirst : (n + 224 = 0xe0) = (n = 0) := propext (by omega)
  have hthird : (n + 224 = 0xed) = (n = 13) := propext (by omega)
  unfold Lead.of?
  rw [toNat_ofNat (by omega)]
  dsimp only
  rw [if_neg (by omega), if_neg (by omega), if_neg (by omega), if_pos (by omega),
    Nat.add_sub_cancel]
  simp only [hfirst, hthird]

theorem Lead.of?_four {n : Nat} (h : n < 5) :
    Lead.of? (UInt8.ofNat (n + 240)) =
      some ⟨n, 3, if n = 0 then 0x90 else 0x80, if n = 4 then 0x8f else 0xbf⟩ := by
  have hfirst : (n + 240 = 0xf0) = (n = 0) := propext (by omega)
  have hlast : (n + 240 = 0xf4) = (n = 4) := propext (by omega)
  unfold Lead.of?
  rw [toNat_ofNat (by omega)]
  dsimp only
  rw [if_neg (by omega), if_neg (by omega), if_neg (by omega), if_neg (by omega),
    if_pos (by omega), Nat.add_sub_cancel]
  simp only [hfirst, hlast]

/-! ## Characters -/

theorem readFront_of_lead {byte : UInt8} {code following low high : Nat}
    (h : Lead.of? byte = some ⟨code, following, low, high⟩) (rest : List UInt8) :
    readFront byte rest = readOwed low high code 1 following rest := by
  rw [readFront, h]

/-- A byte that is owed and lies in the range is taken. -/
theorem readOwed_ofNat {low high code length owed n : Nat} {rest : List UInt8}
    (h : low ≤ n + 128 ∧ n + 128 ≤ high) (hn : n < 64) :
    readOwed low high code length (owed + 1) (UInt8.ofNat (n + 128) :: rest) =
      readOwed 0x80 0xbf (code * 64 + n) (length + 1) owed rest := by
  rw [readOwed, toNat_ofNat (by omega), if_pos h, Nat.add_sub_cancel]

/-- A character is read from its encoding, whatever follows. -/
theorem readFront_encode (c : Char) : ∃ lead tail, String.utf8EncodeChar c = lead :: tail ∧
    ∀ rest, readFront lead (tail ++ rest) = .scalar c rest := by
  have hvalid : c.toNat < 0xd800 ∨ 0xdfff < c.toNat ∧ c.toNat < 0x110000 := c.valid
  have hval : c.val.toNat = c.toNat := rfl
  unfold String.utf8EncodeChar
  rw [hval]
  generalize hn : c.toNat = n at hvalid
  have hc : ∀ m, m = n → Char.ofNat m = c := fun m hm => by rw [hm, ← hn, Char.ofNat_toNat]
  dsimp only
  split
  · refine ⟨_, _, rfl, fun rest => ?_⟩
    rw [readFront_of_lead (Lead.of?_one (by omega)), List.nil_append, readOwed, hc _ rfl]
  split
  · refine ⟨_, _, rfl, fun rest => ?_⟩
    rw [readFront_of_lead (Lead.of?_two (by omega)), List.cons_append, List.nil_append,
      readOwed_ofNat (by omega) (by omega), readOwed, hc _ (by omega)]
  split
  · refine ⟨_, _, rfl, fun rest => ?_⟩
    rw [readFront_of_lead (Lead.of?_three (by omega)), List.cons_append, List.cons_append,
      List.nil_append, readOwed_ofNat ⟨by split <;> omega, by split <;> omega⟩ (by omega),
      readOwed_ofNat (by omega) (by omega), readOwed, hc _ (by omega)]
  · refine ⟨_, _, rfl, fun rest => ?_⟩
    rw [readFront_of_lead (Lead.of?_four (by omega)), List.cons_append, List.cons_append,
      List.cons_append, List.nil_append,
      readOwed_ofNat ⟨by split <;> omega, by split <;> omega⟩ (by omega),
      readOwed_ofNat (by omega) (by omega), readOwed_ofNat (by omega) (by omega), readOwed,
      hc _ (by omega)]

/-! ## Texts -/

theorem decodeFrom_encode_append (chars : List Char) (index : Nat) (done : Array Char)
    (rest : List UInt8) :
    decodeFrom index done (chars.flatMap String.utf8EncodeChar ++ rest) =
      decodeFrom (index + (chars.flatMap String.utf8EncodeChar).length) (done ++ chars) rest := by
  induction chars generalizing index done with
  | nil => simp
  | cons c chars ih =>
    obtain ⟨lead, tail, hencode, hread⟩ := readFront_encode c
    rw [List.flatMap_cons, List.append_assoc, hencode, List.cons_append, decodeFrom]
    split
    · rename_i h
      rw [hread] at h
      cases h
      rw [ih, ← hencode, List.length_append, String.length_utf8EncodeChar, Nat.add_assoc]
      congr 1
    · rename_i h
      rw [hread] at h
      cases h
    · rename_i h
      rw [hread] at h
      cases h

/-- A text is decoded from its UTF-8 form. -/
theorem decode_encode (text : String) : decode (encode text) = .ok text := by
  have h := decodeFrom_encode_append text.toList 0 #[] []
  rw [List.append_nil] at h
  rw [decode, encode, h, decodeFrom]
  simp [Except.map]

end Lexing.Utf8
