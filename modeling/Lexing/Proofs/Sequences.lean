import Lexing.Utf8.Encoding

/-!
# The byte sequences of characters

Decoding goes by a table: a lead byte announces how many bytes follow it and in which range the
second byte lies. Here the table is held against the encodings of all characters. The sequences that
it admits are exactly those encodings (`encode_of_owed`, `owed_of_encode`), so nothing that is too
long, no surrogate and nothing beyond the last code point is among them, and nothing else is missing.

Because the ranges of the table are never empty, bytes that it has admitted so far can always be
completed to a character. So decoding notices a fault at the first byte at which there is one: what
it has read before that byte begins the encoding of some character, and with that byte it begins
none.
-/

namespace Lexing.Utf8

/-! ## Bytes that are owed -/

/-- The bytes that complete a sequence to which so many are owed. The first of them has to lie
between the given bounds, and all others are any continuation bytes. -/
inductive Owed : Nat → Nat → Nat → List UInt8 → Prop where
  | done {low high : Nat} : Owed low high 0 []
  | next {low high owed : Nat} {byte : UInt8} {rest : List UInt8} :
      low ≤ byte.toNat → byte.toNat ≤ high → Owed 0x80 0xbf owed rest →
      Owed low high (owed + 1) (byte :: rest)

/-- The code point that the bits read so far and some further bytes make up. -/
def codePoint (code : Nat) (bytes : List UInt8) : Nat :=
  bytes.foldl (fun code byte => code * 64 + (byte.toNat - 0x80)) code

theorem codePoint_nil (code : Nat) : codePoint code [] = code := rfl

theorem codePoint_cons (code : Nat) (byte : UInt8) (rest : List UInt8) :
    codePoint code (byte :: rest) = codePoint (code * 64 + (byte.toNat - 0x80)) rest := by
  unfold codePoint
  rw [List.foldl_cons]

theorem Owed.eq_nil {low high : Nat} {bytes : List UInt8} (h : Owed low high 0 bytes) :
    bytes = [] := by
  cases h
  rfl

theorem Owed.exists_cons {low high owed : Nat} {bytes : List UInt8}
    (h : Owed low high (owed + 1) bytes) :
    ∃ byte rest, bytes = byte :: rest ∧ low ≤ byte.toNat ∧ byte.toNat ≤ high ∧
      Owed 0x80 0xbf owed rest := by
  cases h with
  | next hlow hhigh hrest => exact ⟨_, _, rfl, hlow, hhigh, hrest⟩

/-- Whatever is owed can be paid, as long as the range for the first byte is not empty. -/
theorem exists_owed {low high : Nat} (hle : low ≤ high) (hhigh : high < 256) (owed : Nat) :
    ∃ bytes, Owed low high owed bytes := by
  induction owed generalizing low high with
  | zero => exact ⟨[], .done⟩
  | succ owed ih =>
      have hrange : 0x80 ≤ 0xbf ∧ 0xbf < 256 := by omega
      obtain ⟨rest, hrest⟩ := ih hrange.1 hrange.2
      have hbyte : (UInt8.ofNat low).toNat = low := toNat_ofNat (by omega)
      exact ⟨UInt8.ofNat low :: rest, .next (by omega) (by omega) hrest⟩

section Reading

variable {low high code length owed : Nat} {bytes : List UInt8}

/-- A character is read if the bytes that are owed stand in front. -/
theorem exists_owed_of_readOwed_scalar {c : Char} {rest : List UInt8}
    (h : readOwed low high code length owed bytes = .scalar c rest) :
    ∃ taken, Owed low high owed taken ∧ bytes = taken ++ rest ∧
      c = Char.ofNat (codePoint code taken) := by
  induction owed generalizing low high code length bytes with
  | zero =>
      cases h
      exact ⟨[], .done, rfl, rfl⟩
  | succ owed ih =>
      cases bytes with
      | nil => cases h
      | cons byte bytes =>
          rw [readOwed] at h
          split at h
          · rename_i hrange
            obtain ⟨taken, howed, hbytes, hc⟩ := ih h
            refine ⟨byte :: taken, .next hrange.1 hrange.2 howed, ?_, ?_⟩
            · rw [hbytes, List.cons_append]
            · rw [hc, codePoint_cons]
          · cases h

/-- Bytes that end too early could be completed. -/
theorem exists_owed_of_readOwed_truncated (hle : low ≤ high) (hhigh : high < 256)
    (h : readOwed low high code length owed bytes = .truncated) :
    ∃ more, more ≠ [] ∧ Owed low high owed (bytes ++ more) := by
  induction owed generalizing low high code length bytes with
  | zero => cases h
  | succ owed ih =>
      cases bytes with
      | nil =>
          obtain ⟨more, hmore⟩ := exists_owed hle hhigh (owed + 1)
          refine ⟨more, ?_, hmore⟩
          intro hnil
          subst hnil
          cases hmore
      | cons byte bytes =>
          rw [readOwed] at h
          split at h
          · rename_i hrange
            obtain ⟨more, hne, howed⟩ := ih (by decide) (by decide) h
            exact ⟨more, hne, .next hrange.1 hrange.2 howed⟩
          · cases h

/-- Bytes that are refused could be completed up to the byte that is out of range, and not with
it. -/
theorem exists_owed_of_readOwed_malformed (hle : low ≤ high) (hhigh : high < 256) {count : Nat}
    (h : readOwed low high code length owed bytes = .malformed count) :
    ∃ taken byte rest, bytes = taken ++ byte :: rest ∧ count = length + taken.length ∧
      (∃ more, more ≠ [] ∧ Owed low high owed (taken ++ more)) ∧
      ∀ more, ¬Owed low high owed (taken ++ byte :: more) := by
  induction owed generalizing low high code length bytes with
  | zero => cases h
  | succ owed ih =>
      cases bytes with
      | nil => cases h
      | cons byte bytes =>
          rw [readOwed] at h
          split at h
          · rename_i hrange
            obtain ⟨taken, bad, rest, hbytes, hcount, ⟨more, hne, howed⟩, hnone⟩ :=
              ih (by decide) (by decide) h
            refine ⟨byte :: taken, bad, rest, by rw [hbytes]; rfl, ?_,
              ⟨more, hne, .next hrange.1 hrange.2 howed⟩, ?_⟩
            · rw [hcount, List.length_cons]
              omega
            · intro more howed
              cases howed with
              | next _ _ howed => exact hnone more howed
          · rename_i hrange
            cases h
            obtain ⟨more, hmore⟩ := exists_owed hle hhigh (owed + 1)
            refine ⟨[], byte, bytes, rfl, rfl, ⟨more, ?_, hmore⟩, ?_⟩
            · intro hnil
              subst hnil
              cases hmore
            · intro more howed
              cases howed with
              | next hlow hhigh _ => exact hrange ⟨hlow, hhigh⟩

end Reading

/-! ## The table admits the encodings of characters -/

/-- What the table says, lead byte by lead byte. -/
theorem Lead.of?_cases {byte : UInt8} {lead : Lead} (h : Lead.of? byte = some lead) :
    (byte.toNat < 0x80 ∧ lead = ⟨byte.toNat, 0, 0x80, 0xbf⟩) ∨
      (0xc2 ≤ byte.toNat ∧ byte.toNat < 0xe0 ∧ lead = ⟨byte.toNat - 0xc0, 1, 0x80, 0xbf⟩) ∨
      (0xe0 ≤ byte.toNat ∧ byte.toNat < 0xf0 ∧
        lead = ⟨byte.toNat - 0xe0, 2, if byte.toNat = 0xe0 then 0xa0 else 0x80,
          if byte.toNat = 0xed then 0x9f else 0xbf⟩) ∨
      (0xf0 ≤ byte.toNat ∧ byte.toNat < 0xf5 ∧
        lead = ⟨byte.toNat - 0xf0, 3, if byte.toNat = 0xf0 then 0x90 else 0x80,
          if byte.toNat = 0xf4 then 0x8f else 0xbf⟩) := by
  unfold of? at h
  dsimp only at h
  split at h
  · rename_i hlt
    exact Or.inl ⟨hlt, (Option.some.inj h).symm⟩
  split at h
  · cases h
  split at h
  · exact Or.inr (Or.inl ⟨by omega, by omega, (Option.some.inj h).symm⟩)
  split at h
  · exact Or.inr (Or.inr (Or.inl ⟨by omega, by omega, (Option.some.inj h).symm⟩))
  split at h
  · exact Or.inr (Or.inr (Or.inr ⟨by omega, by omega, (Option.some.inj h).symm⟩))
  · cases h

/-- No range of the table is empty. -/
theorem Lead.low_le_high {byte : UInt8} {lead : Lead} (h : Lead.of? byte = some lead) :
    lead.low ≤ lead.high ∧ lead.high < 256 := by
  rcases of?_cases h with ⟨_, rfl⟩ | ⟨_, _, rfl⟩ | ⟨_, _, rfl⟩ | ⟨_, _, rfl⟩
  · dsimp only
    omega
  · dsimp only
    omega
  · dsimp only
    constructor
    · split <;> split <;> omega
    · split <;> omega
  · dsimp only
    constructor
    · split <;> split <;> omega
    · split <;> omega

theorem ofNat_eq (byte : UInt8) {n : Nat} (h : n = byte.toNat) : UInt8.ofNat n = byte := by
  rw [h, UInt8.ofNat_toNat]

theorem val_ofNat {n : Nat} (h : n < 0xd800 ∨ 0xdfff < n ∧ n < 0x110000) :
    (Char.ofNat n).val.toNat = n := by
  rw [Char.ofNat, dif_pos h]
  rfl

theorem encode_one {a : Nat} (ha : a < 128) :
    String.utf8EncodeChar (Char.ofNat a) = [UInt8.ofNat a] := by
  unfold String.utf8EncodeChar
  dsimp only
  rw [val_ofNat (by omega), if_pos (by omega)]

theorem encode_two {a b : Nat} (ha : 2 ≤ a ∧ a < 32) (hb : b < 64) :
    String.utf8EncodeChar (Char.ofNat (a * 64 + b)) =
      [UInt8.ofNat (a + 192), UInt8.ofNat (b + 128)] := by
  have hlead : (a * 64 + b) / 64 % 32 = a := by omega
  have hlast : (a * 64 + b) % 64 = b := by omega
  unfold String.utf8EncodeChar
  dsimp only
  rw [val_ofNat (by omega), if_neg (by omega), if_pos (by omega), hlead, hlast]

/-- The bounds on the second byte keep out what has a shorter encoding, and the surrogates. -/
theorem encode_three {a b c : Nat} (ha : a < 16) (hb : b < 64) (hc : c < 64) (hlow : a = 0 → 32 ≤ b)
    (hhigh : a = 13 → b < 32) :
    String.utf8EncodeChar (Char.ofNat ((a * 64 + b) * 64 + c)) =
      [UInt8.ofNat (a + 224), UInt8.ofNat (b + 128), UInt8.ofNat (c + 128)] := by
  have hlead : ((a * 64 + b) * 64 + c) / 4096 % 16 = a := by omega
  have hsecond : ((a * 64 + b) * 64 + c) / 64 % 64 = b := by omega
  have hlast : ((a * 64 + b) * 64 + c) % 64 = c := by omega
  unfold String.utf8EncodeChar
  dsimp only
  rw [val_ofNat (by omega), if_neg (by omega), if_neg (by omega), if_pos (by omega), hlead, hsecond,
    hlast]

/-- The bounds on the second byte keep out what has a shorter encoding, and what is too large. -/
theorem encode_four {a b c d : Nat} (ha : a < 5) (hb : b < 64) (hc : c < 64) (hd : d < 64)
    (hlow : a = 0 → 16 ≤ b) (hhigh : a = 4 → b < 16) :
    String.utf8EncodeChar (Char.ofNat (((a * 64 + b) * 64 + c) * 64 + d)) =
      [UInt8.ofNat (a + 240), UInt8.ofNat (b + 128), UInt8.ofNat (c + 128),
        UInt8.ofNat (d + 128)] := by
  have hlead : (((a * 64 + b) * 64 + c) * 64 + d) / 262144 % 8 = a := by omega
  have hsecond : (((a * 64 + b) * 64 + c) * 64 + d) / 4096 % 64 = b := by omega
  have hthird : (((a * 64 + b) * 64 + c) * 64 + d) / 64 % 64 = c := by omega
  have hlast : (((a * 64 + b) * 64 + c) * 64 + d) % 64 = d := by omega
  unfold String.utf8EncodeChar
  dsimp only
  rw [val_ofNat (by omega), if_neg (by omega), if_neg (by omega), if_neg (by omega), hlead, hsecond,
    hthird, hlast]

/-- What the table admits is the encoding of a character. -/
theorem encode_of_owed {byte : UInt8} {lead : Lead} {tail : List UInt8}
    (hlead : Lead.of? byte = some lead) (howed : Owed lead.low lead.high lead.following tail) :
    String.utf8EncodeChar (Char.ofNat (codePoint lead.code tail)) = byte :: tail := by
  rcases Lead.of?_cases hlead with ⟨hb, rfl⟩ | ⟨hb, hb', rfl⟩ | ⟨hb, hb', rfl⟩ | ⟨hb, hb', rfl⟩
  · cases howed.eq_nil
    rw [codePoint_nil, encode_one hb, UInt8.ofNat_toNat]
  · obtain ⟨b₁, rest, rfl, hlow₁, hhigh₁, hrest⟩ := howed.exists_cons
    cases hrest.eq_nil
    dsimp only at hlow₁ hhigh₁ ⊢
    rw [codePoint_cons, codePoint_nil, encode_two (by omega) (by omega), ofNat_eq byte (by omega),
      ofNat_eq b₁ (by omega)]
  · obtain ⟨b₁, rest, rfl, hlow₁, hhigh₁, hrest⟩ := howed.exists_cons
    obtain ⟨b₂, rest, rfl, hlow₂, hhigh₂, hrest⟩ := hrest.exists_cons
    cases hrest.eq_nil
    dsimp only at hlow₁ hhigh₁ ⊢
    have hsecond : 0x80 ≤ b₁.toNat ∧ b₁.toNat ≤ 0xbf ∧ (byte.toNat = 0xe0 → 0xa0 ≤ b₁.toNat) ∧
        (byte.toNat = 0xed → b₁.toNat ≤ 0x9f) := by
      split at hlow₁ <;> split at hhigh₁ <;> omega
    rw [codePoint_cons, codePoint_cons, codePoint_nil,
      encode_three (by omega) (by omega) (by omega) (by omega) (by omega),
      ofNat_eq byte (by omega), ofNat_eq b₁ (by omega), ofNat_eq b₂ (by omega)]
  · obtain ⟨b₁, rest, rfl, hlow₁, hhigh₁, hrest⟩ := howed.exists_cons
    obtain ⟨b₂, rest, rfl, hlow₂, hhigh₂, hrest⟩ := hrest.exists_cons
    obtain ⟨b₃, rest, rfl, hlow₃, hhigh₃, hrest⟩ := hrest.exists_cons
    cases hrest.eq_nil
    dsimp only at hlow₁ hhigh₁ ⊢
    have hsecond : 0x80 ≤ b₁.toNat ∧ b₁.toNat ≤ 0xbf ∧ (byte.toNat = 0xf0 → 0x90 ≤ b₁.toNat) ∧
        (byte.toNat = 0xf4 → b₁.toNat ≤ 0x8f) := by
      split at hlow₁ <;> split at hhigh₁ <;> omega
    rw [codePoint_cons, codePoint_cons, codePoint_cons, codePoint_nil,
      encode_four (by omega) (by omega) (by omega) (by omega) (by omega) (by omega),
      ofNat_eq byte (by omega), ofNat_eq b₁ (by omega), ofNat_eq b₂ (by omega),
      ofNat_eq b₃ (by omega)]

/-- The encoding of a character is admitted by the table. -/
theorem owed_of_encode (c : Char) : ∃ byte lead tail, String.utf8EncodeChar c = byte :: tail ∧
    Lead.of? byte = some lead ∧ Owed lead.low lead.high lead.following tail := by
  obtain ⟨byte, tail, hencode, hread⟩ := readFront_encode c
  have hfront := hread []
  unfold readFront at hfront
  split at hfront
  · rename_i lead hlead
    obtain ⟨taken, howed, htail, _⟩ := exists_owed_of_readOwed_scalar hfront
    rw [List.append_nil, List.append_nil] at htail
    subst htail
    exact ⟨byte, lead, tail, hencode, hlead, howed⟩
  · cases hfront

/-! ## Beginnings of characters -/

/-- The bytes are what the encoding of some character begins with, without its last bytes. -/
def BeginsChar (bytes : List UInt8) : Prop :=
  ∃ c more, more ≠ [] ∧ String.utf8EncodeChar c = bytes ++ more

/-- A beginning of a character is a lead byte and a part of the bytes that it announces. -/
theorem beginsChar_cons {byte : UInt8} {bytes : List UInt8} :
    BeginsChar (byte :: bytes) ↔ ∃ lead, Lead.of? byte = some lead ∧
      ∃ more, more ≠ [] ∧ Owed lead.low lead.high lead.following (bytes ++ more) := by
  constructor
  · intro hbegins
    obtain ⟨c, more, hne, hencode⟩ := hbegins
    obtain ⟨byte', lead, tail, hencode', hlead, howed⟩ := owed_of_encode c
    rw [hencode', List.cons_append] at hencode
    cases hencode
    exact ⟨lead, hlead, more, hne, howed⟩
  · intro hsequence
    obtain ⟨lead, hlead, more, hne, howed⟩ := hsequence
    exact ⟨_, more, hne, encode_of_owed hlead howed⟩

theorem BeginsChar.of_append {front rest : List UInt8} (h : BeginsChar (front ++ rest)) :
    BeginsChar front := by
  obtain ⟨c, more, hne, hencode⟩ := h
  exact ⟨c, rest ++ more, List.append_ne_nil_of_right_ne_nil rest hne, by
    rw [hencode, List.append_assoc]⟩

/-- Every character begins with nothing yet. -/
theorem beginsChar_nil : BeginsChar [] := by
  obtain ⟨byte, tail, hencode, _⟩ := readFront_encode 'a'
  exact ⟨'a', byte :: tail, List.cons_ne_nil _ _, hencode⟩

/-- No character has more than four bytes. -/
theorem BeginsChar.length_le {bytes : List UInt8} (h : BeginsChar bytes) : bytes.length ≤ 3 := by
  obtain ⟨c, more, hne, hencode⟩ := h
  have hlength := congrArg List.length hencode
  rw [List.length_append, String.length_utf8EncodeChar] at hlength
  have hmore := List.length_pos_iff.mpr hne
  have hfour := c.utf8Size_le_four
  omega

/-- The longest part that has a property, among those that the bytes begin with. -/
structure LongestFront (P : List UInt8 → Prop) (front bytes : List UInt8) : Prop where
  /-- The bytes begin with it. -/
  begins : front <+: bytes
  /-- It has the property. -/
  holds : P front
  /-- Nothing longer has. -/
  longest : ∀ other, other <+: bytes → P other → other.length ≤ front.length

theorem LongestFront.unique {P : List UInt8 → Prop} {front other bytes : List UInt8}
    (h : LongestFront P front bytes) (hother : LongestFront P other bytes) : front = other :=
  (List.prefix_of_prefix_length_le h.begins hother.begins
    (hother.longest front h.begins h.holds)).eq_of_length_le
    (h.longest other hother.begins hother.holds)

/-! ## What stands at the front -/

section Front

variable {byte : UInt8} {rest : List UInt8}

/-- A character is read if its encoding stands at the front. -/
theorem append_of_readFront_scalar {c : Char} {after : List UInt8}
    (h : readFront byte rest = .scalar c after) :
    byte :: rest = String.utf8EncodeChar c ++ after := by
  unfold readFront at h
  split at h
  · rename_i lead hlead
    obtain ⟨taken, howed, hrest, hc⟩ := exists_owed_of_readOwed_scalar h
    rw [hrest, hc, encode_of_owed hlead howed, List.cons_append]
  · cases h

theorem readFront_of_append {c : Char} {after : List UInt8}
    (h : byte :: rest = String.utf8EncodeChar c ++ after) :
    readFront byte rest = .scalar c after := by
  obtain ⟨lead, tail, hencode, hread⟩ := readFront_encode c
  rw [hencode, List.cons_append] at h
  cases h
  exact hread after

/-- Bytes are cut off if they all belong to the beginning of a character. -/
theorem beginsChar_of_readFront_truncated (h : readFront byte rest = .truncated) :
    BeginsChar (byte :: rest) := by
  unfold readFront at h
  split at h
  · rename_i lead hlead
    have hrange := Lead.low_le_high hlead
    exact beginsChar_cons.mpr
      ⟨lead, hlead, exists_owed_of_readOwed_truncated hrange.1 hrange.2 h⟩
  · cases h

/-- The length told for bytes that begin no character is that of the longest part of them that
still could have begun one, or it is one. -/
theorem exists_longestFront_of_readFront_malformed {count : Nat}
    (h : readFront byte rest = .malformed count) :
    ¬BeginsChar (byte :: rest) ∧
      ∃ start, LongestFront BeginsChar start (byte :: rest) ∧ count = max 1 start.length := by
  unfold readFront at h
  split at h
  · rename_i lead hlead
    have hrange := Lead.low_le_high hlead
    obtain ⟨taken, bad, after, hrest, hcount, hmore, hnone⟩ :=
      exists_owed_of_readOwed_malformed hrange.1 hrange.2 h
    subst hrest
    have hstart : BeginsChar (byte :: taken) := beginsChar_cons.mpr ⟨lead, hlead, hmore⟩
    have hbad : ¬BeginsChar (byte :: (taken ++ [bad])) := by
      intro hbegins
      obtain ⟨lead', hlead', more, _, howed⟩ := beginsChar_cons.mp hbegins
      rw [hlead] at hlead'
      cases hlead'
      rw [List.append_assoc] at howed
      exact hnone more howed
    have hsplit : byte :: (taken ++ bad :: after) = byte :: (taken ++ [bad]) ++ after := by
      rw [List.cons_append, List.append_assoc, List.singleton_append]
    refine ⟨?_, byte :: taken, ⟨⟨bad :: after, rfl⟩, hstart, ?_⟩, ?_⟩
    · intro hbegins
      rw [hsplit] at hbegins
      exact hbad hbegins.of_append
    · -- A longer beginning would take the byte that is out of range in.
      intro other hother hbegins
      rcases Nat.lt_or_ge (byte :: taken).length other.length with hlonger | hle
      · have hlength : (byte :: (taken ++ [bad])).length ≤ other.length := by
          rw [List.length_cons] at hlonger ⊢
          rw [List.length_append, List.length_singleton]
          omega
        obtain ⟨more, rfl⟩ :=
          List.prefix_of_prefix_length_le ⟨after, hsplit.symm⟩ hother hlength
        exact absurd hbegins.of_append hbad
      · exact hle
    · rw [hcount, List.length_cons]
      omega
  · rename_i hlead
    cases h
    have hbyte : ∀ bytes, ¬BeginsChar (byte :: bytes) := by
      intro bytes hbegins
      obtain ⟨lead, hlead', _⟩ := beginsChar_cons.mp hbegins
      rw [hlead] at hlead'
      cases hlead'
    refine ⟨hbyte rest, [], ⟨List.nil_prefix, beginsChar_nil, ?_⟩, rfl⟩
    intro other hother hbegins
    cases other with
    | nil => exact Nat.le_refl _
    | cons byte' other =>
        cases (List.cons_prefix_cons.mp hother).1
        exact absurd hbegins (hbyte other)

end Front

/-- Where the encodings of two characters stand in the same place, they are the same character. -/
theorem encode_append_inj {c d : Char} {rest after : List UInt8}
    (h : String.utf8EncodeChar c ++ rest = String.utf8EncodeChar d ++ after) :
    c = d ∧ rest = after := by
  obtain ⟨byte, tail, hencode, hread⟩ := readFront_encode c
  rw [hencode, List.cons_append] at h
  have hfront := readFront_of_append h
  rw [hread] at hfront
  cases hfront
  exact ⟨rfl, rfl⟩

end Lexing.Utf8
