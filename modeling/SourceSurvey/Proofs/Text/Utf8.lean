import SourceSurvey.Text.Utf8

/-!
Reading undoes writing: the bytes of a text have no faulty group, and spell that text.
-/

namespace SourceSurvey.Text.Utf8

theorem toNat_ofNat_of_lt {n : Nat} (hn : n < 256) : (UInt8.ofNat n).toNat = n :=
  UInt8.toNat_ofNat_of_lt' hn

theorem encode_append (first second : List Char) :
    encode (first ++ second) = encode first ++ encode second :=
  List.flatMap_append

/-- A number that a character has lies outside of the surrogates. -/
theorem toNat_valid (c : Char) : c.toNat < 0xD800 ∨ (0xDFFF < c.toNat ∧ c.toNat < 0x110000) :=
  c.valid

/-- A byte within the range for the next one is taken in. -/
theorem following_cons {count bits low high n : Nat} (hn : n < 256) (hlow : low ≤ n)
    (hhigh : n ≤ high) (rest : List UInt8) :
    following (count + 1) bits low high (UInt8.ofNat n :: rest) =
      following count (bits * 64 + (n - 0x80)) 0x80 0xBF rest := by
  rw [following, toNat_ofNat_of_lt hn, if_pos ⟨hlow, hhigh⟩]

/-- The first byte of a character and the range of the second are those of its group. -/
theorem next_encodeChar (c : Char) (rest : List UInt8) :
    ∃ byte tail, encodeChar c ++ rest = byte :: tail ∧ next byte tail = (some c, rest) := by
  have hc := toNat_valid c
  have hofNat : Char.ofNat c.toNat = c := Char.ofNat_toNat c
  unfold encodeChar
  simp only [Nat.div_one]
  split
  · next h1 =>
    refine ⟨_, rest, rfl, ?_⟩
    rw [next, toNat_ofNat_of_lt (by omega), lead?, if_pos h1]
    simp [following]
  split
  · next h1 h2 =>
    refine ⟨_, _ :: rest, rfl, ?_⟩
    rw [next, toNat_ofNat_of_lt (by omega), lead?, if_neg (by omega), if_neg (by omega),
      if_pos (by omega)]
    simp only
    rw [following_cons (by omega) (by omega) (by omega), following]
    have hbits : (192 + c.toNat / 64 - 192) * 64 + (128 + c.toNat % 64 - 128) = c.toNat := by omega
    rw [hbits, hofNat]
  split
  · next h1 h2 h3 =>
    refine ⟨_, _ :: _ :: rest, rfl, ?_⟩
    rw [next, toNat_ofNat_of_lt (by omega), lead?, if_neg (by omega), if_neg (by omega),
      if_neg (by omega), if_pos (by omega)]
    simp only
    rw [following_cons (by omega) (by split <;> omega) (by split <;> omega),
      following_cons (by omega) (by omega) (by omega), following]
    have hbits : ((224 + c.toNat / 4096 - 224) * 64 + (128 + c.toNat / 64 % 64 - 128)) * 64 +
        (128 + c.toNat % 64 - 128) = c.toNat := by omega
    rw [hbits, hofNat]
  · next h1 h2 h3 =>
    refine ⟨_, _ :: _ :: _ :: rest, rfl, ?_⟩
    rw [next, toNat_ofNat_of_lt (by omega), lead?, if_neg (by omega), if_neg (by omega),
      if_neg (by omega), if_neg (by omega), if_pos (by omega)]
    simp only
    rw [following_cons (by omega) (by split <;> omega) (by split <;> omega),
      following_cons (by omega) (by omega) (by omega),
      following_cons (by omega) (by omega) (by omega), following]
    have hbits : (((240 + c.toNat / 262144 - 240) * 64 + (128 + c.toNat / 4096 % 64 - 128)) * 64 +
        (128 + c.toNat / 64 % 64 - 128)) * 64 + (128 + c.toNat % 64 - 128) = c.toNat := by omega
    rw [hbits, hofNat]

theorem groups_encode (text : List Char) : groups (encode text) = text.map some := by
  induction text with
  | nil => simp [encode, groups]
  | cons c text ih =>
    obtain ⟨byte, tail, hbytes, hnext⟩ := next_encodeChar c (encode text)
    have hencode : encode (c :: text) = encodeChar c ++ encode text := by simp [encode]
    rw [hencode, hbytes, groups, hnext, ih, List.map_cons]

/-- The bytes of a text spell the text. -/
theorem decodeLossy_encode (text : List Char) : decodeLossy (encode text) = text := by
  rw [decodeLossy, groups_encode, List.map_map]
  exact List.map_id text

/-- The bytes of a text are read as the text itself. -/
theorem decode?_encode (text : List Char) : decode? (encode text) = some text := by
  rw [decode?, groups_encode]
  induction text with
  | nil => rfl
  | cons c rest ih => rw [List.map_cons, List.mapM_cons, ih]; rfl

theorem encodeChar_eq_utf8EncodeChar (c : Char) : encodeChar c = String.utf8EncodeChar c := by
  have hc := toNat_valid c
  have hval : c.val.toNat = c.toNat := rfl
  unfold encodeChar String.utf8EncodeChar
  simp only [hval, Nat.div_one]
  by_cases h1 : c.toNat < 0x80
  · rw [if_pos h1, if_pos (show c.toNat ≤ 0x7f by omega)]
  rw [if_neg h1, if_neg (show ¬ c.toNat ≤ 0x7f by omega)]
  by_cases h2 : c.toNat < 0x800
  · have hlead : c.toNat / 64 % 32 + 192 = 192 + c.toNat / 64 := by omega
    rw [if_pos h2, if_pos (show c.toNat ≤ 0x7ff by omega), hlead, Nat.add_comm 128]
  rw [if_neg h2, if_neg (show ¬ c.toNat ≤ 0x7ff by omega)]
  by_cases h3 : c.toNat < 0x10000
  · have hlead : c.toNat / 4096 % 16 + 224 = 224 + c.toNat / 4096 := by omega
    rw [if_pos h3, if_pos (show c.toNat ≤ 0xffff by omega), hlead, Nat.add_comm 128,
      Nat.add_comm 128]
  · have hlead : c.toNat / 262144 % 8 + 240 = 240 + c.toNat / 262144 := by omega
    rw [if_neg h3, if_neg (show ¬ c.toNat ≤ 0xffff by omega), hlead, Nat.add_comm 128,
      Nat.add_comm 128, Nat.add_comm 128]

/-- The bytes of a text are those that the standard encoding gives it. -/
theorem encode_toList (s : String) : encode s.toList = s.toUTF8.data.toList := by
  rw [String.toUTF8_eq_toByteArray, ← String.utf8Encode_toList, List.utf8Encode,
    List.data_toByteArray, encode]
  simp only [funext encodeChar_eq_utf8EncodeChar]

end SourceSurvey.Text.Utf8
