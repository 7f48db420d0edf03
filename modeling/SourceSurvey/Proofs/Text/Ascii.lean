import Mathlib.Data.List.Induction
import SourceSurvey.Proofs.Text.Utf8

/-!
Bytes of ASCII among others. No longer character has one among its bytes, so that the text of any
bytes falls apart there, and ends in ASCII exactly if the bytes do.
-/

namespace SourceSurvey.Text.Utf8

/-- A group ends before a byte of ASCII, whatever follows it. -/
theorem following_append {byte : UInt8} (hbyte : byte.toNat < 0x80) (count bits low high : Nat)
    (hlow : 0x80 ≤ low ∨ count = 0) (first rest : List UInt8) :
    following count bits low high (first ++ byte :: rest) =
      ((following count bits low high first).1,
        (following count bits low high first).2 ++ byte :: rest) := by
  fun_induction following count bits low high first with
  | case1 => rw [following]
  | case2 count bits low high => rw [List.nil_append, following, if_neg (by omega)]
  | case3 count bits low high next more hin ih =>
    rw [List.cons_append, following, if_pos hin]
    exact ih (.inl (Nat.le_refl _))
  | case4 count bits low high next more hout =>
    rw [List.cons_append, following, if_neg hout]

/-- What a first byte promises: nothing more, or one to three bytes that are none of ASCII. The
    numbers that they spell are those of characters outside of ASCII. -/
theorem lead?_cases {byte : Nat} {lead : Lead} (h : lead? byte = some lead) :
    (byte < 0x80 ∧ lead = ⟨byte, 0, 0, 0⟩) ∨
    (∃ bits, lead = ⟨bits, 1, 0x80, 0xBF⟩ ∧ 2 ≤ bits ∧ bits < 0x20) ∨
    (∃ bits low high, lead = ⟨bits, 2, low, high⟩ ∧ bits < 0x10 ∧ 0x80 ≤ low ∧ high ≤ 0xBF ∧
      (bits = 0 → 0xA0 ≤ low) ∧ (bits = 0xD → high ≤ 0x9F)) ∨
    (∃ bits low high, lead = ⟨bits, 3, low, high⟩ ∧ bits < 5 ∧ 0x80 ≤ low ∧ high ≤ 0xBF ∧
      (bits = 0 → 0x90 ≤ low) ∧ (bits = 4 → high ≤ 0x8F)) := by
  rw [lead?] at h
  by_cases h1 : byte < 0x80
  · rw [if_pos h1, Option.some.injEq] at h
    exact .inl ⟨h1, h.symm⟩
  by_cases h2 : byte < 0xC2
  · rw [if_neg h1, if_pos h2] at h
    cases h
  by_cases h3 : byte < 0xE0
  · rw [if_neg h1, if_neg h2, if_pos h3, Option.some.injEq] at h
    exact .inr (.inl ⟨_, h.symm, by omega, by omega⟩)
  by_cases h4 : byte < 0xF0
  · rw [if_neg h1, if_neg h2, if_neg h3, if_pos h4, Option.some.injEq] at h
    refine .inr (.inr (.inl ⟨_, _, _, h.symm, by omega, ?_, ?_, ?_, ?_⟩))
    all_goals split <;> omega
  by_cases h5 : byte < 0xF5
  · rw [if_neg h1, if_neg h2, if_neg h3, if_neg h4, if_pos h5, Option.some.injEq] at h
    refine .inr (.inr (.inr ⟨_, _, _, h.symm, by omega, ?_, ?_, ?_, ?_⟩))
    all_goals split <;> omega
  · rw [if_neg h1, if_neg h2, if_neg h3, if_neg h4, if_neg h5] at h
    cases h

theorem next_append {byte : UInt8} (hbyte : byte.toNat < 0x80) (lead : UInt8)
    (first rest : List UInt8) :
    next lead (first ++ byte :: rest) =
      ((next lead first).1, (next lead first).2 ++ byte :: rest) := by
  unfold next
  cases hlead : lead? lead.toNat with
  | none => rfl
  | some found =>
    refine following_append hbyte _ _ _ _ ?_ first rest
    obtain ⟨-, rfl⟩ | ⟨_, rfl, -⟩ | ⟨_, _, _, rfl, _, hlow, -⟩ | ⟨_, _, _, rfl, _, hlow, -⟩ :=
      lead?_cases hlead
    · exact .inr rfl
    · exact .inl (Nat.le_refl _)
    · exact .inl hlow
    · exact .inl hlow

theorem next_ascii {byte : UInt8} (hbyte : byte.toNat < 0x80) (rest : List UInt8) :
    next byte rest = (some (Char.ofNat byte.toNat), rest) := by
  rw [next, lead?, if_pos hbyte]
  exact following.eq_1 ..

theorem groups_append {byte : UInt8} (hbyte : byte.toNat < 0x80) (first rest : List UInt8) :
    groups (first ++ byte :: rest) =
      groups first ++ some (Char.ofNat byte.toNat) :: groups rest := by
  fun_induction groups first with
  | case1 => rw [List.nil_append, groups, next_ascii hbyte, List.nil_append]
  | case2 lead first ih =>
    rw [List.cons_append, groups, next_append hbyte, ih, List.cons_append]

theorem encodeChar_ascii {c : Char} (hc : c.toNat < 0x80) :
    encodeChar c = [UInt8.ofNat c.toNat] := by
  rw [encodeChar, if_pos hc]

/-- At a byte of ASCII the text of some bytes falls into the texts before and behind it. -/
theorem decodeLossy_append {byte : UInt8} (hbyte : byte.toNat < 0x80) (first rest : List UInt8) :
    decodeLossy (first ++ byte :: rest) =
      decodeLossy first ++ Char.ofNat byte.toNat :: decodeLossy rest := by
  rw [decodeLossy, groups_append hbyte, List.map_append, List.map_cons]
  rfl

theorem decodeLossy_append_char {c : Char} (hc : c.toNat < 0x80) (first : List UInt8) :
    decodeLossy (first ++ encodeChar c) = decodeLossy first ++ [c] := by
  have hbyte : (UInt8.ofNat c.toNat).toNat = c.toNat := toNat_ofNat_of_lt (by omega)
  have hnil : decodeLossy [] = [] := decodeLossy_encode []
  rw [encodeChar_ascii hc, decodeLossy_append (by omega), hbyte, Char.ofNat_toNat, hnil]

/-- A byte that is taken in lies within the range for it. -/
theorem following_succ {count bits low high : Nat} {first rest : List UInt8} {c : Char}
    (h : following (count + 1) bits low high first = (some c, rest)) :
    ∃ n more, low ≤ n ∧ n ≤ high ∧
      following count (bits * 64 + (n - 0x80)) 0x80 0xBF more = (some c, rest) := by
  cases first with
  | nil => cases h
  | cons byte more =>
    rw [following] at h
    split at h
    · next hin => exact ⟨byte.toNat, more, hin.1, hin.2, h⟩
    · cases h

theorem toNat_ofNat_of_isValidChar {n : Nat} (hn : n.isValidChar) : (Char.ofNat n).toNat = n := by
  rw [Char.ofNat, dif_pos hn]
  rfl

theorem toNat_of_following {bits low high : Nat} {first rest : List UInt8} {c : Char}
    (hbits : bits.isValidChar)
    (h : following 0 bits low high first = (some c, rest)) : c.toNat = bits := by
  rw [following, Prod.mk.injEq, Option.some.injEq] at h
  rw [← h.1, toNat_ofNat_of_isValidChar hbits]

/-- Only a byte of ASCII begins a character of ASCII. -/
theorem next_of_toNat_lt {byte : UInt8} {first rest : List UInt8} {c : Char}
    (h : next byte first = (some c, rest)) (hc : c.toNat < 0x80) :
    byte.toNat = c.toNat ∧ rest = first := by
  have hbyte : byte.toNat < 0x80 := by
    rw [next] at h
    cases hlead : lead? byte.toNat with
    | none => rw [hlead] at h; cases h
    | some lead =>
      rw [hlead] at h
      by_contra hbyte
      obtain ⟨hlt, -⟩ | ⟨bits, rfl, hbits⟩ | ⟨bits, low, high, rfl, hbits⟩ |
        ⟨bits, low, high, rfl, hbits⟩ := lead?_cases hlead
      · exact hbyte hlt
      all_goals dsimp only at h
      · obtain ⟨n, more, hlow, hhigh, h⟩ := following_succ h
        have := toNat_of_following (by unfold Nat.isValidChar; omega) h
        omega
      · obtain ⟨n, more, hlow, hhigh, h⟩ := following_succ h
        obtain ⟨m, more, hlow', hhigh', h⟩ := following_succ h
        have := toNat_of_following (by unfold Nat.isValidChar; omega) h
        omega
      · obtain ⟨n, more, hlow, hhigh, h⟩ := following_succ h
        obtain ⟨m, more, hlow', hhigh', h⟩ := following_succ h
        obtain ⟨k, more, hlow'', hhigh'', h⟩ := following_succ h
        have := toNat_of_following (by unfold Nat.isValidChar; omega) h
        omega
  rw [next_ascii hbyte, Prod.mk.injEq, Option.some.injEq] at h
  rw [← h.1, toNat_ofNat_of_isValidChar (.inl (by omega))]
  exact ⟨rfl, h.2.symm⟩

theorem following_suffix (count bits low high : Nat) (rest : List UInt8) :
    (following count bits low high rest).2 <:+ rest := by
  fun_induction following count bits low high rest with
  | case1 => exact List.suffix_refl _
  | case2 => exact List.suffix_refl _
  | case3 _ _ _ _ _ _ _ ih => exact ih.trans (List.suffix_cons ..)
  | case4 => exact List.suffix_refl _

theorem next_suffix (byte : UInt8) (rest : List UInt8) : (next byte rest).2 <:+ rest := by
  unfold next
  split
  · exact List.suffix_refl _
  · exact following_suffix ..

theorem groups_eq_nil {bytes : List UInt8} (h : groups bytes = []) : bytes = [] := by
  cases bytes with
  | nil => rfl
  | cons byte rest => rw [groups] at h; cases h

/-- Bytes whose last character is one of ASCII end in a byte of ASCII. -/
theorem last_lt_of_groups {bytes : List UInt8} {front : List (Option Char)} {c : Char}
    (hc : c.toNat < 0x80) (h : groups bytes = front ++ [some c]) :
    ∃ first byte, bytes = first ++ [byte] ∧ byte.toNat < 0x80 := by
  fun_induction groups bytes generalizing front with
  | case1 => exact absurd h.symm (List.concat_ne_nil _ _)
  | case2 byte rest ih =>
    cases front with
    | nil =>
      rw [List.nil_append, List.cons.injEq] at h
      have hrest := groups_eq_nil h.2
      obtain ⟨hbyte, rfl⟩ := next_of_toNat_lt (Prod.ext h.1 hrest) hc
      exact ⟨[], byte, rfl, hbyte ▸ hc⟩
    | cons group front =>
      rw [List.cons_append, List.cons.injEq] at h
      obtain ⟨first, last, hlast, hlt⟩ := ih h.2
      obtain ⟨before, hbefore⟩ := next_suffix byte rest
      refine ⟨byte :: before ++ first, last, ?_, hlt⟩
      rw [← hbefore, hlast, List.cons_append, List.cons_append, List.append_assoc]

/-- A text ends in a character of ASCII only if its bytes do. -/
theorem eq_append_of_decodeLossy {bytes : List UInt8} {text : List Char} {c : Char}
    (hc : c.toNat < 0x80) (h : decodeLossy bytes = text ++ [c]) :
    ∃ first, bytes = first ++ encodeChar c ∧ decodeLossy first = text := by
  obtain ⟨front, last, hgroups, rfl, hlast⟩ := List.map_eq_append_iff.mp h
  obtain ⟨group, rfl, hgroup⟩ := List.map_eq_singleton_iff.mp hlast
  obtain rfl : group = some c := by
    cases group with
    | none =>
      rw [← hgroup] at hc
      exact absurd hc (by decide)
    | some found => exact congrArg some hgroup
  obtain ⟨first, byte, rfl, hbyte⟩ := last_lt_of_groups hc hgroups
  rw [groups_append hbyte, groups] at hgroups
  obtain ⟨rfl, hlast⟩ := List.append_inj' hgroups rfl
  obtain rfl : Char.ofNat byte.toNat = c := by simpa using hlast
  refine ⟨first, ?_, rfl⟩
  rw [encodeChar_ascii hc, toNat_ofNat_of_isValidChar (.inl (by omega)), UInt8.ofNat_toNat]

/-- A name ends in a text of ASCII exactly if what it spells does. -/
theorem suffix_decodeLossy_iff {text : List Char} (htext : ∀ c ∈ text, c.toNat < 0x80)
    (bytes : List UInt8) : text <:+ decodeLossy bytes ↔ encode text <:+ bytes := by
  induction text using List.reverseRecOn generalizing bytes with
  | nil => simp [encode]
  | append_singleton front c ih =>
    have hfront (d : Char) (hd : d ∈ front) : d.toNat < 0x80 :=
      htext d (List.mem_append_left _ hd)
    have hc : c.toNat < 0x80 := htext c (List.mem_append_right _ (List.mem_singleton_self c))
    have hencode : encode (front ++ [c]) = encode front ++ encodeChar c := by
      rw [encode_append, encode, encode, List.flatMap_singleton]
    rw [hencode]
    constructor
    · rintro ⟨before, hbefore⟩
      rw [← List.append_assoc] at hbefore
      obtain ⟨first, rfl, hfirst⟩ := eq_append_of_decodeLossy hc hbefore.symm
      obtain ⟨start, rfl⟩ := (ih hfront first).mp ⟨before, hfirst.symm⟩
      exact ⟨start, (List.append_assoc ..).symm⟩
    · rintro ⟨before, rfl⟩
      obtain ⟨start, hstart⟩ := (ih hfront (before ++ encode front)).mpr ⟨before, rfl⟩
      refine ⟨start, ?_⟩
      rw [← List.append_assoc, hstart, ← List.append_assoc, decodeLossy_append_char hc]

end SourceSurvey.Text.Utf8
