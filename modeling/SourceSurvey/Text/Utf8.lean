/-!
Text as bytes. Reading is forgiving where it has to be: each longest group of bytes that only begins
a character stands for one replacement character. `length_next_le` bounds a step of the reader.
-/

namespace SourceSurvey.Text.Utf8

/-- What a first byte promises: the bits it gives, how many bytes follow, and the range of the next
    one of them. -/
structure Lead where
  bits : Nat
  count : Nat
  low : Nat
  high : Nat

/-- The promise of a first byte, if it is one. The ranges leave out overlong forms, surrogates and
    numbers beyond the last character. -/
def lead? (byte : Nat) : Option Lead :=
  if byte < 0x80 then some ⟨byte, 0, 0, 0⟩
  else if byte < 0xC2 then none
  else if byte < 0xE0 then some ⟨byte - 0xC0, 1, 0x80, 0xBF⟩
  else if byte < 0xF0 then
    some ⟨byte - 0xE0, 2, if byte = 0xE0 then 0xA0 else 0x80, if byte = 0xED then 0x9F else 0xBF⟩
  else if byte < 0xF5 then
    some ⟨byte - 0xF0, 3, if byte = 0xF0 then 0x90 else 0x80, if byte = 0xF4 then 0x8F else 0xBF⟩
  else none

/-- Reads the bytes that a first byte promised. The number read so far comes with the range of the
    next byte; a byte outside of it ends the group without a character. -/
def following : Nat → Nat → Nat → Nat → List UInt8 → Option Char × List UInt8
  | 0, bits, _, _, rest => (some (Char.ofNat bits), rest)
  | _ + 1, _, _, _, [] => (none, [])
  | count + 1, bits, low, high, byte :: rest =>
    if low ≤ byte.toNat ∧ byte.toNat ≤ high then
      following count (bits * 64 + (byte.toNat - 0x80)) 0x80 0xBF rest
    else (none, byte :: rest)

/-- The character that starts with a byte, if there is one, and the bytes behind it. -/
def next (byte : UInt8) (rest : List UInt8) : Option Char × List UInt8 :=
  match lead? byte.toNat with
  | none => (none, rest)
  | some lead => following lead.count lead.bits lead.low lead.high rest

theorem length_following_le (count bits low high : Nat) (rest : List UInt8) :
    (following count bits low high rest).2.length ≤ rest.length := by
  fun_induction following count bits low high rest with
  | case1 => simp
  | case2 => simp
  | case3 _ _ _ _ _ _ _ ih => simpa using Nat.le_succ_of_le ih
  | case4 => simp

/-- A step of the reader leaves no more than the bytes behind the first. -/
theorem length_next_le (byte : UInt8) (rest : List UInt8) :
    (next byte rest).2.length ≤ rest.length := by
  unfold next
  split
  · simp
  · exact length_following_le ..

/-- The characters of a sequence of bytes, with nothing in the place of each faulty group. -/
def groups : List UInt8 → List (Option Char)
  | [] => []
  | byte :: rest => (next byte rest).1 :: groups (next byte rest).2
termination_by bytes => bytes.length
decreasing_by exact Nat.lt_succ_of_le (length_next_le byte rest)

/-- The text that bytes spell, with U+FFFD for each faulty group. -/
def decodeLossy (bytes : List UInt8) : List Char :=
  (groups bytes).map fun group => group.getD '\uFFFD'

/-- The text that bytes spell, if they have no faulty group. -/
def decode? (bytes : List UInt8) : Option (List Char) := (groups bytes).mapM id

/-- The bytes of a character. -/
def encodeChar (c : Char) : List UInt8 :=
  let n := c.toNat
  let last (weight : Nat) : UInt8 := UInt8.ofNat (0x80 + n / weight % 64)
  if n < 0x80 then [UInt8.ofNat n]
  else if n < 0x800 then [UInt8.ofNat (0xC0 + n / 64), last 1]
  else if n < 0x10000 then [UInt8.ofNat (0xE0 + n / 4096), last 64, last 1]
  else [UInt8.ofNat (0xF0 + n / 262144), last 4096, last 64, last 1]

/-- The bytes of a text. -/
def encode (text : List Char) : List UInt8 := text.flatMap encodeChar

end SourceSurvey.Text.Utf8
