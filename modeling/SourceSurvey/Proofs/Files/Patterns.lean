import Mathlib.Data.List.Basic
import Mathlib.Data.Nat.Init
import SourceSurvey.Files.Ignore
import SourceSurvey.Proofs.Text.Utf8

/-!
Rules for names. A name in which no character means anything else is covered anywhere by one rule,
and everything below it by another; both together cover the paths that have the name among their
steps.
-/

namespace SourceSurvey.Files

open Files.Path (slash)
open Text.Utf8

namespace Glob

/-! ### Reading a name -/

/-- The characters that may stand for something else in a pattern. -/
def special : List Char := ['*', '?', '[', ']', '\x7b', '\x7d', '\\']

/-- A name that stands for itself in the pattern of a rule. -/
structure IsPlain (name : List Char) : Prop where
  plain : ∀ c ∈ name, c ∉ special
  noSlash : '/' ∉ name
  last : ∀ c ∈ name.getLast?, Text.isBlank c = false

instance (name : List Char) : Decidable (IsPlain name) :=
  decidable_of_iff ((name.all fun c => !special.contains c) ∧ '/' ∉ name ∧
    (name.getLast?.all fun c => !Text.isBlank c)) <| by
    have hplain : (name.all fun c => !special.contains c) ↔ ∀ c ∈ name, c ∉ special := by simp
    have hlast : (name.getLast?.all fun c => !Text.isBlank c) ↔
        ∀ c ∈ name.getLast?, Text.isBlank c = false := by
      simp only [Option.all_eq_true, Bool.not_eq_true', Option.mem_def]
    rw [hplain, hlast]
    exact ⟨fun h => ⟨h.1, h.2.1, h.2.2⟩, fun h => ⟨h.plain, h.noSlash, h.last⟩⟩

section Reading

variable {lenient : Bool} {p : Progress}

/-- Outside of groups every other character is read as itself. -/
theorem read_cons (hp : p.frames = []) {c : Char} (hc : c ∉ special) (rest : List Char) :
    read lenient p (c :: rest) = read lenient (p.push c (.literal c)) rest := by
  have hbracket : ¬ (c = '[' ∧ (!p.stray) = true) := fun h => hc (by rw [h.1]; decide)
  rw [read.eq_def]
  split
  case h_1 heq => cases heq
  case h_7 heq =>
    -- A comma parts choices in a group only.
    cases heq
    rw [hp]
  case h_10 heq =>
    cases heq
    exact if_neg hbracket
  all_goals
    rename_i heq
    cases heq
    exact absurd (by decide) hc

theorem read_append (hp : p.frames = []) {text : List Char} (htext : ∀ c ∈ text, c ∉ special)
    (rest : List Char) :
    read lenient p (text ++ rest) =
      read lenient { p with
        pieces := (text.map Piece.literal).reverse ++ p.pieces
        last := text.getLast?.or p.last } rest := by
  induction text generalizing p with
  | nil => rfl
  | cons c text ih =>
    obtain ⟨hc, hothers⟩ := List.forall_mem_cons.mp htext
    have hlast : text.getLast?.or (some c) = (c :: text).getLast?.or p.last := by
      cases text <;> simp [List.getLast?_cons]
    rw [List.cons_append, read_cons hp hc, ih (p := p.push c (.literal c)) hp hothers, Progress.push,
      hlast, List.map_cons, List.reverse_cons, List.append_assoc]
    rfl

/-- Two stars and a slash at the front stand for directories. -/
theorem parse_anywhere (rest : List Char) :
    parse lenient ('*' :: '*' :: '/' :: rest) =
      read lenient ⟨[], [.leading], some '/', false⟩ rest := by
  rw [parse, read]
  rfl

theorem parse_name {name : List Char} (hname : ∀ c ∈ name, c ∉ special) :
    parse lenient ('*' :: '*' :: '/' :: name) = .ok (.leading :: name.map .literal) := by
  have hread := @read_append lenient ⟨[], [.leading], some '/', false⟩ rfl name hname []
  rw [List.append_nil] at hread
  rw [parse_anywhere, hread, read]
  simp

/-- Behind a slash two stars and a slash replace it, and stand for directories between. -/
theorem parse_below {name : List Char} (hname : ∀ c ∈ name, c ∉ special) :
    parse lenient ('*' :: '*' :: '/' :: (name ++ ['/', '*', '*', '/', '*'])) =
      .ok (.leading :: (name.map .literal ++ [.between, .star])) := by
  have hslash : ∀ c ∈ name ++ ['/'], c ∉ special :=
    List.forall_mem_append.mpr ⟨hname, List.forall_mem_singleton.mpr (by decide)⟩
  have hread := @read_append lenient ⟨[], [.leading], some '/', false⟩ rfl (name ++ ['/']) hslash
    ['*', '*', '/', '*']
  rw [List.append_assoc] at hread
  rw [parse_anywhere]
  refine hread.trans ?_
  simp [read, Progress.doubleStar, Progress.push]

end Reading

/-! ### What is left behind the pieces of a name -/

section Matching

variable {path left : List UInt8}

theorem mem_piecesRests_nil : left ∈ piecesRests path [] ↔ left = path := by
  rw [piecesRests, List.mem_singleton]

theorem mem_piecesRests_cons {piece : Piece} {rest : List Piece} :
    left ∈ piecesRests path (piece :: rest) ↔
      ∃ middle ∈ piece.rests path, left ∈ piecesRests middle rest := by
  rw [piecesRests, List.mem_eraseDups, List.mem_flatMap]

theorem mem_piecesRests_append {first second : List Piece} :
    left ∈ piecesRests path (first ++ second) ↔
      ∃ middle ∈ piecesRests path first, left ∈ piecesRests middle second := by
  induction first generalizing path with
  | nil => simp only [List.nil_append, mem_piecesRests_nil, exists_eq_left]
  | cons piece rest ih =>
    simp only [List.cons_append, mem_piecesRests_cons, ih]
    constructor
    · rintro ⟨behind, hbehind, middle, hmiddle, hleft⟩
      exact ⟨middle, ⟨behind, hbehind, hmiddle⟩, hleft⟩
    · rintro ⟨middle, ⟨behind, hbehind, hmiddle⟩, hleft⟩
      exact ⟨behind, hbehind, middle, hmiddle, hleft⟩

theorem mem_rests_literal {c : Char} :
    left ∈ (Piece.literal c).rests path ↔ path = encodeChar c ++ left := by
  rw [Piece.rests]
  constructor
  · intro hmem
    split at hmem
    · next hprefix =>
      obtain ⟨behind, rfl⟩ := List.isPrefixOf_iff_prefix.mp hprefix
      rw [List.drop_left, List.mem_singleton] at hmem
      rw [hmem]
    · cases hmem
  · rintro rfl
    simp

/-- A name takes its bytes from the front of a path. -/
theorem mem_piecesRests_literals {name : List Char} :
    left ∈ piecesRests path (name.map .literal) ↔ path = encode name ++ left := by
  induction name generalizing path with
  | nil => exact mem_piecesRests_nil.trans eq_comm
  | cons c name ih =>
    have hencode : encode (c :: name) = encodeChar c ++ encode name := List.flatMap_cons
    simp only [List.map_cons, mem_piecesRests_cons, mem_rests_literal, ih, hencode,
      List.append_assoc]
    exact ⟨fun ⟨middle, hpath, hmiddle⟩ => hmiddle ▸ hpath, fun hpath => ⟨_, hpath, rfl⟩⟩

theorem mem_behindSlashes :
    left ∈ behindSlashes path ↔ ∃ before, path = before ++ slash :: left := by
  induction path with
  | nil => simp [behindSlashes]
  | cons byte rest ih =>
    have hsplit : (∃ before, byte :: rest = before ++ slash :: left) ↔
        (byte = slash ∧ rest = left) ∨ ∃ before, rest = before ++ slash :: left := by
      constructor
      · rintro ⟨before, heq⟩
        cases before with
        | nil => exact .inl (List.cons.inj heq)
        | cons first others => exact .inr ⟨others, (List.cons.inj heq).2⟩
      · rintro (⟨rfl, rfl⟩ | ⟨before, rfl⟩)
        · exact ⟨[], rfl⟩
        · exact ⟨byte :: before, rfl⟩
    rw [hsplit, ← ih, behindSlashes]
    split
    · next hslash => simp [hslash, eq_comm]
    · next hslash => simp [hslash]

/-- The bytes of a path end before a name, if they are none or end with a slash. -/
def EndsBefore (before : List UInt8) : Prop := before = [] ∨ ∃ above, before = above ++ [slash]

/-- The bytes of a path go on behind a name, if they are none or begin with a slash. -/
def GoesOnBehind (after : List UInt8) : Prop := after = [] ∨ ∃ below, after = slash :: below

theorem mem_rests_leading :
    left ∈ Piece.leading.rests path ↔ ∃ before, EndsBefore before ∧ path = before ++ left := by
  rw [Piece.rests, List.mem_cons, mem_behindSlashes]
  constructor
  · rintro (rfl | ⟨above, rfl⟩)
    · exact ⟨[], .inl rfl, rfl⟩
    · exact ⟨above ++ [slash], .inr ⟨above, rfl⟩, by simp⟩
  · rintro ⟨before, rfl | ⟨above, rfl⟩, rfl⟩
    · exact .inl rfl
    · exact .inr ⟨above, by simp⟩

/-- A star leaves nothing exactly if there is no slash. -/
theorem nil_mem_behindName : [] ∈ behindName path ↔ slash ∉ path := by
  induction path with
  | nil => simp [behindName]
  | cons byte rest ih =>
    rw [behindName]
    split
    · next hslash => simp [hslash]
    · next hslash => simp [ih, Ne.symm hslash]

/-- Behind some directories and a name nothing is left of what begins with a slash. -/
theorem nil_mem_piecesRests_below :
    [] ∈ piecesRests path [.between, .star] ↔ ∃ below, path = slash :: below := by
  simp only [mem_piecesRests_cons, mem_piecesRests_nil, Piece.rests, exists_eq_right',
    nil_mem_behindName]
  constructor
  · rintro ⟨middle, hmiddle, -⟩
    split at hmiddle
    · next hhead =>
      obtain ⟨below, rfl⟩ := List.head?_eq_some_iff.mp hhead
      exact ⟨below, rfl⟩
    · cases hmiddle
  · rintro ⟨below, rfl⟩
    rw [if_pos List.head?_cons, List.drop_one, List.tail_cons]
    by_cases hslash : slash ∈ below
    · -- What is left behind the last slash has none.
      obtain ⟨last, before, hreverse, hlast⟩ :=
        List.eq_append_cons_of_mem (List.mem_reverse.mpr hslash)
      have hbelow : below = before.reverse ++ slash :: last.reverse := by
        rw [← List.reverse_reverse below, hreverse]
        simp
      refine ⟨last.reverse, List.mem_cons_of_mem _ (mem_behindSlashes.mpr ⟨_, hbelow⟩), ?_⟩
      exact fun hmem => hlast (List.mem_reverse.mp hmem)
    · exact ⟨below, List.mem_cons_self, hslash⟩

theorem covers_iff {piece : Piece} {pieces : List Piece} :
    covers (.leading :: piece :: pieces) path = true ↔
      [] ∈ piecesRests path (.leading :: piece :: pieces) := by
  rw [covers, List.any_eq_true]
  · simp
  · intro heq
    cases heq

end Matching

/-! ### Names among the steps of a path -/

theorem slash_ne_ofNat {n : Nat} (hlow : 0x80 ≤ n) (hhigh : n < 0x100) : slash ≠ UInt8.ofNat n := by
  intro heq
  have hnat : slash.toNat = n := by rw [heq, toNat_ofNat_of_lt hhigh]
  have hslash : slash.toNat = 47 := rfl
  omega

/-- Only a slash has the byte of a slash. -/
theorem slash_not_mem_encodeChar {c : Char} (hc : c ≠ '/') : slash ∉ encodeChar c := by
  have hvalid := toNat_valid c
  -- The bytes of a longer character all lie behind those of single ones.
  have hbyte (n : Nat) (h : 0x80 ≤ n ∧ n < 0x100) : slash ≠ UInt8.ofNat n :=
    slash_ne_ofNat h.1 h.2
  rw [← List.forall_mem_ne]
  unfold encodeChar
  simp only [Nat.div_one]
  split
  · next hlt =>
    rw [List.forall_mem_singleton]
    intro heq
    have hnat : slash.toNat = c.toNat := by rw [heq, toNat_ofNat_of_lt (by omega)]
    exact hc (Char.toNat_inj.mp hnat.symm)
  split
  · simp only [List.forall_mem_cons]
    exact ⟨hbyte _ (by omega), hbyte _ (by omega), nofun⟩
  split
  · simp only [List.forall_mem_cons]
    exact ⟨hbyte _ (by omega), hbyte _ (by omega), hbyte _ (by omega), nofun⟩
  · simp only [List.forall_mem_cons]
    exact ⟨hbyte _ (by omega), hbyte _ (by omega), hbyte _ (by omega), hbyte _ (by omega), nofun⟩

theorem slash_not_mem_encode {name : List Char} (hname : '/' ∉ name) : slash ∉ encode name := by
  rw [encode, List.mem_flatMap]
  rintro ⟨c, hc, hslash⟩
  exact slash_not_mem_encodeChar (fun heq => hname (heq ▸ hc)) hslash

/-- The fields between slashes are what stands between the end of one and the beginning of the
    next. -/
theorem mem_split_slash_iff {field path : List UInt8} (hfield : slash ∉ field) :
    field ∈ Text.split slash path ↔ ∃ before after, EndsBefore before ∧ GoesOnBehind after ∧
      path = before ++ (field ++ after) := by
  constructor
  · intro hmem
    induction hn : path.length using Nat.strong_induction_on generalizing path with
    | _ n ih =>
      subst hn
      by_cases hslash : slash ∈ path
      · obtain ⟨first, rest, rfl, hfirst⟩ := List.eq_append_cons_of_mem hslash
        rw [Text.split_append, Text.split_of_not_mem hfirst, List.singleton_append,
          List.mem_cons] at hmem
        obtain rfl | hmem := hmem
        · exact ⟨[], slash :: rest, .inl rfl, .inr ⟨rest, rfl⟩, rfl⟩
        · have hshorter : rest.length < (first ++ slash :: rest).length := by
            rw [List.length_append, List.length_cons]
            omega
          obtain ⟨before, after, hbefore, hafter, rfl⟩ := ih rest.length hshorter hmem rfl
          refine ⟨first ++ slash :: before, after, .inr ?_, hafter, by simp⟩
          obtain rfl | ⟨above, rfl⟩ := hbefore
          · exact ⟨first, rfl⟩
          · exact ⟨first ++ slash :: above, by simp⟩
      · rw [Text.split_of_not_mem hslash, List.mem_singleton] at hmem
        exact ⟨[], [], .inl rfl, .inl rfl, by simp [hmem]⟩
  · rintro ⟨before, after, hbefore, hafter, rfl⟩
    have hfirst : field ∈ Text.split slash (field ++ after) := by
      obtain rfl | ⟨below, rfl⟩ := hafter
      · simp [Text.split_of_not_mem hfield]
      · simp [Text.split_append, Text.split_of_not_mem hfield]
    obtain rfl | ⟨above, rfl⟩ := hbefore
    · exact hfirst
    · rw [List.append_assoc, List.singleton_append, Text.split_append]
      exact List.mem_append_right _ hfirst

/-- A name is among the steps of a path exactly if it is in the path as a whole step. -/
theorem mem_names_iff {name : Name} (hname : slash ∉ name) {names : List Name}
    (hne : names ≠ []) (hnames : ∀ step ∈ names, slash ∉ step) :
    name ∈ names ↔ ∃ before after, EndsBefore before ∧ GoesOnBehind after ∧
      Text.join [slash] names = before ++ (name ++ after) := by
  rw [← mem_split_slash_iff hname, Text.split_join hne hnames]

end Glob

/-! ### The rules for a name -/

namespace Rule

/-- The rule that covers a name anywhere. -/
def named (name : List Char) : Rule := ⟨.leading :: name.map .literal, false, true⟩

/-- The rule that covers everything below a name anywhere. -/
def below (name : List Char) : Rule :=
  ⟨.leading :: (name.map .literal ++ [.between, .star]), false, true⟩

open Glob

variable {name : List Char} {path : List UInt8}

theorem covers_named_iff (hne : name ≠ []) (isDirectory : Bool) :
    (named name).covers path isDirectory = true ↔
      ∃ before, EndsBefore before ∧ path = before ++ encode name := by
  obtain ⟨c, rest, rfl⟩ := List.exists_cons_of_ne_nil hne
  have hcovers : (named (c :: rest)).covers path isDirectory =
      Glob.covers (.leading :: (c :: rest).map .literal) path := rfl
  rw [hcovers, List.map_cons, Glob.covers_iff, ← List.map_cons, mem_piecesRests_cons]
  simp only [mem_rests_leading, mem_piecesRests_literals, List.append_nil]
  constructor
  · rintro ⟨middle, ⟨before, hbefore, rfl⟩, rfl⟩
    exact ⟨before, hbefore, rfl⟩
  · rintro ⟨before, hbefore, rfl⟩
    exact ⟨_, ⟨before, hbefore, rfl⟩, rfl⟩

theorem covers_below_iff (hne : name ≠ []) (isDirectory : Bool) :
    (below name).covers path isDirectory = true ↔
      ∃ before after, EndsBefore before ∧ path = before ++ (encode name ++ slash :: after) := by
  obtain ⟨c, rest, rfl⟩ := List.exists_cons_of_ne_nil hne
  have hcovers : (below (c :: rest)).covers path isDirectory =
      Glob.covers (.leading :: ((c :: rest).map .literal ++ [.between, .star])) path := rfl
  rw [hcovers, List.map_cons, List.cons_append, Glob.covers_iff, ← List.cons_append,
    ← List.map_cons, mem_piecesRests_cons]
  simp only [mem_rests_leading, mem_piecesRests_append, mem_piecesRests_literals,
    nil_mem_piecesRests_below]
  constructor
  · rintro ⟨middle, ⟨before, hbefore, rfl⟩, behind, rfl, after, rfl⟩
    exact ⟨before, after, hbefore, rfl⟩
  · rintro ⟨before, after, hbefore, rfl⟩
    exact ⟨_, ⟨before, hbefore, rfl⟩, _, rfl, after, rfl⟩

/-- The rules for a name cover a path exactly if the name is among its steps. -/
theorem covers_named_or_below_iff (hne : name ≠ []) (hname : '/' ∉ name) {steps : List Name}
    (hsteps : steps ≠ []) (hall : ∀ step ∈ steps, slash ∉ step) (isDirectory : Bool) :
    ((named name).covers (Text.join [slash] steps) isDirectory = true ∨
      (below name).covers (Text.join [slash] steps) isDirectory = true) ↔
      encode name ∈ steps := by
  rw [covers_named_iff hne, covers_below_iff hne,
    mem_names_iff (slash_not_mem_encode hname) hsteps hall]
  constructor
  · rintro (⟨before, hbefore, heq⟩ | ⟨before, after, hbefore, heq⟩)
    · exact ⟨before, [], hbefore, .inl rfl, by rw [heq, List.append_nil]⟩
    · exact ⟨before, slash :: after, hbefore, .inr ⟨after, rfl⟩, heq⟩
  · rintro ⟨before, after, hbefore, rfl | ⟨behind, rfl⟩, heq⟩
    · exact .inl ⟨before, hbefore, by rw [heq, List.append_nil]⟩
    · exact .inr ⟨before, behind, hbefore, heq⟩

/-! ### The lines for a name -/

theorem endsIn_eq_false {c d : Char} (hne : c ≠ d) (ending text : List Char) :
    endsIn (ending ++ [d]) (text ++ [c]) = false := by
  rw [endsIn, ← Bool.not_eq_true, List.isSuffixOf_iff_suffix]
  rintro ⟨before, heq⟩
  rw [← List.append_assoc] at heq
  exact hne (List.singleton_inj.mp (List.append_inj' heq rfl).2).symm

theorem trimLine_eq_self {c : Char} (hc : Text.isBlank c = false) (line : List Char) :
    trimLine (line ++ [c]) = line ++ [c] := by
  have htrim : Text.trimEnd (line ++ [c]) = line ++ [c] := by
    simp [Text.trimEnd, hc]
  rw [trimLine, htrim, ite_self]

/-- A line with an exclamation mark asks for what its pattern covers, if no blank and no slash is at
    its end. -/
theorem parse?_anywhere {c : Char} (hblank : Text.isBlank c = false) (hslash : c ≠ '/')
    (lenient : Bool) (rest : List Char) :
    parse? lenient ('!' :: '*' :: '*' :: '/' :: (rest ++ [c])) =
      (Glob.parse lenient (wholePattern false ('*' :: '*' :: '/' :: (rest ++ [c])))).map
        fun pieces => some ⟨pieces, false, true⟩ := by
  have htrim := trimLine_eq_self hblank ('!' :: '*' :: '*' :: '/' :: rest)
  have hends := endsIn_eq_false hslash [] ('*' :: '*' :: '/' :: rest)
  have hescaped := endsIn_eq_false hslash ['\\'] ('*' :: '*' :: '/' :: rest)
  have hopening : opening ('!' :: '*' :: '*' :: '/' :: (rest ++ [c])) =
      (true, false, '*' :: '*' :: '/' :: (rest ++ [c])) := rfl
  have hread : (('!' :: '*' :: '*' :: '/' :: (rest ++ [c])).head? == some '#' ||
      ('!' :: '*' :: '*' :: '/' :: (rest ++ [c])).isEmpty) = false := rfl
  simp only [List.cons_append, List.nil_append] at htrim hends hescaped
  unfold parse?
  simp only [htrim, hread, hopening, hends, hescaped, Bool.false_eq_true, if_false]
  cases Glob.parse lenient (wholePattern false ('*' :: '*' :: '/' :: (rest ++ [c]))) with
  | error problem => rfl
  | ok pieces => rfl

theorem parse?_named (hname : IsPlain name) (hne : name ≠ []) (lenient : Bool) :
    parse? lenient ('!' :: '*' :: '*' :: '/' :: name) = .ok (some (named name)) := by
  obtain ⟨rest, c, rfl⟩ : ∃ rest c, name = rest ++ [c] :=
    ⟨_, _, (List.dropLast_append_getLast hne).symm⟩
  have hc : c ∈ rest ++ [c] := by simp
  have hstar : c ≠ '*' := fun heq => hname.plain c hc (by rw [heq]; decide)
  have hslash : c ≠ '/' := fun heq => hname.noSlash (heq ▸ hc)
  have hends := endsIn_eq_false hstar ['/', '*'] ('*' :: '*' :: '/' :: rest)
  simp only [List.cons_append, List.nil_append] at hends
  have hwhole : wholePattern false ('*' :: '*' :: '/' :: (rest ++ [c])) =
      '*' :: '*' :: '/' :: (rest ++ [c]) := by
    simp [wholePattern, hends]
  rw [parse?_anywhere (hname.last c (by simp)) hslash, hwhole, parse_name hname.plain]
  rfl

theorem parse?_below (hname : IsPlain name) (lenient : Bool) :
    parse? lenient ('!' :: '*' :: '*' :: '/' :: (name ++ ['/', '*', '*'])) =
      .ok (some (below name)) := by
  have hsplit : name ++ ['/', '*', '*'] = (name ++ ['/', '*']) ++ ['*'] := by simp
  have hends : endsIn ['/', '*', '*'] ('*' :: '*' :: '/' :: (name ++ ['/', '*', '*'])) = true :=
    List.isSuffixOf_iff_suffix.mpr ⟨'*' :: '*' :: '/' :: name, rfl⟩
  have hwhole : wholePattern false ('*' :: '*' :: '/' :: (name ++ ['/', '*', '*'])) =
      '*' :: '*' :: '/' :: (name ++ ['/', '*', '*', '/', '*']) := by
    simp [wholePattern, hends]
  rw [hsplit, parse?_anywhere rfl (by decide), ← hsplit, hwhole, parse_below hname.plain]
  rfl

end Rule

end SourceSurvey.Files
