import Mathlib.Tactic.SplitIfs
import SourceSurvey.Proofs.LineEnds.Text
import SourceSurvey.Proofs.Syntax.Quoting

/-!
String literals in a text and in the same text with its line ends written in the other way. A literal
on single marks may go on behind a line feed that comes directly after its opening, an escape or an
interpolation. A carriage return there is text of the literal, so that the line feed behind it breaks
the literal off. All other literals are the same in both texts, and so is their value.
-/

namespace SourceSurvey.Syntax

open SourceSurvey.Text

theorem ne_of_isQuotationMark {mark c : Char} (hmark : isQuotationMark mark = true)
    (hc : isQuotationMark c = false) : c ≠ mark := by
  rintro rfl
  rw [hmark] at hc
  cases hc

/-- A number of digits stands in both texts or in none. -/
theorem digitsLength_crlf {p : Char → Bool} (hfeed : p '\n' = false) (hreturn : p '\r' = false)
    {c : Char} (hc : c ≠ '\n') (n : Nat) (rest : List Char) :
    digitsLength p n (crlf rest) = (crlf ((c :: rest).take (digitsLength p n rest))).length := by
  have hboth := all_take_crlf hfeed hreturn rest n
  by_cases hdigits : (rest.take n).length = n ∧ (rest.take n).all p = true
  · have hline : '\n' ∉ rest.take n := by
      intro hmem
      have hp := List.all_eq_true.mp hdigits.2 _ hmem
      rw [hfeed] at hp
      cases hp
    rw [digitsLength, digitsLength, if_pos hdigits, if_pos (hboth.mpr hdigits),
      List.take_succ_cons, crlf_cons hc, crlf_eq_self hline, List.length_cons, hdigits.1]
  · rw [digitsLength, digitsLength, if_neg hdigits, if_neg (mt hboth.mp hdigits)]
    rfl

/-- A name reaches to the same brace in both texts. -/
theorem nameLength_crlf {c : Char} (hc : c ≠ '\n') (rest : List Char) :
    nameLength (crlf rest) = (crlf ((c :: rest).take (nameLength rest))).length := by
  by_cases hbrace : ∃ name, rest = '\x7b' :: name
  · obtain ⟨name, rfl⟩ := hbrace
    let inside := name.takeWhile (· != '\x7d')
    let behind := name.dropWhile (· != '\x7d')
    have hname : inside ++ behind = name := List.takeWhile_append_dropWhile
    have hinside : (crlf name).takeWhile (· != '\x7d') = crlf inside :=
      takeWhile_crlf_of_pos rfl rfl name
    have hempty : (crlf inside).isEmpty = inside.isEmpty := by
      rw [Bool.eq_iff_iff, List.isEmpty_iff, List.isEmpty_iff, crlf_eq_nil]
    have hopen : (crlf inside).length = (crlf name).length ↔ inside.length = name.length := by
      rw [← hname, crlf_append, List.length_append, List.length_append, Nat.left_eq_add,
        Nat.left_eq_add, List.length_eq_zero_iff, List.length_eq_zero_iff, crlf_eq_nil]
    have hzero : (crlf inside).contains '\x00' = inside.contains '\x00' := by
      rw [Bool.eq_iff_iff, List.contains_iff_mem, List.contains_iff_mem, mem_crlf (by decide)]
    rw [crlf_cons (by decide), nameLength, nameLength]
    simp only [hinside, hempty, hopen, hzero]
    split
    · rfl
    · next hsome =>
      have hclosed : behind ≠ [] := by
        intro hnil
        rw [hnil, List.append_nil] at hname
        exact hsome (by simp [inside, hname])
      obtain ⟨d, more, hbehind⟩ := List.exists_cons_of_ne_nil hclosed
      have hd : d = '\x7d' := by
        have hhead := List.head_dropWhile_not (· != '\x7d') hclosed
        have hfirst : behind.head hclosed = d := by simp only [hbehind, List.head_cons]
        simpa [behind, hfirst] using hhead
      have htake : name.take (inside.length + 1) = inside ++ [d] := by
        rw [← hname, hbehind, List.take_length_add_append]
        rfl
      rw [List.take_succ_cons, List.take_succ_cons, htake, crlf_cons hc, crlf_cons (by decide),
        crlf_append, hd]
      simp [crlf_cons]
  · have hbrace' : ∀ name, rest ≠ '\x7b' :: name := fun name h => hbrace ⟨name, h⟩
    rw [nameLength, nameLength]
    · rfl
    · exact hbrace'
    · exact crlf_ne_cons (by decide) hbrace'

/-- An escape that takes a character takes what is written for the character. -/
theorem escapeLength_crlf {text : List Char} (hreturn : '\r' ∉ text) :
    escapeLength (crlf text) = (crlf (text.take (escapeLength text))).length := by
  cases text with
  | nil => rfl
  | cons c rest =>
    by_cases hc : c = '\n'
    · subst hc
      rfl
    · have hfirst : ∀ more behind, c = '\r' → more = '\n' :: behind → False := by
        rintro _ _ rfl _
        exact hreturn List.mem_cons_self
      rw [crlf_cons hc, escapeLength, escapeLength]
      · split_ifs
        · exact digitsLength_crlf rfl rfl hc 4 rest
        · exact digitsLength_crlf rfl rfl hc 8 rest
        · exact digitsLength_crlf rfl rfl hc 2 rest
        · exact digitsLength_crlf rfl rfl hc 2 rest
        · rw [List.take_succ_cons, crlf_cons hc]
          rfl
        · exact nameLength_crlf hc rest
        · rfl
      · exact hfirst _
      · exact hfirst _

theorem lineEndLength_crlf {text : List Char} (hreturn : '\r' ∉ text) :
    lineEndLength (crlf text) = (crlf (text.take (lineEndLength text))).length := by
  cases text with
  | nil => rfl
  | cons c rest =>
    by_cases hc : c = '\n'
    · subst hc
      rfl
    · have hc' : c ≠ '\r' := by
        rintro rfl
        exact hreturn List.mem_cons_self
      have hzero : ∀ more, lineEndLength (c :: more) = 0 := by
        intro more
        rw [lineEndLength.eq_def]
        split <;> simp_all
      rw [crlf_cons hc, hzero, hzero]
      rfl

/-- So does a backslash of a raw literal. -/
theorem shieldLength_crlf {mark : Char} (hmark : isQuotationMark mark = true) {text : List Char}
    (hreturn : '\r' ∉ text) :
    shieldLength mark (crlf text) = (crlf (text.take (shieldLength mark text))).length := by
  have hfeed : [mark, '\\'].contains '\n' = false := by
    simp [ne_of_isQuotationMark hmark (c := '\n') rfl]
  have hreturn' : [mark, '\\'].contains '\r' = false := by
    simp [ne_of_isQuotationMark hmark (c := '\r') rfl]
  have hwhole := lineEndLength_crlf hreturn
  cases text with
  | nil => rfl
  | cons c rest =>
    have hrest := lineEndLength_crlf (List.not_mem_of_not_mem_cons hreturn)
    by_cases hline : c = '\n'
    · subst hline
      simpa only [crlf_lineFeed, shieldLength, lengthOfAny, hfeed, hreturn', if_false, Nat.zero_add,
        Bool.false_eq_true, List.drop_zero] using hwhole
    · rw [crlf_cons hline] at hwhole ⊢
      cases hc : [mark, '\\'].contains c with
      | true =>
        simp only [shieldLength, lengthOfAny, hc, if_true, List.drop_succ_cons, List.drop_zero,
          hrest]
        rw [Nat.add_comm 1 (lineEndLength rest), List.take_succ_cons, crlf_cons hline,
          List.length_cons, Nat.add_comm]
      | false =>
        simpa only [shieldLength, lengthOfAny, hc, if_false, Nat.zero_add, Bool.false_eq_true,
          List.drop_zero] using hwhole

namespace Quotation

variable {q : Quotation} {begun : Bool} {c : Char} {rest : List Char}

/-- Whether the next move takes a line end that is not shielded by an escape. In a literal of bytes
    the character behind some letters is taken with them unseen. -/
def takesLineEnd (q : Quotation) : List Char → Bool
  | '\n' :: _ => true
  | '\\' :: c :: '\n' :: _ => !q.raw && q.bytes && isTextEscape c
  | _ => false

/-- Whether a literal on single marks, read from a point inside it, comes to a line end that nothing
    shields. -/
def spills (q : Quotation) (begun : Bool) : List Char → Bool
  | [] => false
  | c :: rest =>
    !q.triple && q.takesLineEnd (c :: rest) ||
      match q.move begun c rest with
      | .text begun more => q.spills begun (rest.drop more)
      | _ => false
termination_by text => text.length
decreasing_by simp only [List.length_drop, List.length_cons]; omega

/-- What a move takes, with its line ends written in the other way. -/
def Move.crlf (rest : List Char) : Move → Move
  | .text begun more => .text begun (Text.crlf (rest.take more)).length
  | move => move

theorem move_lineFeed (q : Quotation) (begun : Bool) (rest : List Char) :
    q.move begun '\n' rest = if begun && !q.triple then .broken else .text true 0 := by
  have hmark : '\n' ≠ q.mark := ne_of_isQuotationMark q.isMark rfl
  simp [move, hmark]

theorem move_return (q : Quotation) (begun : Bool) (rest : List Char) :
    q.move begun '\r' rest = .text true 0 := by
  have hmark : '\r' ≠ q.mark := ne_of_isQuotationMark q.isMark rfl
  simp [move, hmark]

/-- A letter behind a backslash is the same in both texts. -/
theorem isTextEscape_crlf (rest : List Char) :
    isTextEscape ((crlf rest).headD ' ') = isTextEscape (rest.headD ' ') := by
  cases rest with
  | nil => rfl
  | cons d rest =>
    by_cases hd : d = '\n'
    · subst hd
      rfl
    · rw [crlf_cons hd]
      rfl

/-- Where such a letter stands, the character behind it is taken in both texts. -/
theorem length_take_two_crlf (hletter : isTextEscape (rest.headD ' ') = true)
    (hline : ∀ d more, rest = d :: '\n' :: more → isTextEscape d = false) :
    ((crlf rest).take 2).length = (crlf (rest.take (rest.take 2).length)).length := by
  match rest with
  | [] => cases hletter
  | d :: more =>
    have hd : d ≠ '\n' := by
      rintro rfl
      cases hletter
    rw [crlf_cons hd]
    match more with
    | [] =>
      have htake : [d].take ([d].take 2).length = [d] := rfl
      rw [htake, crlf_cons hd]
      rfl
    | e :: more =>
      have he : e ≠ '\n' := by
        rintro rfl
        exact absurd hletter (Bool.eq_false_iff.mp (hline d more rfl))
      have htake : (d :: e :: more).take ((d :: e :: more).take 2).length = [d, e] := rfl
      rw [htake, crlf_cons he, crlf_cons hd, crlf_cons he]
      rfl

/-- A move that takes no unshielded line end is the same in both texts. -/
theorem move_crlf (hreturn : '\r' ∉ c :: rest) (hline : q.takesLineEnd (c :: rest) = false) :
    q.move begun c (crlf rest) = (q.move begun c rest).crlf rest := by
  obtain ⟨hc', hrest⟩ := List.ne_and_not_mem_of_not_mem_cons hreturn
  have hc : c ≠ '\n' := by
    rintro rfl
    cases hline
  have hhead : (crlf rest).head? = some c ↔ rest.head? = some c := by
    rw [head?_crlf]
    split
    · next hfeed => simp [hfeed, hc', Ne.symm hc]
    · rfl
  have hprefix : [q.mark, q.mark].isPrefixOf (crlf rest) = [q.mark, q.mark].isPrefixOf rest := by
    refine isPrefixOf_crlf ?_ ?_ rest
    · simp [ne_of_isQuotationMark q.isMark (c := '\n') rfl]
    · simp [ne_of_isQuotationMark q.isMark (c := '\r') rfl]
  simp only [move, hhead, hprefix, isTextEscape_crlf, shieldLength_crlf q.isMark hrest,
    escapeLength_crlf hrest]
  split_ifs with hzero hbrace hdouble hopen hbackslash hraw hletter hmark htriple hprefix' hbegun
  any_goals rfl
  · have htake : rest.take 1 = [c] := by
      cases rest with
      | nil => cases hdouble
      | cons d rest =>
        cases hdouble
        rfl
    rw [Move.crlf, htake, crlf_cons hc]
    rfl
  · subst hbackslash
    rw [Bool.and_eq_true] at hletter
    have hline' : ∀ d more, rest = d :: '\n' :: more → isTextEscape d = false := by
      rintro d more rfl
      simpa [takesLineEnd, hraw, hletter.1] using hline
    exact congrArg (Move.text true) (length_take_two_crlf hletter.2 hline')

/-- What ends a stretch ends no line. -/
theorem length_crlf_take_stop {stretch : Stretch} {n : Nat}
    (hmove : q.move begun c rest = .stop stretch n) :
    (crlf ((c :: rest).take n)).length = n := by
  have hfeed : '\n' ≠ q.mark := ne_of_isQuotationMark q.isMark rfl
  unfold move at hmove
  split_ifs at hmove with hzero hbrace hdouble hopen hbackslash hraw hletter hmark htriple hprefix
  · cases hmove
    subst hopen
    rfl
  · cases hmove
    subst hmark
    rw [List.take_succ_cons, crlf_cons (Ne.symm hfeed)]
    rfl
  · cases hmove
    subst hmark
    obtain ⟨more, rfl⟩ := List.isPrefixOf_iff_prefix.mp hprefix
    simp [crlf_cons (Ne.symm hfeed)]

theorem stretch_lineFeed (q : Quotation) (rest : List Char) :
    q.stretch true ('\n' :: rest) =
      if q.triple then (q.stretch true rest).map fun (s, n) => (s, n + 1) else none := by
  rw [stretch, move_lineFeed]
  cases q.triple <;> rfl

theorem stretch_return (q : Quotation) (begun : Bool) (rest : List Char) :
    q.stretch begun ('\r' :: rest) = (q.stretch true rest).map fun (s, n) => (s, n + 1) := by
  rw [stretch, move_return]
  rfl

/-- A line end that nothing shields breaks a literal on single marks off in the other text. Between
    tripled marks it is text in both. -/
theorem stretch_crlf_takesLineEnd (begun : Bool) (htakes : q.takesLineEnd (c :: rest) = true) :
    (q.triple = false → q.stretch begun (crlf (c :: rest)) = none) ∧
      (q.triple = true → ∃ more, q.move begun c rest = .text true more ∧
        q.stretch begun (crlf (c :: rest)) = (q.stretch true (crlf (rest.drop more))).map
          fun (s, n) => (s, (crlf ((c :: rest).take (more + 1))).length + n)) := by
  unfold takesLineEnd at htakes
  split at htakes
  · next heq =>
    cases heq
    refine ⟨fun htriple => ?_, fun htriple => ⟨0, ?_, ?_⟩⟩
    · rw [crlf_lineFeed, stretch_return, stretch_lineFeed, htriple]
      rfl
    · simp [move_lineFeed, htriple]
    · rw [crlf_lineFeed, stretch_return, stretch_lineFeed, htriple, List.drop_zero]
      simp only [if_true, Option.map_map]
      refine Option.map_congr fun found _ => ?_
      simp [Nat.add_comm 2]
  · next d more heq =>
    cases heq
    rw [Bool.and_eq_true, Bool.and_eq_true, Bool.not_eq_true'] at htakes
    obtain ⟨⟨hraw, hbytes⟩, hletter⟩ := htakes
    have hd : d ≠ '\n' := by
      rintro rfl
      cases hletter
    have hmove : ∀ e behind, q.move begun '\\' (d :: e :: behind) = .text true 2 := by
      intro e behind
      simp [move, hraw, hbytes, hletter]
    have hcrlf : crlf ('\\' :: d :: '\n' :: more) = '\\' :: d :: '\r' :: '\n' :: crlf more := by
      rw [crlf_cons (by decide), crlf_cons hd, crlf_lineFeed]
    refine ⟨fun htriple => ?_, fun htriple => ⟨2, hmove _ _, ?_⟩⟩
    · rw [hcrlf, stretch, hmove]
      simp [stretch_lineFeed, htriple]
    · rw [hcrlf, stretch, hmove]
      have htake : ('\\' :: d :: '\n' :: more).take 3 = ['\\', d, '\n'] := rfl
      simp only [htake, List.drop_succ_cons, List.drop_zero, stretch_lineFeed,
        htriple, if_true, Option.map_map]
      refine Option.map_congr fun found _ => ?_
      simp [crlf_cons, hd, Nat.add_comm 4]
  · cases htakes

/-- What becomes of a move in the other text when it does not spill. -/
theorem stretch_crlf_step (hreturn : '\r' ∉ c :: rest)
    (hspill : (!q.triple && q.takesLineEnd (c :: rest)) = false) :
    q.stretch begun (crlf (c :: rest)) =
      match q.move begun c rest with
      | .broken => none
      | .stop s n => some (s, n)
      | .text begun more => (q.stretch begun (crlf (rest.drop more))).map
          fun (s, n) => (s, (crlf ((c :: rest).take (more + 1))).length + n) := by
  cases htakes : q.takesLineEnd (c :: rest) with
  | true =>
    rw [htakes, Bool.and_true, Bool.not_eq_false'] at hspill
    obtain ⟨more, hmove, hstretch⟩ := (stretch_crlf_takesLineEnd begun htakes).2 hspill
    rw [hmove, hstretch]
  | false =>
    have hc : c ≠ '\n' := by
      rintro rfl
      cases htakes
    rw [crlf_cons hc, stretch, move_crlf hreturn htakes]
    cases q.move begun c rest with
    | broken => rfl
    | stop s n => rfl
    | text begun more =>
      simp only [Move.crlf, drop_crlf, List.take_succ_cons, crlf_cons hc, List.length_cons]
      refine Option.map_congr fun found _ => ?_
      rw [Nat.add_assoc, Nat.add_comm 1, Nat.add_comm]

/-- A literal that spills over a line end is broken off in the other text; otherwise a stretch is as
    long but for its line ends. -/
theorem stretch_crlf (q : Quotation) (begun : Bool) {text : List Char} (hreturn : '\r' ∉ text) :
    q.stretch begun (crlf text) =
      if q.spills begun text then none
      else (q.stretch begun text).map fun (s, n) => (s, (crlf (text.take n)).length) := by
  fun_induction q.spills begun text with
  | case1 begun =>
    rw [crlf_nil, stretch]
    rfl
  | case2 begun c rest ih =>
    cases hspill : !q.triple && q.takesLineEnd (c :: rest) with
    | true =>
      rw [Bool.and_eq_true, Bool.not_eq_true'] at hspill
      exact (stretch_crlf_takesLineEnd _ hspill.2).1 hspill.1
    | false =>
      rw [stretch_crlf_step hreturn hspill, stretch, Bool.false_or]
      cases hmove : q.move begun c rest with
      | broken => rfl
      | stop s n =>
        have hlength := length_crlf_take_stop hmove
        simp [hlength]
      | text begun' more =>
        have hmore : '\r' ∉ rest.drop more := fun hmem =>
          hreturn (List.mem_cons_of_mem c (List.mem_of_mem_drop hmem))
        simp only [ih begun' more hmore]
        split
        · rfl
        · rw [Option.map_map, Option.map_map]
          refine Option.map_congr fun found _ => ?_
          have hsum := length_crlf_take_add (c :: rest) (more + 1) found.2
          rw [List.drop_succ_cons] at hsum
          have horder : found.2 + 1 + more = more + 1 + found.2 := by omega
          simp only [Function.comp_apply, horder, hsum]

theorem one_le_of_stretch {text : List Char} {s : Stretch} {n : Nat}
    (hstretch : q.stretch begun text = some (s, n)) : 1 ≤ n := by
  cases text with
  | nil =>
    rw [stretch] at hstretch
    cases hstretch
  | cons c rest =>
    rw [stretch] at hstretch
    cases hmove : q.move begun c rest with
    | broken =>
      rw [hmove] at hstretch
      cases hstretch
    | stop s' m =>
      rw [hmove] at hstretch
      cases hstretch
      unfold move at hmove
      split_ifs at hmove <;> cases hmove <;> omega
    | text begun' more =>
      rw [hmove] at hstretch
      obtain ⟨found, -, heq⟩ := Option.map_eq_some_iff.mp hstretch
      cases heq
      omega

/-- A stretch that is closed ends with the quotation marks. -/
theorem exists_take_of_stretch_closed {text : List Char} {n : Nat}
    (hstretch : q.stretch begun text = some (.closed, n)) :
    ∃ inside, text.take n = inside ++ List.replicate q.width q.mark := by
  fun_induction q.stretch begun text generalizing n with
  | case1 => cases hstretch
  | case2 => cases hstretch
  | case3 begun c rest s m hmove =>
    cases hstretch
    refine ⟨[], ?_⟩
    unfold move at hmove
    split_ifs at hmove with hzero hbrace hdouble hopen hbackslash hraw hletter hmark htriple hprefix
    · cases hmove
    · cases hmove
      rw [width, if_neg (by simpa using htriple), hmark]
      rfl
    · cases hmove
      obtain ⟨more, rfl⟩ := List.isPrefixOf_iff_prefix.mp hprefix
      rw [width, if_pos (by simpa using htriple), hmark]
      rfl
  | case4 begun c rest begun' more hmove ih =>
    obtain ⟨⟨s, m⟩, hrest, heq⟩ := Option.map_eq_some_iff.mp hstretch
    cases heq
    obtain ⟨inside, hinside⟩ := ih hrest
    refine ⟨(c :: rest).take (more + 1) ++ inside, ?_⟩
    have horder : m + 1 + more = more + 1 + m := by omega
    rw [horder, List.take_add, List.drop_succ_cons, hinside, List.append_assoc]

theorem take_length_takeWhile (p : Char → Bool) (text : List Char) :
    text.take (text.takeWhile p).length = text.takeWhile p :=
  (List.prefix_iff_eq_take.mp (List.takeWhile_prefix p)).symm

/-- A literal opens in the same way in both texts. -/
theorem ofText?_crlf (text : List Char) : ofText? (crlf text) = ofText? text := by
  have hletters : (crlf text).takeWhile isLiteralLetter = text.takeWhile isLiteralLetter :=
    takeWhile_crlf rfl rfl text
  have hbehind := drop_crlf_of_line text (n := (text.takeWhile isLiteralLetter).length)
    (by rw [take_length_takeWhile]; exact not_mem_takeWhile rfl text)
  simp only [ofText?, hletters, hbehind]
  cases text.drop (text.takeWhile isLiteralLetter).length with
  | nil => rfl
  | cons mark rest =>
    by_cases hmark : isQuotationMark mark = true
    · have hfeed : '\n' ≠ mark := ne_of_isQuotationMark hmark rfl
      have hreturn : '\r' ≠ mark := ne_of_isQuotationMark hmark rfl
      have hprefix : [mark, mark].isPrefixOf (crlf rest) = [mark, mark].isPrefixOf rest :=
        isPrefixOf_crlf (by simp [hfeed]) (by simp [hreturn]) rest
      simp only [crlf_cons (Ne.symm hfeed), opened, hprefix]
    · by_cases hline : mark = '\n'
      · subst hline
        rfl
      · simp only [crlf_cons hline, dif_neg hmark]

/-- What is recognised as an opening. -/
theorem exists_of_ofText? {text : List Char} {opening : Nat}
    (htext : ofText? text = some (q, opening)) :
    ∃ letters mark isMark rest, text = letters ++ mark :: rest ∧
      (∀ c ∈ letters, isLiteralLetter c = true) ∧ q = opened letters mark isMark rest ∧
      opening = letters.length + q.width := by
  rw [ofText?] at htext
  simp only at htext
  split at htext
  · next mark rest hbehind =>
    split at htext
    · next isMark =>
      cases htext
      refine ⟨text.takeWhile isLiteralLetter, mark, isMark, rest, ?_,
        fun c hc => List.mem_takeWhile_imp hc, rfl, rfl⟩
      rw [← hbehind, drop_length_takeWhile, List.takeWhile_append_dropWhile]
    · cases htext
  · cases htext

/-- Letters and a quotation mark make an opening. -/
theorem ofText?_append {letters : List Char} (hletters : ∀ c ∈ letters, isLiteralLetter c = true)
    {mark : Char} (isMark : isQuotationMark mark = true) (rest : List Char) :
    ofText? (letters ++ mark :: rest) = some (opened letters mark isMark rest,
      letters.length + (opened letters mark isMark rest).width) := by
  have hmark : ¬ isLiteralLetter mark = true := by
    intro hletter
    simp only [isLiteralLetter, List.contains_iff_mem] at hletter
    have hall : (['f', 'F', 'r', 'R', 'b', 'B', 'u', 'U'].all fun c => !isQuotationMark c) = true :=
      rfl
    have hnot := List.all_eq_true.mp hall mark hletter
    rw [isMark] at hnot
    cases hnot
  have hwhile : (letters ++ mark :: rest).takeWhile isLiteralLetter = letters := by
    rw [List.takeWhile_append_of_pos hletters, List.takeWhile_cons_of_neg hmark, List.append_nil]
  rw [ofText?]
  simp only [hwhile, List.drop_left, dif_pos isMark]

/-- The marks of an opening. -/
theorem take_width {letters : List Char} {mark : Char} (isMark : isQuotationMark mark = true)
    (rest : List Char) :
    (mark :: rest).take (opened letters mark isMark rest).width =
      List.replicate (opened letters mark isMark rest).width mark := by
  unfold width
  split
  · next htriple =>
    rw [opened, Bool.and_eq_true] at htriple
    obtain ⟨more, rfl⟩ := List.isPrefixOf_iff_prefix.mp htriple.2
    rfl
  · rfl

theorem one_le_width (q : Quotation) : 1 ≤ q.width := by
  unfold width
  split <;> omega

/-- An opening has letters and quotation marks, and so no line end. -/
theorem opening_spec {text : List Char} {opening : Nat}
    (htext : ofText? text = some (q, opening)) :
    1 ≤ opening ∧ (text.take opening).length = opening ∧ '\n' ∉ text.take opening := by
  obtain ⟨letters, mark, isMark, rest, rfl, hletters, rfl, rfl⟩ := exists_of_ofText? htext
  have hwidth := one_le_width (opened letters mark isMark rest)
  rw [List.take_length_add_append, take_width, List.length_append, List.length_replicate,
    List.mem_append, List.mem_replicate, not_or]
  refine ⟨by omega, rfl, fun hmem => ?_, fun hmem => ne_of_isQuotationMark isMark rfl hmem.2⟩
  cases hletters _ hmem

/-- A literal opens in the same way whatever follows its opening. -/
theorem ofText?_take {text : List Char} {opening n : Nat}
    (htext : ofText? text = some (q, opening)) (hn : opening ≤ n) :
    ofText? (text.take n) = some (q, opening) := by
  obtain ⟨letters, mark, isMark, rest, rfl, hletters, rfl, rfl⟩ := exists_of_ofText? htext
  have hwidth := one_le_width (opened letters mark isMark rest)
  obtain ⟨m, rfl⟩ := Nat.exists_eq_add_of_le hn
  obtain ⟨k, hk⟩ := Nat.exists_eq_add_of_le hwidth
  have htake : (letters ++ mark :: rest).take
      (letters.length + (opened letters mark isMark rest).width + m) =
      letters ++ mark :: rest.take (k + m) := by
    rw [hk, Nat.add_assoc, List.take_length_add_append, Nat.add_comm 1, Nat.add_right_comm,
      List.take_succ_cons]
  have hsame : opened letters mark isMark (rest.take (k + m)) = opened letters mark isMark rest := by
    have hprefix : (mark != '`' && [mark, mark].isPrefixOf (rest.take (k + m))) =
        (mark != '`' && [mark, mark].isPrefixOf rest) := by
      rw [Bool.eq_iff_iff, Bool.and_eq_true, Bool.and_eq_true, List.isPrefixOf_iff_prefix,
        List.isPrefixOf_iff_prefix, List.prefix_take_iff]
      refine ⟨fun h => ⟨h.1, h.2.1⟩, fun h => ⟨h.1, h.2, ?_⟩⟩
      have htriple : (opened letters mark isMark rest).triple = true := by
        rw [opened, Bool.and_eq_true, List.isPrefixOf_iff_prefix]
        exact h
      rw [width, if_pos htriple] at hk
      simp only [List.length_cons, List.length_nil]
      omega
    simp only [opened, hprefix]
  rw [htake, ofText?_append hletters isMark, hsame]

end Quotation

/-- The value of a literal that ends with its quotation marks. -/
theorem literalValue?_of_ofText? {q : Quotation} {text inside : List Char} {opening : Nat}
    (htext : Quotation.ofText? text = some (q, opening))
    (hinside : text.drop opening = inside ++ List.replicate q.width q.mark) :
    literalValue? text = if q.bytes || q.format || q.mark == '`' then none
      else some (if q.raw then unixLineEnds inside else unescape (unixLineEnds inside)) := by
  have hlength : text.length - opening - q.width = inside.length := by
    rw [← List.length_drop, hinside, List.length_append, List.length_replicate, Nat.add_sub_cancel]
  rw [literalValue?, htext, Option.bind_eq_bind, Option.bind_some]
  simp only [hinside, hlength, List.take_left]

/-- A literal that ends with its quotation marks has the same value in both texts. -/
theorem literalValue?_crlf {q : Quotation} {text inside : List Char} {opening : Nat}
    (hreturn : '\r' ∉ text) (htext : Quotation.ofText? text = some (q, opening))
    (hinside : text.drop opening = inside ++ List.replicate q.width q.mark) :
    literalValue? (crlf text) = literalValue? text := by
  have hreturn' : '\r' ∉ inside := fun hmem =>
    hreturn (List.mem_of_mem_drop (hinside ▸ List.mem_append_left _ hmem))
  have htext' : Quotation.ofText? (crlf text) = some (q, opening) :=
    (Quotation.ofText?_crlf text).trans htext
  have hmarks : crlf (List.replicate q.width q.mark) = List.replicate q.width q.mark :=
    crlf_eq_self fun hmem =>
      ne_of_isQuotationMark q.isMark rfl (List.eq_of_mem_replicate hmem)
  have hbehind : (crlf text).drop opening = crlf inside ++ List.replicate q.width q.mark := by
    rw [drop_crlf_of_line text (Quotation.opening_spec htext).2.2, hinside, crlf_append, hmarks]
  rw [literalValue?_of_ofText? htext' hbehind, literalValue?_of_ofText? htext hinside,
    unixLineEnds_crlf hreturn', unixLineEnds_eq_self hreturn']

end SourceSurvey.Syntax
