import SourceSurvey.Proofs.LineEnds.Literals
import SourceSurvey.Proofs.Splices.Numbers

/-!
Literals before a joined line. A backslash goes on with no mark, prefix or escape that is complete
before it. Only an escape by name reaches further: it begins behind a brace and ends wherever the next
brace closes.
-/

namespace SourceSurvey.Syntax

open SourceSurvey.Text

theorem prefix_of_backslash {list first rest : List Char} (hlist : '\\' ∉ list)
    (h : list <+: first ++ '\\' :: rest) : list <+: first := by
  obtain ⟨more, hmore⟩ := h
  obtain ⟨tail, htail, -⟩ | ⟨tail, htail, hrest⟩ := List.append_eq_append_iff.mp hmore
  · exact ⟨tail, htail.symm⟩
  · cases tail with
    | nil => exact ⟨[], by simpa using htail⟩
    | cons c tail =>
      obtain ⟨rfl, -⟩ := List.cons.inj hrest
      exact absurd (htail ▸ List.mem_append_right first List.mem_cons_self) hlist

/-- A text begins with something that it is long enough for, whatever follows a backslash. -/
theorem isPrefixOf_backslash {list first second : List Char} (hlist : '\\' ∉ list)
    (h : list <+: first ++ second → list.length ≤ first.length) (rest : List Char) :
    list.isPrefixOf (first ++ '\\' :: rest) = list.isPrefixOf (first ++ second) := by
  rw [Bool.eq_iff_iff, List.isPrefixOf_iff_prefix, List.isPrefixOf_iff_prefix]
  constructor
  · intro hprefix
    exact (prefix_of_backslash hlist hprefix).trans (List.prefix_append _ _)
  · intro hprefix
    exact (List.prefix_of_prefix_length_le hprefix (List.prefix_append _ _) (h hprefix)).trans
      (List.prefix_append _ _)

theorem steady_digitsLength {isDigit : Char → Bool} (hbackslash : isDigit '\\' = false) (n : Nat) :
    Steady (digitsLength isDigit n) := by
  intro first second rest hle
  by_cases hn : n ≤ first.length
  · rw [digitsLength, digitsLength, List.take_append_of_le_length hn,
      List.take_append_of_le_length hn]
  · have hsecond : digitsLength isDigit n (first ++ second) = 0 := by
      rw [digitsLength] at hle ⊢
      split at hle
      · omega
      · next h => exact if_neg h
    rw [hsecond, digitsLength, if_neg]
    rintro ⟨-, hall⟩
    obtain ⟨m, rfl⟩ := Nat.exists_eq_add_of_lt (Nat.lt_of_not_le hn)
    rw [Nat.add_assoc, List.take_length_add_append, List.take_succ_cons, List.all_append,
      List.all_cons, hbackslash, Bool.false_and, Bool.and_false] at hall
    cases hall

theorem nameLength_of_ne {c : Char} (hc : c ≠ '\x7b') (rest : List Char) :
    nameLength (c :: rest) = 0 := by
  rw [nameLength.eq_def]
  split <;> simp_all

/-- The length of an escape by name, from what stands before the next closing brace. -/
theorem nameLength_brace (name : List Char) : nameLength ('\x7b' :: name) =
    if (name.takeWhile (· != '\x7d')).isEmpty ||
      (name.takeWhile (· != '\x7d')).length = name.length ||
        (name.takeWhile (· != '\x7d')).contains '\x00' then 0
    else (name.takeWhile (· != '\x7d')).length + 3 := rfl

/-- The name of an escape reaches to the next closing brace, on whatever line that is. -/
theorem nameLength_backslash {first second : List Char} (hlast : first.getLast? ≠ some '\x7b')
    (hle : nameLength (first ++ second) ≤ first.length) :
    nameLength (first ++ '\\' :: '\n' :: second) = nameLength (first ++ second) := by
  match first with
  | [] => exact (Nat.le_zero.mp hle).symm
  | c :: name =>
    by_cases hc : c = '\x7b'
    · subst hc
      have hname : name ≠ [] := by
        rintro rfl
        exact hlast rfl
      rw [List.cons_append, nameLength_brace] at hle
      rw [List.cons_append, List.cons_append, nameLength_brace, nameLength_brace]
      by_cases hopen : (name.takeWhile (· != '\x7d')).length = name.length
      · -- the name is not closed within the first part, and so there is no escape
        have hcut : ('\\' :: '\n' :: second).takeWhile (· != '\x7d') =
            '\\' :: '\n' :: second.takeWhile (· != '\x7d') := rfl
        rw [List.takeWhile_append, if_pos hopen] at hle ⊢
        rw [List.takeWhile_append, if_pos hopen, hcut]
        by_cases hnone : (second.takeWhile (· != '\x7d')).length = second.length ∨
            '\x00' ∈ name ∨ '\x00' ∈ second.takeWhile (· != '\x7d')
        · rw [if_pos, if_pos]
          · simpa [hname] using hnone
          · simpa [hname] using hnone
        · rw [if_neg] at hle
          · simp only [List.length_append, List.length_cons] at hle
            omega
          · simpa [hname] using hnone
      · have hlength : ∀ text : List Char,
            ¬ (name.takeWhile (· != '\x7d')).length = (name ++ text).length := by
          intro text heq
          have hle := (List.takeWhile_prefix (· != '\x7d') (l := name)).length_le
          rw [List.length_append] at heq
          omega
        rw [List.takeWhile_append, List.takeWhile_append, if_neg hopen, if_neg hopen]
        simp only [hlength]
    · rw [List.cons_append, List.cons_append, nameLength_of_ne hc, nameLength_of_ne hc]

theorem escapeLength_cons {c : Char} {rest : List Char}
    (h : c = '\r' → rest.head? ≠ some '\n') : escapeLength (c :: rest) =
      if c == 'u' then digitsLength isHexDigit 4 rest
      else if c == 'U' then digitsLength isHexDigit 8 rest
      else if c == 'x' then digitsLength isHexDigit 2 rest
      else if c.isDigit then digitsLength Char.isDigit 2 rest
      else if ['\n', '\'', '"', 'a', 'b', 'f', 'r', 'n', 't', 'v', '\\'].contains c then 1
      else if c == 'N' then nameLength rest
      else 0 := by
  rw [escapeLength]
  rintro more rfl rfl
  exact h rfl rfl

theorem escapeLength_backslash {first second : List Char} (hlast : first.getLast? ≠ some '\x7b')
    (hlt : escapeLength (first ++ second) < first.length) :
    escapeLength (first ++ '\\' :: '\n' :: second) = escapeLength (first ++ second) := by
  cases first with
  | nil => cases hlt
  | cons c first =>
    simp only [List.cons_append] at hlt ⊢
    by_cases hreturn : c = '\r' ∧ (first ++ second).head? = some '\n'
    · obtain ⟨rfl, hhead⟩ := hreturn
      cases first with
      | nil =>
        obtain ⟨more, rfl⟩ := List.head?_eq_some_iff.mp hhead
        simp [escapeLength] at hlt
      | cons d first =>
        obtain rfl : d = '\n' := Option.some.inj hhead
        rfl
    · have hhead : c = '\r' → (first ++ second).head? ≠ some '\n' :=
        fun hc hhead => hreturn ⟨hc, hhead⟩
      rw [escapeLength_cons hhead] at hlt ⊢
      rw [escapeLength_cons fun hc => head_ne_of_backslash (by decide) (hhead hc) _]
      have hdigits : ∀ {isDigit n}, isDigit '\\' = false →
          digitsLength isDigit n (first ++ second) < (c :: first).length →
            digitsLength isDigit n (first ++ '\\' :: '\n' :: second) =
              digitsLength isDigit n (first ++ second) :=
        fun hdigit h => steady_digitsLength hdigit _ _ _ _ (Nat.le_of_lt_succ h)
      split_ifs at hlt ⊢
      · exact hdigits rfl hlt
      · exact hdigits rfl hlt
      · exact hdigits rfl hlt
      · exact hdigits rfl hlt
      · rfl
      · refine nameLength_backslash (fun hbrace => hlast ?_) (Nat.le_of_lt_succ hlt)
        cases first with
        | nil => cases hbrace
        | cons d first => exact hbrace
      · rfl

theorem lineEndLength_cons_cons (c d : Char) (rest rest' : List Char) :
    lineEndLength (c :: d :: rest) = lineEndLength (c :: d :: rest') := by
  have hreturn : ∀ rest, d ≠ '\n' → lineEndLength ('\r' :: d :: rest) = 1 := by
    intro rest hd
    rw [lineEndLength]
    rintro more heq
    exact hd (List.cons.inj heq).1
  have hother : ∀ rest, c ≠ '\r' → c ≠ '\n' → lineEndLength (c :: rest) = 0 := by
    intro rest hc hc'
    rw [lineEndLength.eq_def]
    split <;> simp_all
  obtain rfl | hc := eq_or_ne c '\r'
  · obtain rfl | hd := eq_or_ne d '\n'
    · rfl
    · rw [hreturn _ hd, hreturn _ hd]
  · obtain rfl | hc' := eq_or_ne c '\n'
    · rfl
    · rw [hother _ hc hc', hother _ hc hc']

theorem lineEndLength_backslash {first second : List Char}
    (hlt : lineEndLength (first ++ second) < first.length) (rest : List Char) :
    lineEndLength (first ++ '\\' :: rest) = lineEndLength (first ++ second) := by
  match first with
  | [] => cases hlt
  | [c] =>
    by_cases hc : c = '\r' ∨ c = '\n'
    · obtain rfl | rfl := hc
      · have hone : 1 ≤ lineEndLength ('\r' :: second) := by
          unfold lineEndLength
          split <;> simp_all
        exact absurd hlt (Nat.not_lt.mpr hone)
      · exact absurd hlt (Nat.lt_irrefl 1)
    · have hnone : ∀ rest, lineEndLength (c :: rest) = 0 := by
        intro rest
        rw [lineEndLength.eq_def]
        split <;> simp_all
      exact (hnone _).trans (hnone _).symm
  | c :: d :: first => exact lineEndLength_cons_cons c d _ _

/-- What a backslash of a raw literal shields. -/
theorem shieldLength_backslash {mark : Char} {first second : List Char}
    (hlt : shieldLength mark (first ++ second) < first.length) (rest : List Char) :
    shieldLength mark (first ++ '\\' :: rest) = shieldLength mark (first ++ second) := by
  cases first with
  | nil => cases hlt
  | cons c first =>
    have hsame : ∀ text, lengthOfAny [mark, '\\'] (c :: text) =
        if [mark, '\\'].contains c then 1 else 0 := fun _ => rfl
    simp only [shieldLength, List.cons_append, hsame, List.length_cons] at hlt ⊢
    split
    · next hc =>
      rw [if_pos hc] at hlt
      simp only [List.drop_succ_cons, List.drop_zero] at hlt ⊢
      have hshort : lineEndLength (first ++ second) < first.length := by omega
      rw [lineEndLength_backslash hshort]
    · next hc =>
      rw [if_neg hc, Nat.zero_add] at hlt
      simp only [List.drop_zero, ← List.cons_append] at hlt ⊢
      rw [lineEndLength_backslash hlt]

namespace Quotation

variable {q : Quotation} {first second : List Char}

theorem marks_ne_backslash {mark : Char} (isMark : isQuotationMark mark = true) :
    '\\' ∉ [mark, mark] := by
  have hmark : '\\' ≠ mark := ne_of_isQuotationMark isMark rfl
  simp [hmark]

theorem opened_backslash {letters : List Char} {mark : Char} (isMark : isQuotationMark mark = true)
    (h : letters.length + (opened letters mark isMark (first ++ second)).width ≤
      letters.length + 1 + first.length) (rest : List Char) :
    opened letters mark isMark (first ++ '\\' :: rest) =
      opened letters mark isMark (first ++ second) := by
  have hprefix : (mark != '`' && [mark, mark].isPrefixOf (first ++ '\\' :: rest)) =
      (mark != '`' && [mark, mark].isPrefixOf (first ++ second)) := by
    cases hbackquote : mark != '`' with
    | false => rfl
    | true =>
      refine isPrefixOf_backslash (marks_ne_backslash isMark) (fun hmarks => ?_) rest
      have htriple : (opened letters mark isMark (first ++ second)).triple = true := by
        rw [opened, hbackquote, Bool.true_and]
        exact List.isPrefixOf_iff_prefix.mpr hmarks
      rw [width, if_pos htriple] at h
      simp only [List.length_cons, List.length_nil]
      omega
  simp only [opened, hprefix]

/-- A literal opens in the same way before a backslash, unless its opening reaches over that. -/
theorem ofText?_backslash
    (h : ∀ q opening, ofText? (first ++ second) = some (q, opening) → opening ≤ first.length)
    (rest : List Char) : ofText? (first ++ '\\' :: rest) = ofText? (first ++ second) := by
  have hopens : ∀ {letters mark more}, (∀ c ∈ letters, isLiteralLetter c = true) →
      ∀ isMark : isQuotationMark mark = true, first = letters ++ mark :: more →
        ofText? (first ++ '\\' :: rest) = ofText? (first ++ second) := by
    rintro letters mark more hletters isMark rfl
    have hsecond := ofText?_append hletters isMark (more ++ second)
    simp only [List.append_assoc, List.cons_append] at h ⊢
    have hlength := h _ _ hsecond
    rw [List.length_append, List.length_cons, ← Nat.add_assoc, Nat.add_right_comm] at hlength
    rw [hsecond, ofText?_append hletters isMark, opened_backslash isMark hlength]
  cases hcut : ofText? (first ++ '\\' :: rest) with
  | some found =>
    obtain ⟨letters, mark, isMark, more, htext, hletters, -, -⟩ := exists_of_ofText? hcut
    have hwithin : letters ++ [mark] <+: first ++ '\\' :: rest := ⟨more, by simp [htext]⟩
    have hletter : '\\' ∉ letters ++ [mark] := by
      rw [List.mem_append, List.mem_singleton, not_or]
      refine ⟨fun hmem => ?_, ne_of_isQuotationMark isMark rfl⟩
      cases hletters _ hmem
    obtain ⟨tail, htail⟩ := prefix_of_backslash hletter hwithin
    rw [← hcut]
    exact hopens hletters isMark (by rw [← htail, List.append_assoc]; rfl)
  | none =>
    cases hsecond : ofText? (first ++ second) with
    | none => rfl
    | some found =>
      obtain ⟨q, opening⟩ := found
      obtain ⟨letters, mark, isMark, more, htext, hletters, rfl, rfl⟩ := exists_of_ofText? hsecond
      have hlength := h _ _ hsecond
      have hwidth := one_le_width (opened letters mark isMark more)
      have hwithin : letters ++ [mark] <+: first ++ second := ⟨more, by simp [htext]⟩
      have hle : (letters ++ [mark]).length ≤ first.length := by
        rw [List.length_append, List.length_singleton]
        omega
      obtain ⟨tail, htail⟩ :=
        List.prefix_of_prefix_length_le hwithin (List.prefix_append first second) hle
      rw [← hcut, ← hsecond]
      exact hopens hletters isMark (by rw [← htail, List.append_assoc]; rfl)

theorem move_escape (q : Quotation) (begun : Bool) (rest : List Char) : q.move begun '\\' rest =
    if q.raw then .text begun (shieldLength q.mark rest)
    else if q.bytes && isTextEscape (rest.headD ' ') then .text true (rest.take 2).length
    else .text false (escapeLength rest) := by
  simp [move]

/-- What a backslash takes with it is the same before a joined line. -/
theorem move_escape_backslash {begun : Bool} (hlast : first.getLast? ≠ some '\x7b')
    (htext : ∀ begun' more, q.move begun '\\' (first ++ second) = .text begun' more →
      more < first.length) :
    q.move begun '\\' (first ++ '\\' :: '\n' :: second) =
      q.move begun '\\' (first ++ second) := by
  simp only [move_escape] at htext ⊢
  by_cases hraw : q.raw = true
  · rw [if_pos hraw] at htext ⊢
    rw [if_pos hraw, shieldLength_backslash (htext _ _ rfl)]
  rw [if_neg hraw] at htext ⊢
  rw [if_neg hraw]
  by_cases hbytes : (q.bytes && isTextEscape ((first ++ second).headD ' ')) = true
  · rw [if_pos hbytes] at htext ⊢
    have hlt := htext _ _ rfl
    match first with
    | [] => cases hlt
    | [d] =>
      rw [List.cons_append, List.take_succ_cons, List.length_cons, List.length_singleton] at hlt
      omega
    | d :: e :: first => exact if_pos hbytes
  · rw [if_neg hbytes] at htext ⊢
    have hlt := htext _ _ rfl
    cases first with
    | nil => cases hlt
    | cons d first =>
      have hsame := escapeLength_backslash hlast hlt
      rw [List.cons_append] at hsame
      exact (if_neg hbytes).trans (congrArg (Move.text false) hsame)

/-- A character of a literal is read in the same way before a joined line, unless it takes characters
    from behind that. -/
theorem move_backslash {begun : Bool} {c : Char} (hlast : first.getLast? ≠ some '\x7b')
    (hstop : ∀ s n, q.move begun c (first ++ second) = .stop s n → n ≤ first.length + 1)
    (htext : ∀ begun' more, q.move begun c (first ++ second) = .text begun' more →
      more < first.length) :
    q.move begun c (first ++ '\\' :: '\n' :: second) = q.move begun c (first ++ second) := by
  by_cases hbackslash : c = '\\'
  · subst hbackslash
    exact move_escape_backslash hlast htext
  unfold move at hstop htext ⊢
  by_cases hzero : c = '\x00'
  · rw [if_pos hzero, if_pos hzero]
  rw [if_neg hzero] at hstop htext ⊢
  rw [if_neg hzero]
  by_cases hbrace : (q.format && (c = '\x7b' || c = '\x7d')) = true
  · rw [if_pos hbrace] at htext ⊢
    rw [if_pos hbrace]
    by_cases hdouble : (first ++ second).head? = some c
    · rw [if_pos hdouble] at htext ⊢
      cases first with
      | nil => cases htext _ _ rfl
      | cons d first => rw [if_pos (by exact hdouble)]
    · rw [if_neg hdouble, if_neg (head_ne_of_backslash hbackslash hdouble _)]
  rw [if_neg hbrace, if_neg hbackslash] at hstop ⊢
  rw [if_neg hbrace, if_neg hbackslash]
  by_cases hmark : c = q.mark
  · rw [if_pos hmark] at hstop ⊢
    rw [if_pos hmark]
    by_cases htriple : (!q.triple) = true
    · rw [if_pos htriple, if_pos htriple]
    rw [if_neg htriple] at hstop ⊢
    rw [if_neg htriple, isPrefixOf_backslash (marks_ne_backslash q.isMark)]
    intro hmarks
    rw [if_pos (List.isPrefixOf_iff_prefix.mpr hmarks)] at hstop
    have hthree := hstop _ _ rfl
    simp only [List.length_cons, List.length_nil]
    omega
  rw [if_neg hmark, if_neg hmark]

theorem getLast?_ne_of_cons {c d : Char} {text : List Char}
    (h : (c :: text).getLast? ≠ some d) : text.getLast? ≠ some d := by
  cases text with
  | nil => exact nofun
  | cons e text => exact h

theorem getLast?_ne_of_drop {d : Char} {text : List Char} (h : text.getLast? ≠ some d) (n : Nat) :
    (text.drop n).getLast? ≠ some d := by
  rw [List.getLast?_drop]
  split
  · exact nofun
  · exact h

/-- The end of a stretch is found in the same way before a joined line, unless that stands directly
    behind an opening brace. -/
theorem stretch_backslash {begun : Bool} {s : Stretch} {n : Nat}
    (hlast : first.getLast? ≠ some '\x7b')
    (hstretch : q.stretch begun (first ++ second) = some (s, n)) (hn : n ≤ first.length) :
    q.stretch begun (first ++ '\\' :: '\n' :: second) = some (s, n) := by
  have hone := one_le_of_stretch hstretch
  generalize htext : first ++ second = text at hstretch
  fun_induction q.stretch begun text generalizing first n with
  | case1 => cases hstretch
  | case2 => cases hstretch
  | case3 begun c rest s' m hmove =>
    cases hstretch
    cases first with
    | nil => exact absurd (Nat.le_trans hone hn) (by decide)
    | cons c' first =>
      obtain ⟨rfl, rfl⟩ := List.cons.inj htext
      have hsame : q.move begun c' (first ++ '\\' :: '\n' :: second) = .stop s m := by
        rw [← hmove]
        refine move_backslash (getLast?_ne_of_cons hlast) ?_ ?_
        · intro s' n hstop
          have hboth : Move.stop s m = .stop s' n := hmove.symm.trans hstop
          cases hboth
          exact hn
        · intro begun' more htext
          cases hmove.symm.trans htext
      rw [List.cons_append, stretch, hsame]
  | case4 begun c rest begun' more hmove ih =>
    obtain ⟨⟨s', m⟩, hrest, heq⟩ := Option.map_eq_some_iff.mp hstretch
    cases heq
    cases first with
    | nil => exact absurd (Nat.le_trans hone hn) (by decide)
    | cons c' first =>
      obtain ⟨rfl, rfl⟩ := List.cons.inj htext
      have hm := one_le_of_stretch hrest
      rw [List.length_cons] at hn
      have hmore : more < first.length := by omega
      have hlast := getLast?_ne_of_cons hlast
      have hsame : q.move begun c' (first ++ '\\' :: '\n' :: second) = .text begun' more := by
        rw [← hmove]
        refine move_backslash hlast ?_ ?_
        · intro s n hstop
          cases hmove.symm.trans hstop
        · intro begun'' more' htext
          have hboth : Move.text begun' more = .text begun'' more' := hmove.symm.trans htext
          cases hboth
          exact hmore
      have hdrop : ∀ text, (first ++ text).drop more = first.drop more ++ text :=
        fun _ => List.drop_append_of_le_length (Nat.le_of_lt hmore)
      have hm' : m ≤ (first.drop more).length := by
        rw [List.length_drop]
        omega
      have hbehind := ih (getLast?_ne_of_drop hlast more) hm' hm (hdrop second).symm hrest
      rw [List.cons_append, stretch, hsame]
      simp only [hdrop, hbehind, Option.map_some]

end Quotation

end SourceSurvey.Syntax
