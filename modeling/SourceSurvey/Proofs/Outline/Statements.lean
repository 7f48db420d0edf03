import SourceSurvey.Proofs.Outline.Headings
import SourceSurvey.Proofs.Syntax.Block

/-!
Reading a whole outline: the grammar accepts its pieces, and the statements it makes of them are the
definitions of the outline, each with its place among the tokens.
-/

namespace SourceSurvey.Syntax

/-- The number of lexemes of a documentation. -/
def docSize : Option (List Char) → Nat
  | none => 0
  | some _ => 1

/-- The statement of a documentation that stands at some token. -/
def docStatements (index : Nat) : Option (List Char) → List Statement
  | none => []
  | some _ => [.expression index (.literal [.plain index])]

namespace Outline

/-- The number of lexemes of an outline. -/
def size : Outline → Nat
  | done => 0
  | definition heading doc inside rest =>
    heading.size + (docSize doc + inside.size + 2) + rest.size

/-- The statements of an outline that begins at some token. -/
def statements (index : Nat) : Outline → List Statement
  | done => []
  | definition heading doc inside rest =>
    let body := index + heading.size + 1
    let pass := body + docSize doc + inside.size
    .definition [] index (pass + 1) heading.kind heading.name
        (docStatements body doc ++ (inside.statements (body + docSize doc) ++ [.plain pass])) ::
      rest.statements (pass + 1)

theorem length_lexemes (o : Outline) (gap : List Char) (level : Nat) :
    (o.lexemes gap level).length = o.size := by
  induction o generalizing gap level with
  | done => rfl
  | definition heading doc inside rest ihinside ihrest =>
    have hdoc : (docLexemes (level + 1) doc).length = docSize doc := by cases doc <;> rfl
    rw [lexemes, List.length_append, List.length_append, bodyLexemes, List.length_cons,
      List.length_append, List.length_append, heading.length_lexemes, hdoc, ihinside, ihrest, size,
      List.length_singleton]
    omega

theorem length_statements_le (o : Outline) (index : Nat) : (o.statements index).length ≤ o.size := by
  induction o generalizing index with
  | done => exact Nat.le_refl 0
  | definition heading doc inside rest _ ihrest =>
    have hrest := ihrest (index + heading.size + 1 + docSize doc + inside.size + 1)
    rw [statements, List.length_cons, size]
    omega

end Outline

/-- The layout at the start of a line of some level. -/
def lineLayout (level : Nat) : Layout := { breaks := true, column := 4 * level }

theorem over_margin (layout : Layout) (n : Nat) :
    layout.over (List.replicate n ' ') = { layout with column := layout.column + n } := by
  induction n generalizing layout with
  | zero => rfl
  | succ n ih =>
    rw [List.replicate_succ, Layout.over, ih]
    simp only [Nat.add_assoc, Nat.add_comm 1 n]

theorem ofGap_lead (level : Nat) : Layout.ofGap (lead level) = lineLayout level := by
  have hstart : ({ tight := (lead level).isEmpty } : Layout).over (lead level) =
      Layout.over { breaks := true } (margin level) := rfl
  rw [Layout.ofGap, hstart, margin, over_margin]
  simp [lineLayout]

theorem startsLine_word (level : Nat) (w : Word) :
    Piece.StartsLine (4 * level) ⟨lineLayout level, .word w⟩ :=
  ⟨⟨rfl, nofun, rfl⟩, rfl, rfl⟩

theorem startsLine_literal (level : Nat) :
    Piece.StartsLine (4 * level) ⟨lineLayout level, .string true⟩ :=
  ⟨⟨rfl, nofun, rfl⟩, rfl, rfl⟩

theorem ofLexeme_lead_word (level : Nat) (text : List Char) (w : Word) :
    Piece.ofLexeme ⟨lead level, text, .word w⟩ = ⟨lineLayout level, .word w⟩ := by
  rw [ofLexeme_word_gap, ofGap_lead]

theorem ofLexeme_lead_string (level : Nat) (text : List Char) :
    Piece.ofLexeme ⟨lead level, text, .string true⟩ = ⟨lineLayout level, .string true⟩ := by
  have hpiece : Piece.ofLexeme ⟨lead level, text, .string true⟩ =
      ⟨Layout.ofGap (lead level),
        if (Layout.ofGap (lead level)).masked && (Token.string true).startsLiteral then .invalid
        else .string true⟩ := rfl
  rw [hpiece, ofGap_lead]
  rfl

theorem Outline.aligned_lexemes (o : Outline) (level : Nat) :
    Aligned (4 * level) (piecesOf (o.lexemes (lead level) level)) := by
  cases o with
  | done => exact aligned_nil _
  | definition heading doc inside rest =>
    rw [lexemes, Heading.lexemes, List.cons_append, List.cons_append, piecesOf_cons,
      ofLexeme_lead_word]
    exact aligned_cons (startsLine_word level heading.keyword) _

theorem aligned_docLexemes (level : Nat) (doc : Option (List Char)) :
    Aligned (4 * level) (piecesOf (docLexemes level doc)) := by
  cases doc with
  | none => exact aligned_nil _
  | some doc =>
    rw [docLexemes, piecesOf_cons, ofLexeme_lead_string]
    exact aligned_cons (startsLine_literal level) _

theorem length_docLexemes (level : Nat) (doc : Option (List Char)) :
    (docLexemes level doc).length = docSize doc := by
  cases doc <;> rfl

theorem length_docStatements (index : Nat) (doc : Option (List Char)) :
    (docStatements index doc).length = docSize doc := by
  cases doc <;> rfl

theorem length_bodyLexemes (level : Nat) (doc : Option (List Char)) (inside : List Lexeme) :
    (bodyLexemes level doc inside).length = docSize doc + inside.length + 2 := by
  simp only [bodyLexemes, List.length_cons, List.length_append, length_docLexemes, List.length_nil]
  omega

namespace Parser

variable {level index budget n m : Nat} {indents : List Nat} {more : List Piece}

theorem rounds_docLexemes (hindents : indents.headD 0 = 4 * level) (hbudget : budget ≠ 0)
    (doc : Option (List Char)) :
    Rounds (statementUpTo (Rules.upTo (n + 1)) (m + 1)) (4 * level) index indents budget
      (piecesOf (docLexemes level doc)) (docStatements index doc) := by
  cases doc with
  | none => exact rounds_nil
  | some doc =>
    rw [docLexemes, piecesOf_cons, ofLexeme_lead_string]
    have haligned := aligned_cons (startsLine_literal level) []
    refine rounds_single hindents haligned (List.cons_ne_nil _ _) fun more hmore => ?_
    obtain ⟨q, rest, actual, rfl, -, hq⟩ := hmore
    exact gives_statement_literal n m (startsLine_literal level).toPlain hq hbudget

theorem rounds_pass (rules : Rules) (hindents : indents.headD 0 = 4 * level)
    (hbudget : budget ≠ 0) :
    Rounds (statementUpTo rules (m + 1)) (4 * level) index indents budget
      [⟨lineLayout level, .word Keyword.pass_⟩] [.plain index] := by
  have hpass := startsLine_word level Keyword.pass_
  refine rounds_single hindents (aligned_cons hpass []) (List.cons_ne_nil _ _) fun more hmore => ?_
  obtain ⟨q, rest, actual, rfl, -, hq⟩ := hmore
  exact gives_statement_pass rules m hpass.toPlain hq hbudget

/-- A block is read in rounds: one for its documentation, those for the definitions inside, and one
    for the final `pass`. -/
theorem rounds_block {doc : Option (List Char)} {inside : List Lexeme}
    {statements : List Statement} (hindents : indents.headD 0 = 4 * level) (hbudget : budget ≠ 0)
    (hinside : Rounds (statementUpTo (Rules.upTo (n + 1)) (m + 1)) (4 * level)
      (index + docSize doc) indents budget (piecesOf inside) statements)
    (haligned : Aligned (4 * level) (piecesOf inside)) :
    Rounds (statementUpTo (Rules.upTo (n + 1)) (m + 1)) (4 * level) index indents budget
      (piecesOf (docLexemes level doc) ++
        (piecesOf inside ++ [⟨lineLayout level, .word Keyword.pass_⟩]))
      (docStatements index doc ++
        (statements ++ [.plain (index + docSize doc + inside.length)])) := by
  have hpass : Aligned (4 * level) [⟨lineLayout level, .word Keyword.pass_⟩] :=
    aligned_cons (startsLine_word level _) []
  refine (rounds_docLexemes hindents hbudget doc).append ?_ (haligned.append hpass)
  rw [length_piecesOf, length_docLexemes]
  refine hinside.append ?_ hpass
  rw [length_piecesOf]
  exact rounds_pass _ hindents hbudget

/-- A body is read from its colon to its final `pass`. -/
theorem gives_colonSuite_body {doc : Option (List Char)} {inside : List Lexeme}
    {statements : List Statement} (hindents : indents.headD 0 = 4 * level)
    (hinside : Rounds (statementUpTo (Rules.upTo (n + 1)) (m + 1)) (4 * (level + 1))
      (index + 1 + docSize doc) (4 * (level + 1) :: indents) budget (piecesOf inside) statements)
    (haligned : Aligned (4 * (level + 1)) (piecesOf inside))
    (hbudget : docSize doc + statements.length + 1 < budget) (hmore : Resumes (4 * level) more) :
    Gives (colonSuite (Rules.upTo (n + 1)) (statementUpTo (Rules.upTo (n + 1)) (m + 1)))
      (.before (piecesOf (bodyLexemes level doc inside) ++ more) index indents budget)
      (docStatements (index + 1) doc ++
        (statements ++ [.plain (index + 1 + docSize doc + inside.length)]))
      (.before more (index + (bodyLexemes level doc inside).length) indents budget) := by
  let block := piecesOf (docLexemes (level + 1) doc) ++
    (piecesOf inside ++ [⟨lineLayout (level + 1), .word Keyword.pass_⟩])
  have hpieces : piecesOf (bodyLexemes level doc inside) =
      ⟨spaced false, .symbol .colon⟩ :: block := by
    rw [bodyLexemes, piecesOf_cons, ofLexeme_symbol, piecesOf_append, piecesOf_append,
      piecesOf_cons, ofLexeme_lead_word, piecesOf_nil]
  have hrounds := rounds_block rfl (Nat.ne_zero_of_lt hbudget) hinside haligned
  have hblock : Aligned (4 * (level + 1)) block :=
    (aligned_docLexemes (level + 1) doc).append
      (haligned.append (aligned_cons (startsLine_word _ _) []))
  have hcount : (docStatements (index + 1) doc ++ (statements ++
      [Statement.plain (index + 1 + docSize doc + inside.length)])).length < budget := by
    rw [List.length_append, List.length_append, length_docStatements, ← Nat.add_assoc]
    exact hbudget
  have hindex : index + (bodyLexemes level doc inside).length = index + 1 + block.length := by
    rw [← length_piecesOf, hpieces, List.length_cons]
    omega
  rw [hpieces, hindex]
  refine gives_colonSuite (inLine_symbol .colon) ?_
  exact gives_suite (by omega) hrounds hblock (by simp [block]) hcount (hindents ▸ hmore)

/-- A definition is read as one statement, up to the line behind its final `pass`. -/
theorem gives_statement_definition {gap : List Char} {heading : Heading}
    {doc : Option (List Char)} {inside : List Lexeme} {statements : List Statement}
    (hgap : (Layout.ofGap gap).blocked = false) (hindents : indents.headD 0 = 4 * level)
    (hinside : Rounds (statementUpTo (Rules.upTo (n + 1)) (m + 1)) (4 * (level + 1))
      (index + heading.size + 1 + docSize doc) (4 * (level + 1) :: indents) budget
      (piecesOf inside) statements)
    (haligned : Aligned (4 * (level + 1)) (piecesOf inside))
    (hbudget : heading.size + docSize doc + statements.length + 1 < budget)
    (hmore : Resumes (4 * level) more) :
    Gives (statementUpTo (Rules.upTo (n + 1)) (m + 2))
      (.before (piecesOf (heading.lexemes gap ++ bodyLexemes level doc inside) ++ more) index
        indents budget)
      [.definition [] index (index + heading.size + 1 + docSize doc + inside.length + 1)
        heading.kind heading.name
        (docStatements (index + heading.size + 1) doc ++
          (statements ++ [.plain (index + heading.size + 1 + docSize doc + inside.length)]))]
      (.before more (index + heading.size + 1 + docSize doc + inside.length + 1) indents
        budget) := by
  have hbody := gives_colonSuite_body hindents hinside haligned (by omega) hmore
  have hstop : index + heading.size + (bodyLexemes level doc inside).length =
      index + heading.size + 1 + docSize doc + inside.length + 1 := by
    rw [length_bodyLexemes]
    omega
  have hpieces : piecesOf (heading.lexemes gap ++ bodyLexemes level doc inside) ++ more =
      piecesOf (heading.lexemes gap) ++ (piecesOf (bodyLexemes level doc inside) ++ more) := by
    rw [piecesOf_append, List.append_assoc]
  rw [hstop] at hbody
  rw [hpieces]
  exact gives_statementRule_heading hgap (by omega) hbody

end Parser

namespace Outline

variable {n m level index budget : Nat} {indents : List Nat}

/-- A definition of an outline is read as one statement, given that what is inside it is read. -/
theorem gives_definition {gap : List Char} {heading : Heading} {doc : Option (List Char)}
    {inside : Outline} {more : List Piece} (hgap : (Layout.ofGap gap).blocked = false)
    (hindents : indents.headD 0 = 4 * level)
    (hinside : ∀ index, Parser.Rounds (statementUpTo (Rules.upTo (n + 1)) (m + 1))
      (4 * (level + 1)) index (4 * (level + 1) :: indents) budget
      (piecesOf (inside.lexemes (lead (level + 1)) (level + 1))) (inside.statements index))
    (hbudget : heading.size + (docSize doc + inside.size + 2) ≤ budget)
    (hmore : Resumes (4 * level) more) :
    Parser.Gives (statementUpTo (Rules.upTo (n + 1)) (m + 2))
      (.before (piecesOf (heading.lexemes gap ++
          bodyLexemes level doc (inside.lexemes (lead (level + 1)) (level + 1))) ++ more)
        index indents budget)
      ((definition heading doc inside done).statements index)
      (.before more (index + heading.size + 1 + docSize doc + inside.size + 1) indents budget) := by
  have hcount := inside.length_statements_le (index + heading.size + 1 + docSize doc)
  rw [statements, statements, ← inside.length_lexemes (lead (level + 1)) (level + 1)]
  exact Parser.gives_statement_definition hgap hindents (hinside _)
    (inside.aligned_lexemes (level + 1)) (by omega) hmore

theorem length_definition (gap : List Char) (level : Nat) (heading : Heading)
    (doc : Option (List Char)) (inside : Outline) :
    (heading.lexemes gap ++
      bodyLexemes level doc (inside.lexemes (lead (level + 1)) (level + 1))).length =
      heading.size + (docSize doc + inside.size + 2) := by
  rw [List.length_append, heading.length_lexemes, length_bodyLexemes, inside.length_lexemes]

/-- A block reads an outline in rounds, one for each of its outermost definitions. -/
theorem rounds (o : Outline) (hindents : indents.headD 0 = 4 * level) (hm : o.size ≤ m)
    (hbudget : o.size ≤ budget) :
    Parser.Rounds (statementUpTo (Rules.upTo (n + 1)) m) (4 * level) index indents budget
      (piecesOf (o.lexemes (lead level) level)) (o.statements index) := by
  induction o generalizing m level index indents with
  | done => exact Parser.rounds_nil
  | definition heading doc inside rest ihinside ihrest =>
    rw [size] at hm hbudget
    obtain ⟨m, rfl⟩ := Nat.exists_eq_add_of_le' (show 2 ≤ m by omega)
    let stop := index + heading.size + 1 + docSize doc + inside.size + 1
    let first := heading.lexemes (lead level) ++
      bodyLexemes level doc (inside.lexemes (lead (level + 1)) (level + 1))
    have hstop : index + (piecesOf first).length = stop := by
      rw [length_piecesOf, length_definition]
      omega
    have haligned : Aligned (4 * level) (piecesOf first) := by
      have hall := (definition heading doc inside done).aligned_lexemes level
      rwa [lexemes, lexemes, List.append_nil] at hall
    have hne : piecesOf first ≠ [] := by
      refine List.ne_nil_of_length_pos ?_
      rw [length_piecesOf, length_definition]
      omega
    have hfirst : Parser.Rounds (statementUpTo (Rules.upTo (n + 1)) (m + 2)) (4 * level) index
        indents budget (piecesOf first) ((definition heading doc inside done).statements index) := by
      refine Parser.rounds_single hindents haligned hne fun more hmore => ?_
      rw [hstop]
      exact gives_definition (by rw [ofGap_lead]; rfl) hindents
        (fun index => ihinside rfl (by omega) (by omega)) (by omega) hmore
    rw [lexemes, piecesOf_append, statements, ← List.singleton_append]
    refine hfirst.append ?_ (rest.aligned_lexemes level)
    rw [hstop]
    exact ihrest hindents (by omega) (by omega)

/-- The first line of a source may begin at its very start. -/
theorem gives_look_word {gap text : List Char} (hgap : gap = [] ∨ gap = lead 0) (w : Word)
    (rest : List Piece) :
    Parser.Gives (Parser.look .operand)
      (.before (Piece.ofLexeme ⟨gap, text, .word w⟩ :: rest) index [] budget) (.token (.word w))
      (.before (Piece.ofLexeme ⟨gap, text, .word w⟩ :: rest) index [] budget) := by
  obtain rfl | rfl := hgap
  · exact Parser.gives_look_inLine (ofLexeme_word false text w ▸ inLine_word false w) _
  · rw [ofLexeme_lead_word]
    exact Parser.gives_look_startsLine (startsLine_word 0 w) rfl rfl rfl

/-- A source with the text of an outline is read to its end. -/
theorem readAll_eq (o : Outline) {gap : List Char} {layout : Layout} {rounds : Nat}
    (hgap : gap = [] ∨ gap = lead 0) (hfinish : Piece.StartsLine 0 ⟨layout, .finish⟩)
    (hm : o.size ≤ m) (hbudget : o.size ≤ budget) (hrounds : o.size < rounds) :
    Module.readAll (statementUpTo (Rules.upTo (n + 1)) m) rounds
        (.before (piecesOf (o.lexemes gap 0) ++ [⟨layout, .finish⟩]) index [] budget) =
      .ok ((o.statements index).map ([·])) := by
  induction o generalizing gap m rounds index with
  | done =>
    obtain ⟨rounds, rfl⟩ := Nat.exists_eq_succ_of_ne_zero (Nat.ne_zero_of_lt hrounds)
    exact Parser.readAll_of_gives_finish (Parser.gives_look_startsLine hfinish rfl rfl rfl) rounds
  | definition heading doc inside rest _ ihrest =>
    rw [size] at hm hbudget hrounds
    obtain ⟨m, rfl⟩ := Nat.exists_eq_add_of_le' (show 2 ≤ m by omega)
    obtain ⟨rounds, rfl⟩ := Nat.exists_eq_succ_of_ne_zero (Nat.ne_zero_of_lt hrounds)
    let stop := index + heading.size + 1 + docSize doc + inside.size + 1
    let more := piecesOf (rest.lexemes (lead 0) 0) ++ [⟨layout, .finish⟩]
    let c := Cursor.before (piecesOf (heading.lexemes gap ++
      bodyLexemes 0 doc (inside.lexemes (lead 1) 1)) ++ more) index [] budget
    have hlook : Parser.Gives (Parser.look .operand) c (.token (.word heading.keyword)) c :=
      gives_look_word hgap heading.keyword _
    have hvisible : (Layout.ofGap gap).blocked = false := by
      obtain rfl | rfl := hgap <;> rfl
    have hstatement : Parser.Gives (statementUpTo (Rules.upTo (n + 1)) (m + 2)) c
        ((definition heading doc inside done).statements index) (.before more stop [] budget) :=
      gives_definition hvisible rfl (fun index => inside.rounds rfl (by omega) (by omega)) (by omega)
        ((rest.aligned_lexemes 0).resumes (hfinish.resumes []))
    have hrest : Module.readAll (statementUpTo (Rules.upTo (n + 1)) (m + 2)) rounds
        (.before more stop [] budget) = .ok ((rest.statements stop).map ([·])) :=
      ihrest (.inr rfl) (by omega) (by omega) (by omega)
    have hword : Token.word heading.keyword ≠ .finish := nofun
    have hall := Parser.readAll_of_gives hword hlook hstatement rounds
    rw [hrest] at hall
    rw [lexemes, piecesOf_append, List.append_assoc]
    exact hall

/-- The grammar accepts the text of an outline, and finds the definitions of the outline in it. -/
theorem exists_ofPieces_text (o : Outline) :
    ∃ spliced, Module.ofPieces (Piece.ofLexemes (Syntax.lexemes (o.text 0))) =
      .ok ⟨spliced, o.statements 0⟩ := by
  obtain ⟨gap, hgap, hlexemes⟩ := o.lexemes_text
  have hfinish : Piece.StartsLine 0 ⟨Layout.atEnd gap, .finish⟩ := by
    obtain rfl | rfl := hgap <;> exact ⟨⟨rfl, nofun, rfl⟩, rfl, rfl⟩
  let pieces := piecesOf (o.lexemes [] 0) ++ [⟨Layout.atEnd gap, .finish⟩]
  have hpieces : Piece.ofLexemes (Syntax.lexemes (o.text 0)) = pieces := by
    have hlast : pieces = piecesOf (o.lexemes [] 0 ++ [⟨gap, [], .finish⟩]) := by
      rw [piecesOf_append]
      rfl
    rw [hlexemes, hlast]
    cases o with
    | done =>
      refine ofLexemes_cons ?_ _
      obtain rfl | rfl := hgap <;> simp
    | definition heading doc inside rest =>
      have hmark : ([] : List Char).head? ≠ some '\ufeff' := nofun
      exact ofLexemes_cons hmark _
  have hlength : pieces.length = o.size + 1 := by
    rw [List.length_append, length_piecesOf, length_lexemes]
    rfl
  have hread : Module.readAll
      (statementUpTo (Rules.upTo (pieces.length + 1)) (pieces.length + 1)) (pieces.length + 1)
      (.before pieces 0 [] (pieces.length + 1)) = .ok ((o.statements 0).map ([·])) :=
    o.readAll_eq (.inl rfl) hfinish (by omega) (by omega) (by omega)
  obtain ⟨spliced, heq⟩ := exists_ofPieces_eq pieces
  refine ⟨spliced, ?_⟩
  rw [hpieces, heq, hread, Except.map, ← List.flatMap_def, List.flatMap_singleton']

end Outline
end SourceSurvey.Syntax
