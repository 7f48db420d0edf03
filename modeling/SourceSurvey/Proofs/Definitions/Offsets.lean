import Mathlib.Data.List.Pairwise
import SourceSurvey.Proofs.Blocks.Violations
import SourceSurvey.Proofs.Definitions.Records
import SourceSurvey.Proofs.Definitions.Tokens
import SourceSurvey.Proofs.Text.Utf8

/-!
Where in the bytes of a source the snippets of its definitions are. Definitions begin one behind the
other, and two of them lie apart or one inside the other; so do their snippets.
-/

namespace SourceSurvey.Syntax

open Text.Utf8
open SourceSurvey.Syntax.Parser

/-! ### Extents -/

/-- Definitions between two tokens, in the order in which they begin. One that begins behind another
    also begins behind its end, or ends within it. -/
structure Nested (lo : Nat) (extents : List Extent) (hi : Nat) : Prop where
  le : lo ≤ hi
  bounds : ∀ e ∈ extents, lo ≤ e.start ∧ e.start < e.stop ∧ e.stop ≤ hi
  ordered : extents.Pairwise fun e f => e.start < f.start ∧ (e.stop ≤ f.start ∨ f.stop ≤ e.stop)

namespace Nested

variable {lo lo' middle hi : Nat} {first second : List Extent}

theorem nil (hle : lo ≤ hi) : Nested lo [] hi := ⟨hle, nofun, .nil⟩

theorem mono (h : Nested lo first hi) (hlo : lo' ≤ lo) : Nested lo' first hi where
  le := Nat.le_trans hlo h.le
  bounds e he := ⟨Nat.le_trans hlo (h.bounds e he).1, (h.bounds e he).2⟩
  ordered := h.ordered

theorem append (h : Nested lo first middle) (h' : Nested middle second hi) :
    Nested lo (first ++ second) hi := by
  refine ⟨Nat.le_trans h.le h'.le, List.forall_mem_append.mpr ⟨fun e he => ?_, fun e he => ?_⟩,
    List.pairwise_append.mpr ⟨h.ordered, h'.ordered, fun e he f hf => ?_⟩⟩
  · obtain ⟨hlo, hlt, hhi⟩ := h.bounds e he
    exact ⟨hlo, hlt, Nat.le_trans hhi h'.le⟩
  · obtain ⟨hlo, hlt, hhi⟩ := h'.bounds e he
    exact ⟨Nat.le_trans h.le hlo, hlt, hhi⟩
  · have hfirst := h.bounds e he
    have hsecond := h'.bounds f hf
    omega

/-- A definition comes before those in its body, and around them. -/
theorem cons {e : Extent} (hlo : lo ≤ e.start) (h : Nested (e.start + 1) first e.stop) :
    Nested lo (e :: first) e.stop := by
  have hlt : e.start < e.stop := h.le
  refine ⟨by omega, List.forall_mem_cons.mpr ⟨⟨hlo, hlt, Nat.le_refl _⟩, fun f hf => ?_⟩,
    List.pairwise_cons.mpr ⟨fun f hf => ?_, h.ordered⟩⟩
  · have hbounds := h.bounds f hf
    omega
  · have hbounds := h.bounds f hf
    omega

end Nested

theorem Spans.nested {lexemes : List Lexeme} {lo hi : Nat} {body : List Statement}
    (h : Spans lexemes lo body hi) : Nested lo (Statement.extentsOf body) hi := by
  induction h with
  | nil hle => exact .nil hle
  | expression hlo _ ih | importing hlo _ ih | plain hlo _ ih | legacy hlo _ _ ih =>
    exact ih.mono (Nat.le_succ_of_le hlo)
  | block hlo _ _ ih ih' => exact (ih.mono (Nat.le_succ_of_le hlo)).append ih'
  | @definition lo start stop hi decorators kind name body rest hlo _ _ _ ih ih' =>
    have hstart := hlo start (List.mem_append_right _ (List.mem_singleton.mpr rfl))
    have hinner : Nested lo (⟨start, stop, kind, body⟩ :: Statement.extentsOf body) stop :=
      Nested.cons hstart ih
    exact hinner.append ih'

/-! ### Text and bytes -/

/-- The text before a token, with the blanks directly before it. -/
def textBefore (lexemes : List Lexeme) (i : Nat) : List Char :=
  Lexeme.joined (lexemes.take i) ++ lexemes[i]?.elim [] Lexeme.gap

/-- The byte offsets of a snippet: where its first token starts, and where its last one ends. -/
def Extent.bytes (lexemes : List Lexeme) (e : Extent) : Nat × Nat :=
  ((encode (textBefore lexemes e.start)).length,
    (encode (Lexeme.joined (lexemes.take e.stop))).length)

theorem length_encode_le {first second : List Char} (h : first <+: second) :
    (encode first).length ≤ (encode second).length := by
  obtain ⟨rest, rfl⟩ := h
  rw [encode_append, List.length_append]
  exact Nat.le_add_right _ _

theorem length_encode_pos {text : List Char} (h : text ≠ []) : 0 < (encode text).length := by
  obtain ⟨c, rest, rfl⟩ := List.exists_cons_of_ne_nil h
  have hchar : 0 < (encodeChar c).length := by
    simp only [encodeChar]
    split_ifs <;> simp
  rw [encode, List.flatMap_cons, List.length_append]
  omega

section Lexemes

variable {lexemes : List Lexeme} {i j : Nat} {l : Lexeme}

theorem joined_take_le (lexemes : List Lexeme) (h : i ≤ j) :
    Lexeme.joined (lexemes.take i) <+: Lexeme.joined (lexemes.take j) := by
  obtain ⟨rest, hrest⟩ := List.take_prefix_take_left (l := lexemes) h
  rw [← hrest, Lexeme.joined_append]
  exact List.prefix_append _ _

theorem joined_take_le_textBefore (lexemes : List Lexeme) (h : i ≤ j) :
    Lexeme.joined (lexemes.take i) <+: textBefore lexemes j :=
  (joined_take_le lexemes h).trans (List.prefix_append _ _)

/-- A token comes behind the text before it. -/
theorem joined_take_succ (hl : lexemes[i]? = some l) :
    Lexeme.joined (lexemes.take (i + 1)) = textBefore lexemes i ++ l.text := by
  rw [List.take_add_one, hl, Lexeme.joined_append, textBefore, hl, List.append_assoc]
  simp [Lexeme.joined]

/-- A snippet comes behind the text before it. -/
theorem textBefore_append_slice (hl : lexemes[i]? = some l) (h : i < j) :
    textBefore lexemes i ++ slice lexemes i j = Lexeme.joined (lexemes.take j) := by
  obtain ⟨hlt, rfl⟩ := List.getElem?_eq_some_iff.mp hl
  have htake : lexemes.take j =
      lexemes.take (i + 1) ++ (lexemes.drop (i + 1)).take (j - (i + 1)) := by
    rw [← List.take_add, Nat.add_sub_cancel' h]
  have hslice : (lexemes.drop i).take (j - i) =
      lexemes[i] :: (lexemes.drop (i + 1)).take (j - (i + 1)) := by
    rw [List.drop_eq_getElem_cons hlt, ← Nat.succ_pred_eq_of_pos (Nat.sub_pos_of_lt h),
      List.take_succ_cons, Nat.pred_eq_sub_one, Nat.sub_sub]
  rw [slice, hslice, htake, Lexeme.joined_append, joined_take_succ hl, List.append_assoc]

end Lexemes


/-! ### Openings -/

/-- The words that a definition can begin with. -/
def DefinitionKind.openings : DefinitionKind → List Word
  | .function _ => [Keyword.def_, Keyword.async_]
  | .classType => [Keyword.class_]

/-- Every definition has a heading where it starts. -/
theorem Built.headed {all : List Piece} {lo hi : Nat} {body : List Statement}
    (h : Built all lo body hi) :
    ∀ e ∈ Statement.extentsOf body, ∃ name, Headed all e.start e.kind name := by
  induction h with
  | nil => exact nofun
  | line _ hc hread =>
    rw [(beginAt_statementLine hc hread).2]
    exact nofun
  | block _ _ _ ih => exact List.forall_mem_append.mpr ⟨ih, nofun⟩
  | definition _ _ _ hheaded _ _ ih =>
    rw [extentsOf_singleton, Statement.extents]
    exact List.forall_mem_cons.mpr ⟨⟨_, hheaded⟩, ih⟩
  | append _ _ ih ih' =>
    rw [extentsOf_append]
    exact List.forall_mem_append.mpr ⟨ih, ih'⟩

theorem openings_ne_nil {kind : DefinitionKind} {w : Word} (h : w ∈ kind.openings) : w ≠ [] := by
  rintro rfl
  cases kind <;> simp [DefinitionKind.openings, Keyword.def_, Keyword.async_, Keyword.class_] at h

theorem word_ne_nil {frames : List Frame} {source : List Char} :
    ∀ l ∈ lexemesFrom frames source, ∀ w, l.token = .word w → w ≠ [] := by
  intro l hl w hword
  obtain ⟨c, hc, -⟩ := exists_mem_text l hl (by rw [hword]; nofun) (by rw [hword]; nofun)
  rw [text_of_word l hl w hword] at hc
  exact List.ne_nil_of_mem hc

section Openings

variable {text : List Char} {start : Nat} {kind : DefinitionKind} {name : Word}

/-- A definition begins with a word of its kind. -/
theorem Headed.opening (hvalid : ∀ p ∈ Piece.ofLexemes (lexemes text), p.token ≠ .invalid)
    (h : Headed (Piece.ofLexemes (lexemes text)) start kind name) :
    ∃ l, (lexemes text)[start]? = some l ∧ l.text ∈ kind.openings := by
  have hshown : ∀ {c : Cursor} {w : Word}, c.On (Piece.ofLexemes (lexemes text)) →
      c.Shows (some (.word w)) → (lexemes text)[c.index]?.map Lexeme.text = some w := by
    intro c w hc hw
    obtain ⟨p, hp, htoken⟩ := Option.map_eq_some_iff.mp (Cursor.shows_some.mp hw)
    obtain ⟨rest, hpieces⟩ := List.head?_eq_some_iff.mp hp
    exact text_of_piece hvalid (hc.getElem? [] hpieces) htoken
  cases h with
  | function hc hword _ =>
    obtain ⟨l, hl, htext⟩ := Option.map_eq_some_iff.mp (hshown hc hword)
    exact ⟨l, hl, htext ▸ List.mem_cons_self⟩
  | asyncFunction hb hasync _ _ =>
    obtain ⟨l, hl, htext⟩ := Option.map_eq_some_iff.mp (hshown hb hasync)
    exact ⟨l, hl, htext ▸ List.mem_cons_of_mem _ List.mem_cons_self⟩
  | classType hc hword _ =>
    obtain ⟨l, hl, htext⟩ := Option.map_eq_some_iff.mp (hshown hc hword)
    exact ⟨l, hl, htext ▸ List.mem_cons_self⟩

/-- The name of a definition is not empty. -/
theorem Headed.name_ne_nil (hsource : Legible (lexemes text))
    (h : Headed (Piece.ofLexemes (lexemes text)) start kind name) : name ≠ [] := by
  have hnamed : ∀ {c c₁ c₂ : Cursor} {w : Word} {u : Unit},
      c.On (Piece.ofLexemes (lexemes text)) → c.Shows (some (.word w)) →
      Gives (discard take) c u c₁ → Gives (expectWord .token) c₁ name c₂ → name ≠ [] := by
    intro c c₁ c₂ w u hc hw hpass hname
    obtain ⟨k, hopened, -⟩ := hsource.runs_of_pass hc hw nofun hpass
    obtain ⟨k, hnamed, hk⟩ := hsource.runs_of_expectWord hopened.on hname
    have hmem : Token.word name ∈ (c₁.bare (lexemes text)).map Lexeme.token := by
      rw [hnamed.bare, ← hk]
      exact List.mem_map_of_mem List.mem_cons_self
    rw [map_token_bare_rest] at hmem
    obtain ⟨l, hl, hword⟩ := mem_of_mem_tokensFrom hmem
    exact word_ne_nil l hl name hword
  cases h with
  | function hc hword hread =>
    obtain ⟨c₁, c₂, _, _, _, _, hpass, hname, -⟩ := of_functionHeading hread
    exact hnamed hc hword hpass hname
  | asyncFunction hb hasync hword hread =>
    obtain ⟨k, hbefore, -⟩ := hsource.runs_of_advance hb hasync nofun hword
    obtain ⟨c₁, c₂, _, _, _, _, hpass, hname, -⟩ := of_functionHeading hread
    exact hnamed hbefore.on (nesting_of_advance hasync hword).2 hpass hname
  | classType hc hword hread =>
    obtain ⟨c₁, c₂, hpass, hname⟩ := of_classHeading hread
    exact hnamed hc hword hpass hname

end Openings

/-! ### Snippets -/

/-- A record's code is a slice of the bytes of a text, begins with one of some words, and has a name. -/
structure SnippetAt (text : List Char) (openings : List Word) (span : Nat × Nat) (name : String)
    (code : Option String) : Prop where
  named : name ≠ ""
  bounds : span.1 < span.2 ∧ span.2 ≤ (encode text).length
  sliced : ∃ snippet, code = some snippet ∧
    encode snippet.toList = ((encode text).take span.2).drop span.1 ∧
    ∃ w ∈ openings, w <+: snippet.toList

/-- Two stretches do not overlap, or one of them is within the other. -/
def Laminar (s t : Nat × Nat) : Prop :=
  s.2 ≤ t.1 ∨ t.2 ≤ s.1 ∨ (s.1 ≤ t.1 ∧ t.2 ≤ s.2) ∨ (t.1 ≤ s.1 ∧ s.2 ≤ t.2)

theorem Laminar.symm {s t : Nat × Nat} (h : Laminar s t) : Laminar t s := by
  simp only [Laminar] at h ⊢
  omega

section Snippets

variable {text : List Char} {e f : Extent} {l : Lexeme}

theorem snippetAt {name : Word} (hname : name ≠ []) (hlt : e.start < e.stop)
    (hl : (lexemes text)[e.start]? = some l) (hopening : l.text ∈ e.kind.openings)
    (hne : l.text ≠ []) :
    SnippetAt text e.kind.openings (e.bytes (lexemes text)) (String.ofList name)
      (e.code (lexemes text)) := by
  have hslice := textBefore_append_slice hl hlt
  have hbegins : l.text <+: slice (lexemes text) e.start e.stop := by
    have hbefore := joined_take_le (lexemes text) (Nat.succ_le_of_lt hlt)
    rw [joined_take_succ hl, ← hslice] at hbefore
    exact (List.prefix_append_right_inj _).mp hbefore
  have hwhole : Lexeme.joined ((lexemes text).take e.stop) <+: text := by
    obtain ⟨rest, hrest⟩ := List.take_prefix e.stop (lexemes text)
    refine ⟨Lexeme.joined rest, ?_⟩
    rw [← Lexeme.joined_append, hrest, lexemes, joined_lexemesFrom]
  have hbytes : (e.bytes (lexemes text)).2 = (e.bytes (lexemes text)).1 +
      (encode (slice (lexemes text) e.start e.stop)).length := by
    rw [Extent.bytes, ← hslice, encode_append, List.length_append]
  refine ⟨fun hempty => hname (by simpa using hempty), ⟨?_, length_encode_le hwhole⟩,
    _, rfl, ?_, l.text, hopening, by simpa using hbegins⟩
  · have hpos := length_encode_pos fun hnil => hne (List.prefix_nil.mp (hnil ▸ hbegins))
    omega
  · obtain ⟨rest, hrest⟩ := hwhole
    have htext : encode text = encode (textBefore (lexemes text) e.start) ++
        (encode (slice (lexemes text) e.start e.stop) ++ encode rest) := by
      rw [← encode_append, ← encode_append, ← List.append_assoc, hslice, hrest]
    rw [String.toList_ofList, List.drop_take, hbytes, Nat.add_sub_cancel_left, htext]
    simp only [Extent.bytes]
    rw [List.drop_left, List.take_left]

/-- What begins later begins at a later byte. -/
theorem bytes_fst_lt (hl : (lexemes text)[e.start]? = some l) (hne : l.text ≠ [])
    (hlt : e.start < f.start) :
    (e.bytes (lexemes text)).1 < (f.bytes (lexemes text)).1 := by
  have hle := length_encode_le
    (joined_take_le_textBefore (lexemes text) (Nat.succ_le_of_lt hlt))
  have hpos := length_encode_pos hne
  rw [joined_take_succ hl, encode_append, List.length_append] at hle
  simp only [Extent.bytes]
  omega

/-- Definitions that lie apart or within each other have snippets that do. -/
theorem laminar_bytes (hlt : (e.bytes (lexemes text)).1 < (f.bytes (lexemes text)).1)
    (hnested : e.stop ≤ f.start ∨ f.stop ≤ e.stop) :
    Laminar (e.bytes (lexemes text)) (f.bytes (lexemes text)) := by
  rcases hnested with hle | hle
  · exact .inl (length_encode_le (joined_take_le_textBefore _ hle))
  · exact .inr (.inr (.inl ⟨Nat.le_of_lt hlt, length_encode_le (joined_take_le _ hle)⟩))

end Snippets

/-- The definitions of an accepted source, at any depth, have one record each. Every record's code is
    a slice of the bytes of the source; functions begin one behind the other and so do classes, and
    the slices of any two records do not overlap unless one is within the other. -/
theorem offsets_of_definitions {text : List Char} {found : Definitions} {m : Module}
    (hfound : definitions text = .ok found)
    (hmodule : Module.ofPieces (Piece.ofLexemes (lexemes text)) = .ok m) :
    List.Forall₂ (fun e f => SnippetAt text [Keyword.def_, Keyword.async_] (e.bytes (lexemes text))
        f.name f.code) (functionsAmong (Statement.extentsOf m.body)) found.functions ∧
      List.Forall₂ (fun e f => SnippetAt text [Keyword.class_] (e.bytes (lexemes text))
        f.name f.code) (classesAmong (Statement.extentsOf m.body)) found.classes ∧
      (functionsAmong (Statement.extentsOf m.body)).Pairwise
        (fun e f => (e.bytes (lexemes text)).1 < (f.bytes (lexemes text)).1) ∧
      (classesAmong (Statement.extentsOf m.body)).Pairwise
        (fun e f => (e.bytes (lexemes text)).1 < (f.bytes (lexemes text)).1) ∧
      (functionsAmong (Statement.extentsOf m.body) ++
        classesAmong (Statement.extentsOf m.body)).Pairwise
          (fun e f => Laminar (e.bytes (lexemes text)) (f.bytes (lexemes text))) := by
  have hvalid := token_ne_invalid_of_mem hmodule
  have hsource := legible_of_ofPieces hmodule
  have hheaded := (built_of_ofPieces hmodule).headed
  have hnested := (spans_of_ofPieces hmodule).nested
  have hstarts : (Statement.extentsOf m.body).Pairwise fun e f =>
      (e.bytes (lexemes text)).1 < (f.bytes (lexemes text)).1 :=
    hnested.ordered.imp_of_mem fun {e f} he _ h => by
      obtain ⟨name, hname⟩ := hheaded e he
      obtain ⟨l, hl, hopening⟩ := hname.opening hvalid
      exact bytes_fst_lt hl (openings_ne_nil hopening) h.1
  have hlaminar : (Statement.extentsOf m.body).Pairwise fun e f =>
      Laminar (e.bytes (lexemes text)) (f.bytes (lexemes text)) :=
    (hstarts.and hnested.ordered).imp fun h => laminar_bytes h.1 h.2.2
  have hsnippet : ∀ (e : Extent) (name : Word), e.start < e.stop →
      Headed (Piece.ofLexemes (lexemes text)) e.start e.kind name →
      SnippetAt text e.kind.openings (e.bytes (lexemes text)) (String.ofList name)
        (e.code (lexemes text)) := by
    intro e name hlt hname
    obtain ⟨l, hl, hopening⟩ := hname.opening hvalid
    exact snippetAt (hname.name_ne_nil hsource) hlt hl hopening (openings_ne_nil hopening)
  obtain ⟨hfunctions, hclasses⟩ := recorded_of_definitions hfound hmodule
  have hlt : ∀ e ∈ Statement.extentsOf m.body, e.start < e.stop := fun e he =>
    (hnested.bounds e he).2.1
  refine ⟨?_, ?_, hstarts.filter _, hstarts.filter _, ?_⟩
  · refine ((List.forall₂_and_left _ _).mpr
      ⟨fun e he => hlt e (List.mem_of_mem_filter he), hfunctions⟩).imp fun e f ⟨hlt, h⟩ => ?_
    obtain ⟨name, parameters, hkind, hname, hnamed, -⟩ := h.heading
    have hsnippet := hsnippet e name hlt hname
    rwa [hkind, ← hnamed, ← h.code] at hsnippet
  · refine ((List.forall₂_and_left _ _).mpr
      ⟨fun e he => hlt e (List.mem_of_mem_filter he), hclasses⟩).imp fun e f ⟨hlt, h⟩ => ?_
    obtain ⟨name, hkind, hname, hnamed⟩ := h.heading
    have hsnippet := hsnippet e name hlt hname
    rwa [hkind, ← hnamed, ← h.code] at hsnippet
  · exact hlaminar.perm (List.filter_append_perm _ _).symm Laminar.symm

/-- A class with two functions in it, one with a function of its own and one decorated. -/
def offsetSample : List Char :=
  "class A:\n  def f():\n    async def g(): pass\n  @d\n  def h(): pass\n".toList

/-- The statements of that source. -/
def offsetBody : List Statement :=
  [.definition [] 0 23 .classType ['A']
    [.definition [] 3 15 (.function []) ['f']
        [.definition [] 8 15 (.function []) ['g'] [.plain 14]],
      .definition [15] 17 23 (.function []) ['h'] [.plain 22]]]

set_option maxRecDepth 8000 in
theorem offsets_of_definitions_sample : ∃ found m, definitions offsetSample = .ok found ∧
    Module.ofPieces (Piece.ofLexemes (lexemes offsetSample)) = .ok m ∧
    found.functions.map (·.name) = ["f", "g", "h"] ∧ found.classes.map (·.name) = ["A"] ∧
    List.Forall₂ (fun e f => SnippetAt offsetSample [Keyword.def_, Keyword.async_]
        (e.bytes (lexemes offsetSample)) f.name f.code)
      (functionsAmong (Statement.extentsOf m.body)) found.functions ∧
    List.Forall₂ (fun e f => SnippetAt offsetSample [Keyword.class_]
        (e.bytes (lexemes offsetSample)) f.name f.code)
      (classesAmong (Statement.extentsOf m.body)) found.classes ∧
    (functionsAmong (Statement.extentsOf m.body)).Pairwise (fun e f =>
      (e.bytes (lexemes offsetSample)).1 < (f.bytes (lexemes offsetSample)).1) ∧
    (functionsAmong (Statement.extentsOf m.body) ++
      classesAmong (Statement.extentsOf m.body)).Pairwise (fun e f =>
        Laminar (e.bytes (lexemes offsetSample)) (f.bytes (lexemes offsetSample))) := by
  have hmodule : Module.ofPieces (Piece.ofLexemes (lexemes offsetSample)) =
      .ok ⟨false, offsetBody⟩ := by with_unfolding_all rfl
  have hnone : violation (placesOf (lexemes offsetSample)) offsetBody = none := by
    with_unfolding_all rfl
  have hfound := definitions_of_ok hmodule
  rw [hnone] at hfound
  obtain ⟨hfunctions, hclasses, hstarts, -, hlaminar⟩ := offsets_of_definitions hfound hmodule
  exact ⟨_, _, hfound, hmodule, rfl, rfl, hfunctions, hclasses, hstarts, hlaminar⟩

end SourceSurvey.Syntax
