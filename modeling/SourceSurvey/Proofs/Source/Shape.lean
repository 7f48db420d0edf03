import Mathlib.Data.List.Forall2
import Mathlib.Logic.ExistsUnique
import SourceSurvey.Proofs.Text.Utf8
import SourceSurvey.Survey

/-!
What the record of a file can look like. A record is never partial: a file that could not be read or
whose text is refused has no definitions, and whatever could be read is kept.
-/

namespace SourceSurvey

namespace Syntax

/-- The code of a definition is there and is a part of the text of some lexemes. -/
def HasCode (lexemes : List Lexeme) (code? : Option String) : Prop :=
  ∃ code, code? = some code ∧ code.toList <:+: Lexeme.joined lexemes

/-- A slice is a part of the text: what it lacks of its lexemes is the blanks before the first. -/
theorem slice_isInfix_joined (lexemes : List Lexeme) (start stop : Nat) :
    slice lexemes start stop <:+: Lexeme.joined lexemes := by
  have hsplit : Lexeme.joined lexemes = Lexeme.joined (lexemes.take start) ++
      Lexeme.joined ((lexemes.drop start).take (stop - start)) ++
        Lexeme.joined ((lexemes.drop start).drop (stop - start)) := by
    rw [← Lexeme.joined_append, ← Lexeme.joined_append, List.append_assoc, List.take_append_drop,
      List.take_append_drop]
  rw [hsplit]
  unfold slice
  split
  · exact List.nil_infix
  · next first rest heq =>
    refine ⟨Lexeme.joined (lexemes.take start) ++ first.gap,
      Lexeme.joined ((lexemes.drop start).drop (stop - start)), ?_⟩
    rw [heq]
    simp [Lexeme.joined]

theorem hasCode_slice (lexemes : List Lexeme) (start stop : Nat) :
    HasCode lexemes (some (String.ofList (slice lexemes start stop))) :=
  ⟨_, rfl, by rw [String.toList_ofList]; exact slice_isInfix_joined lexemes start stop⟩

mutual

/-- Every function of a statement, at any depth, has its code. -/
theorem Statement.hasCode_of_mem_functions (lexemes : List Lexeme) :
    ∀ statement : Statement, ∀ f ∈ statement.functions lexemes, HasCode lexemes f.code
  | .definition _ start stop (.function _) _ body, f, hf => by
    rw [Statement.functions, List.mem_cons] at hf
    obtain rfl | hf := hf
    · exact hasCode_slice lexemes start stop
    · exact Statement.hasCode_of_mem_functionsOf lexemes body f hf
  | .definition _ _ _ .classType _ body, f, hf =>
    Statement.hasCode_of_mem_functionsOf lexemes body f (by simpa [Statement.functions] using hf)
  | .block _ body, f, hf =>
    Statement.hasCode_of_mem_functionsOf lexemes body f (by simpa [Statement.functions] using hf)
  | .expression .., f, hf | .importing .., f, hf | .legacy .., f, hf | .plain _, f, hf => by
    simp [Statement.functions] at hf

theorem Statement.hasCode_of_mem_functionsOf (lexemes : List Lexeme) :
    ∀ body : List Statement, ∀ f ∈ Statement.functionsOf lexemes body, HasCode lexemes f.code
  | [], f, hf => by simp [Statement.functionsOf] at hf
  | statement :: rest, f, hf => by
    rw [Statement.functionsOf, List.mem_append] at hf
    obtain hf | hf := hf
    · exact Statement.hasCode_of_mem_functions lexemes statement f hf
    · exact Statement.hasCode_of_mem_functionsOf lexemes rest f hf

end

mutual

/-- Every class of a statement, at any depth, has its code. -/
theorem Statement.hasCode_of_mem_classes (lexemes : List Lexeme) :
    ∀ statement : Statement, ∀ c ∈ statement.classes lexemes, HasCode lexemes c.code
  | .definition _ start stop .classType _ body, c, hc => by
    rw [Statement.classes, List.mem_cons] at hc
    obtain rfl | hc := hc
    · exact hasCode_slice lexemes start stop
    · exact Statement.hasCode_of_mem_classesOf lexemes body c hc
  | .definition _ _ _ (.function _) _ body, c, hc =>
    Statement.hasCode_of_mem_classesOf lexemes body c (by simpa [Statement.classes] using hc)
  | .block _ body, c, hc =>
    Statement.hasCode_of_mem_classesOf lexemes body c (by simpa [Statement.classes] using hc)
  | .expression .., c, hc | .importing .., c, hc | .legacy .., c, hc | .plain _, c, hc => by
    simp [Statement.classes] at hc

theorem Statement.hasCode_of_mem_classesOf (lexemes : List Lexeme) :
    ∀ body : List Statement, ∀ c ∈ Statement.classesOf lexemes body, HasCode lexemes c.code
  | [], c, hc => by simp [Statement.classesOf] at hc
  | statement :: rest, c, hc => by
    rw [Statement.classesOf, List.mem_append] at hc
    obtain hc | hc := hc
    · exact Statement.hasCode_of_mem_classes lexemes statement c hc
    · exact Statement.hasCode_of_mem_classesOf lexemes rest c hc

end

/-- The definitions of a source that is not refused all have their code. -/
theorem hasCode_of_definitions {text : List Char} {found : Definitions}
    (hfound : definitions text = .ok found) :
    (∀ f ∈ found.functions, ∃ code, f.code = some code ∧ code.toList <:+: text) ∧
      ∀ c ∈ found.classes, ∃ code, c.code = some code ∧ code.toList <:+: text := by
  have htext : Lexeme.joined (lexemes text) = text := joined_lexemesFrom [] text
  unfold definitions at hfound
  simp only at hfound
  split at hfound
  · split at hfound <;> simp at hfound
  · next m hm =>
    split at hfound
    · simp at hfound
    · rw [Except.ok.injEq] at hfound
      subst hfound
      constructor
      · intro f hf
        have h := Statement.hasCode_of_mem_functionsOf _ m.body f hf
        rwa [HasCode, htext] at h
      · intro c hc
        have h := Statement.hasCode_of_mem_classesOf _ m.body c hc
        rwa [HasCode, htext] at h

end Syntax

namespace FileRecord

/-- A record without anything found in a file. -/
structure Bare (r : FileRecord) : Prop where
  docstring : r.docstring = none
  imports : r.imports = []
  functions : r.functions = []
  classes : r.classes = []

/-- A record keeps the text that some bytes spell, exactly where they are the bytes of a text. -/
structure Keeps (bytes : List UInt8) (r : FileRecord) : Prop where
  spelled : r.code = some (String.ofList (Text.Utf8.decodeLossy bytes))
  exact : ∀ s : String, s.toUTF8.data.toList = bytes → r.code = some s

/-- What a file of a known grammar leaves: the code of each definition, which is a part of the
    text. -/
structure Parsed (text : List Char) (r : FileRecord) : Prop where
  functions : ∀ f ∈ r.functions, ∃ code, f.code = some code ∧ code.toList <:+: text
  classes : ∀ c ∈ r.classes, ∃ code, c.code = some code ∧ code.toList <:+: text

/-- What a file leaves in which only headers are looked for. -/
structure Skimmed (r : FileRecord) : Prop where
  docstring : r.docstring = none
  imports : r.imports = []
  functions : ∀ f ∈ r.functions, f.code = none ∧ f.docstring = none
  classes : ∀ c ∈ r.classes, c.code = none ∧ c.docstring = none

theorem Keeps.of_code {bytes : List UInt8} {r : FileRecord}
    (hcode : r.code = some (String.ofList (Text.Utf8.decodeLossy bytes))) : Keeps bytes r where
  spelled := hcode
  exact s hs := by
    have hbytes : Text.Utf8.encode s.toList = bytes := by rw [Text.Utf8.encode_toList, hs]
    rw [hcode, ← hbytes, Text.Utf8.decodeLossy_encode, String.ofList_toList]

end FileRecord

namespace Source

open Files FileRecord

/-- Whether the name that a record gives is one of a file whose grammar is known. -/
def HasGrammar (r : FileRecord) : Prop := FileName.grammarEnding <:+ r.file.toList

/-- The fates of a file. -/
inductive Fate where
  | surveyed
  | refused
  | unread

/-- What the record of the file at a path looks like for each fate. -/
def HasShape (t : Tree) (path : List UInt8) (r : FileRecord) : Fate → Prop
  | .surveyed => ∃ bytes, t.read path = .ok bytes ∧ Keeps bytes r ∧ r.error = none ∧
      (HasGrammar r → Parsed (Text.Utf8.decodeLossy bytes) r) ∧ (¬ HasGrammar r → Skimmed r)
  | .refused => ∃ bytes why, t.read path = .ok bytes ∧ Keeps bytes r ∧ HasGrammar r ∧
      r.error = some ("AST parse error: " ++ why) ∧ Bare r
  | .unread => ∃ cause why, t.read path = .error cause ∧ r.code = none ∧
      r.error = some ("Error reading " ++ why) ∧ Bare r

/-- No record has the shapes of two fates: whether the file was read and whether there is an error
    tells them apart. -/
theorem HasShape.unique {t : Tree} {path : List UInt8} {r : FileRecord} {fate other : Fate}
    (hfate : HasShape t path r fate) (hother : HasShape t path r other) : fate = other := by
  cases fate with
  | surveyed =>
    obtain ⟨bytes, hread, -, herror, -⟩ := hfate
    cases other with
    | surveyed => rfl
    | refused =>
      obtain ⟨_, why, -, -, -, hother, -⟩ := hother
      rw [herror] at hother
      cases hother
    | unread =>
      obtain ⟨cause, _, hother, -⟩ := hother
      rw [hread] at hother
      cases hother
  | refused =>
    obtain ⟨bytes, why, hread, -, -, herror, -⟩ := hfate
    cases other with
    | surveyed =>
      obtain ⟨_, -, -, hother, -⟩ := hother
      rw [herror] at hother
      cases hother
    | refused => rfl
    | unread =>
      obtain ⟨cause, _, hother, -⟩ := hother
      rw [hread] at hother
      cases hother
  | unread =>
    obtain ⟨cause, why, hread, -⟩ := hfate
    cases other with
    | surveyed =>
      obtain ⟨_, hother, -⟩ := hother
      rw [hread] at hother
      cases hother
    | refused =>
      obtain ⟨_, _, hother, -⟩ := hother
      rw [hread] at hother
      cases hother
    | unread => rfl

/-- Whatever is found in a text, its record keeps the text and where it comes from. -/
theorem record_kept (file path text : String) :
    (record file path text).file = file ∧ (record file path text).path = path ∧
      (record file path text).code = some text := by
  unfold record
  split
  · unfold Syntax.record
    split <;> exact ⟨rfl, rfl, rfl⟩
  · exact ⟨rfl, rfl, rfl⟩

/-- A text of a known grammar is either refused, which leaves nothing but the reason, or else all
    its definitions have their code. -/
theorem record_of_hasGrammar {file : String} (path text : String)
    (hfile : FileName.grammarEnding <:+ file.toList) :
    ((record file path text).error = none ∧ Parsed text.toList (record file path text)) ∨
      ∃ why, (record file path text).error = some ("AST parse error: " ++ why) ∧
        Bare (record file path text) := by
  have hmethod : FileName.method file.toList = .grammar := by
    rw [FileName.method, if_pos (List.isSuffixOf_iff_suffix.mpr hfile)]
  rw [record, hmethod]
  unfold Syntax.record
  simp only
  split
  · next found hfound =>
    obtain ⟨hfunctions, hclasses⟩ := Syntax.hasCode_of_definitions hfound
    exact .inl ⟨rfl, hfunctions, hclasses⟩
  · next problem _ => exact .inr ⟨problem.message, rfl, rfl, rfl, rfl, rfl⟩

/-- Any other text leaves no error, and no code or documentation of its definitions. -/
theorem record_of_not_hasGrammar {file : String} (path text : String)
    (hfile : ¬ FileName.grammarEnding <:+ file.toList) :
    (record file path text).error = none ∧ Skimmed (record file path text) := by
  have hmethod : FileName.method file.toList = .headers := by
    rw [FileName.method, if_neg (mt List.isSuffixOf_iff_suffix.mp hfile)]
  rw [record, hmethod]
  refine ⟨rfl, rfl, rfl, ?_, ?_⟩
  · intro f hf
    obtain ⟨header, -, rfl⟩ := List.mem_map.mp hf
    exact ⟨rfl, rfl⟩
  · intro c hc
    obtain ⟨header, -, rfl⟩ := List.mem_map.mp hc
    exact ⟨rfl, rfl⟩

theorem path_recordAt (t : Tree) (path : List UInt8) (relative : List Char) :
    (recordAt t path relative).path = String.ofList relative := by
  unfold recordAt
  simp only
  split
  · exact (record_kept _ _ _).2.1
  · rfl

theorem file_recordAt (t : Tree) (path : List UInt8) (relative : List Char) :
    (recordAt t path relative).file = String.ofList (nameOf path relative) := by
  unfold recordAt
  simp only
  split
  · exact (record_kept _ _ _).1
  · rfl

/-- Every file has a fate, whatever its path leads to. -/
theorem exists_hasShape_recordAt (t : Tree) (path : List UInt8) (relative : List Char) :
    ∃ fate, HasShape t path (recordAt t path relative) fate := by
  have hfile := file_recordAt t path relative
  unfold recordAt at hfile ⊢
  simp only at hfile ⊢
  split
  · next bytes hread =>
    rw [hread] at hfile
    obtain ⟨-, -, hcode⟩ := record_kept (String.ofList (nameOf path relative))
      (String.ofList relative) (String.ofList (Text.Utf8.decodeLossy bytes))
    have hkeeps := Keeps.of_code hcode
    by_cases hgrammar : FileName.grammarEnding <:+ (String.ofList (nameOf path relative)).toList
    · have hhas := hgrammar
      rw [← hfile] at hhas
      obtain ⟨herror, hparsed⟩ | ⟨why, herror, hbare⟩ := record_of_hasGrammar
        (String.ofList relative) (String.ofList (Text.Utf8.decodeLossy bytes)) hgrammar
      · rw [String.toList_ofList] at hparsed
        exact ⟨.surveyed, bytes, hread, hkeeps, herror, fun _ => hparsed, fun h => absurd hhas h⟩
      · exact ⟨.refused, bytes, why, hread, hkeeps, hhas, herror, hbare⟩
    · have hhas := hgrammar
      rw [← hfile] at hhas
      obtain ⟨herror, hskimmed⟩ := record_of_not_hasGrammar
        (String.ofList relative) (String.ofList (Text.Utf8.decodeLossy bytes)) hgrammar
      exact ⟨.surveyed, bytes, hread, hkeeps, herror, fun h => absurd h hhas, fun _ => hskimmed⟩
  · next cause hread =>
    exact ⟨.unread, cause, unread path cause, hread, rfl, rfl, rfl, rfl, rfl, rfl⟩

end Source

/-- The records of some entries correspond to them one by one and in order, and each has the shape
    of exactly one fate: no record is partial, whatever the entries lead to. -/
theorem Survey.hasShape_records (t : Files.Tree) (entries : List Scan.Entry) :
    List.Forall₂ (fun entry r =>
      r.path = String.ofList entry.relative ∧
      r.file = String.ofList
        (((Files.Path.fileName? entry.path).map Files.Path.text).getD entry.relative) ∧
      ∃! fate, Source.HasShape t entry.path r fate) entries (Survey.records t entries) := by
  rw [Survey.records, List.forall₂_map_right_iff, List.forall₂_same]
  intro entry _
  obtain ⟨fate, hfate⟩ := Source.exists_hasShape_recordAt t entry.path entry.relative
  exact ⟨Source.path_recordAt t entry.path entry.relative,
    Source.file_recordAt t entry.path entry.relative,
    fate, hfate, fun other hother => hother.unique hfate⟩

end SourceSurvey
