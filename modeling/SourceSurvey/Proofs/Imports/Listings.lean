import SourceSurvey.Proofs.Definitions.Tokens
import SourceSurvey.Syntax.Survey

/-!
What an import lists, by its tokens. A name stands for the same however it is bound and whether
parentheses or a last comma are written, and the tokens of an import are those of one listing only.
-/

namespace SourceSurvey.Syntax

/-- What an import brings in of one module. -/
inductive Contents
  | names (paths : List DottedName)
  | everything

/-- What an import lists: modules, or the contents of one. -/
inductive Listing
  | modules (paths : List DottedName)
  | contents (origin : DottedName) (what : Contents)

/-- The names of some contents in one line. -/
def Contents.text : Contents → List Char
  | .names paths => Text.join [',', ' '] (paths.map DottedName.text)
  | .everything => ['*']

/-- The entries for a listing: one for each module, or one for the contents of a module. -/
def Listing.entries : Listing → List String
  | .modules paths => paths.map fun path => String.ofList (DottedName.text path)
  | .contents origin what =>
    ["from " ++ String.ofList (DottedName.text origin) ++ " import " ++ String.ofList what.text]

/-- The module that an import names, without the dots before it. -/
def ImportOrigin.path : ImportOrigin → DottedName
  | .absolute path | .relative path => path
  | .future => [Keyword.future_]

/-- What an import lists. -/
def Import.listing : Import → Listing
  | .modules list => .modules (list.map ImportedName.path)
  | .names origin list => .contents origin.path (.names (list.map ImportedName.path))
  | .everything origin => .contents origin.path .everything

theorem ImportOrigin.text_path (origin : ImportOrigin) : DottedName.text origin.path = origin.text := by
  cases origin with
  | absolute | relative => rfl
  | future => exact List.append_nil _

theorem Import.entries_listing (what : Import) : what.listing.entries = what.entries := by
  cases what with
  | modules list => rw [listing, Listing.entries, List.map_map]; rfl
  | names origin list =>
    rw [listing, Listing.entries, ImportOrigin.text_path, Contents.text, List.map_map]
    rfl
  | everything origin =>
    rw [listing, Listing.entries, ImportOrigin.text_path]
    rfl

/-! ### Spelling -/

/-- Words with a dot between each two. -/
def DottedName.tokens : DottedName → List Token
  | [] => []
  | first :: rest => .word first :: rest.flatMap fun w => [.symbol .dot, .word w]

/-- The tokens of a listed name, which may be bound to another. -/
inductive SpellsName : DottedName → List Token → Prop
  | bare {path : DottedName} (hne : path ≠ []) : SpellsName path path.tokens
  | bound {path : DottedName} (hne : path ≠ []) (other : Word) :
    SpellsName path (path.tokens ++ [.word Keyword.as_, .word other])

/-- The tokens of listed names. A comma may come behind the last. -/
inductive SpellsNames : List DottedName → List Token → Prop
  | intro {paths : List DottedName} {entries : List (List Token)} {closing : List Token}
    (hne : entries ≠ []) (hentries : List.Forall₂ SpellsName paths entries)
    (hclosing : closing = [] ∨ closing = [.symbol .comma]) :
    SpellsNames paths (Text.join [.symbol .comma] entries ++ closing)

/-- A dot, or three in one. -/
def Token.isDots (t : Token) : Prop := t = .symbol .dot ∨ t = .symbol .ellipsis

/-- The tokens of the module that names are imported from. Behind dots alone comes `import`. -/
inductive SpellsOrigin : DottedName → List Token → Prop
  | absolute {path : DottedName} (hne : path ≠ []) : SpellsOrigin path path.tokens
  | relative {path : DottedName} {dots : List Token} (hne : dots ≠ [])
    (hdots : ∀ t ∈ dots, t.isDots) (hpath : path.head? ≠ some Keyword.import_) :
    SpellsOrigin path (dots ++ path.tokens)

/-- The tokens behind the `import` of an import from a module. -/
inductive SpellsContents : Contents → List Token → Prop
  | names {paths : List DottedName} {tokens : List Token} (h : SpellsNames paths tokens) :
    SpellsContents (.names paths) tokens
  | enclosed {paths : List DottedName} {tokens : List Token} (h : SpellsNames paths tokens) :
    SpellsContents (.names paths) (.symbol .leftParen :: (tokens ++ [.symbol .rightParen]))
  | everything : SpellsContents .everything [.symbol .star]

/-- The tokens of a whole import. -/
inductive SpellsImport : Listing → List Token → Prop
  | modules {paths : List DottedName} {tokens : List Token} (h : SpellsNames paths tokens) :
    SpellsImport (.modules paths) (.word Keyword.import_ :: tokens)
  | contents {origin : DottedName} {what : Contents} {before tokens : List Token}
    (horigin : SpellsOrigin origin before) (h : SpellsContents what tokens) :
    SpellsImport (.contents origin what)
      (.word Keyword.from_ :: (before ++ .word Keyword.import_ :: tokens))

/-! ### Unique reading -/

section Unique

variable {path path' origin origin' : DottedName} {words words' : List Word}
  {paths paths' : List DottedName} {tokens before before' rest rest' dots dots' : List Token}
  {t t' : Token}

theorem dotted_inj (hrest : rest.head? ≠ some (.symbol .dot))
    (hrest' : rest'.head? ≠ some (.symbol .dot))
    (h : (words.flatMap fun w => [Token.symbol .dot, .word w]) ++ rest =
      (words'.flatMap fun w => [Token.symbol .dot, .word w]) ++ rest') :
    words = words' ∧ rest = rest' := by
  induction words generalizing words' with
  | nil =>
    cases words' with
    | nil => exact ⟨rfl, h⟩
    | cons w' words' =>
      obtain rfl : rest = _ := h
      exact absurd rfl hrest
  | cons w words ih =>
    cases words' with
    | nil =>
      obtain rfl : _ = rest' := h
      exact absurd rfl hrest'
    | cons w' words' =>
      obtain ⟨-, h⟩ := List.cons.inj h
      obtain ⟨hw, h⟩ := List.cons.inj h
      obtain ⟨rfl, rfl⟩ := ih h
      cases hw
      exact ⟨rfl, rfl⟩

theorem tokens_inj (hne : path ≠ []) (hne' : path' ≠ [])
    (hrest : rest.head? ≠ some (.symbol .dot)) (hrest' : rest'.head? ≠ some (.symbol .dot))
    (h : path.tokens ++ rest = path'.tokens ++ rest') : path = path' ∧ rest = rest' := by
  cases path with
  | nil => exact absurd rfl hne
  | cons w words =>
    cases path' with
    | nil => exact absurd rfl hne'
    | cons w' words' =>
      obtain ⟨hw, h⟩ := List.cons.inj h
      obtain ⟨rfl, rfl⟩ := dotted_inj hrest hrest' h
      cases hw
      exact ⟨rfl, rfl⟩

theorem dots_inj (hdots : ∀ t ∈ dots, t.isDots) (hdots' : ∀ t ∈ dots', t.isDots)
    (ht : ¬t.isDots) (ht' : ¬t'.isDots) (h : dots ++ t :: rest = dots' ++ t' :: rest') :
    t :: rest = t' :: rest' := by
  induction dots generalizing dots' with
  | nil =>
    cases dots' with
    | nil => exact h
    | cons d' dots' =>
      obtain ⟨rfl, -⟩ := List.cons.inj h
      exact absurd (hdots' t List.mem_cons_self) ht
  | cons d dots ih =>
    cases dots' with
    | nil =>
      obtain ⟨rfl, -⟩ := List.cons.inj h
      exact absurd (hdots d List.mem_cons_self) ht'
    | cons d' dots' =>
      obtain ⟨-, hbehind⟩ := List.cons.inj h
      exact ih (List.forall_mem_cons.mp hdots).2 (List.forall_mem_cons.mp hdots').2 hbehind

theorem SpellsName.path_ne_nil (h : SpellsName path tokens) : path ≠ [] := by
  cases h <;> assumption

theorem SpellsName.exists_append (h : SpellsName path tokens) :
    ∃ binding, tokens = path.tokens ++ binding ∧ binding.head? ≠ some (.symbol .dot) := by
  cases h with
  | bare => exact ⟨[], (List.append_nil _).symm, nofun⟩
  | bound _ other => exact ⟨_, rfl, nofun⟩

theorem SpellsName.unique (h : SpellsName path tokens) (h' : SpellsName path' tokens) :
    path = path' := by
  obtain ⟨binding, hsplit, hbinding⟩ := h.exists_append
  obtain ⟨binding', hsplit', hbinding'⟩ := h'.exists_append
  exact (tokens_inj h.path_ne_nil h'.path_ne_nil hbinding hbinding'
    (hsplit.symm.trans hsplit')).1

/-- The only sign in a name is the dot. -/
theorem notMem_tokens {sign : Symbol} (hdot : sign ≠ .dot) : .symbol sign ∉ path.tokens := by
  cases path with
  | nil => exact List.not_mem_nil
  | cons first words => simp [DottedName.tokens, hdot]

theorem SpellsName.notMem (sign : Symbol) (hdot : sign ≠ .dot) (h : SpellsName path tokens) :
    .symbol sign ∉ tokens := by
  cases h with
  | bare => exact notMem_tokens hdot
  | bound _ other => simp [notMem_tokens hdot]

theorem exists_word_of_ne_nil (hne : path ≠ []) : ∃ w more, path.tokens = .word w :: more := by
  obtain ⟨first, words, rfl⟩ := List.exists_cons_of_ne_nil hne
  exact ⟨first, _, rfl⟩

theorem SpellsName.exists_word (h : SpellsName path tokens) :
    ∃ w more, tokens = .word w :: more := by
  obtain ⟨binding, rfl, -⟩ := h.exists_append
  obtain ⟨w, more, hpath⟩ := exists_word_of_ne_nil h.path_ne_nil
  exact ⟨w, more ++ binding, by rw [hpath]; rfl⟩

theorem exists_name_of_entries {entries : List (List Token)}
    (h : List.Forall₂ SpellsName paths entries) : ∀ entry ∈ entries, ∃ path, SpellsName path entry := by
  induction h with
  | nil => exact nofun
  | cons hname _ ih => exact List.forall_mem_cons.mpr ⟨⟨_, hname⟩, ih⟩

theorem comma_notMem_of_entries {entries : List (List Token)}
    (h : List.Forall₂ SpellsName paths entries) :
    ∀ entry ∈ entries, .symbol .comma ∉ entry ∧ entry ≠ [] := by
  intro entry hentry
  obtain ⟨path, hname⟩ := exists_name_of_entries h entry hentry
  obtain ⟨w, more, rfl⟩ := hname.exists_word
  exact ⟨hname.notMem .comma nofun, List.cons_ne_nil _ _⟩

/-- The entries of listed names are the fields between the commas, but for an empty last one. -/
theorem SpellsNames.fields (h : SpellsNames paths tokens) :
    List.Forall₂ SpellsName paths ((Text.split (.symbol .comma) tokens).filter (· ≠ [])) := by
  cases h with
  | @intro entries closing hne hentries hclosing =>
  have hplain := comma_notMem_of_entries hentries
  have hfields := Text.split_join hne fun entry hentry => (hplain entry hentry).1
  have hfilter : entries.filter (· ≠ []) = entries :=
    List.filter_eq_self.mpr fun entry hentry => by simpa using (hplain entry hentry).2
  rcases hclosing with rfl | rfl
  · rwa [List.append_nil, hfields, hfilter]
  · rw [Text.split_append, hfields, List.filter_append, hfilter]
    simpa [Text.split] using hentries

theorem SpellsNames.unique (h : SpellsNames paths tokens) (h' : SpellsNames paths' tokens) :
    paths = paths' :=
  List.left_unique_forall₂' (fun _ _ _ hpath hpath' => hpath.unique hpath') h.fields h'.fields

theorem SpellsNames.exists_word (h : SpellsNames paths tokens) :
    ∃ w more, tokens = .word w :: more := by
  cases h with
  | @intro entries closing hne hentries hclosing =>
  cases hentries with
  | nil => exact absurd rfl hne
  | @cons _ entry _ entries hname _ =>
    obtain ⟨w, more, rfl⟩ := hname.exists_word
    cases entries with
    | nil => exact ⟨w, more ++ closing, by simp [Text.join, List.intercalate]⟩
    | cons next entries => exact ⟨w, _, by simp [Text.join, List.intercalate]; rfl⟩

/-- Entries with a comma behind each but the last. -/
theorem SpellsNames.exists_concat (h : SpellsNames paths tokens) :
    ∃ entries last closing, tokens = entries.flatMap (· ++ [.symbol .comma]) ++ last ++ closing ∧
      (∀ entry ∈ entries ++ [last], ∃ path, SpellsName path entry) ∧
      (closing = [] ∨ closing = [.symbol .comma]) := by
  cases h with
  | @intro entries closing hne hentries hclosing =>
  have hnames := exists_name_of_entries hentries
  rw [← List.dropLast_append_getLast hne] at hnames ⊢
  exact ⟨_, _, closing, by rw [join_comma_concat], hnames, hclosing⟩

/-- The only signs in listed names are dots and commas. -/
theorem SpellsNames.notMem (sign : Symbol) (hdot : sign ≠ .dot) (hcomma : sign ≠ .comma)
    (h : SpellsNames paths tokens) : .symbol sign ∉ tokens := by
  obtain ⟨entries, last, closing, rfl, hnames, hclosing⟩ := h.exists_concat
  obtain ⟨hentries, hlast⟩ := List.forall_mem_append.mp hnames
  obtain ⟨path, hlast⟩ := hlast last List.mem_cons_self
  simp only [List.mem_append, List.mem_flatMap, not_or, List.mem_singleton]
  refine ⟨⟨?_, hlast.notMem sign hdot⟩, ?_⟩
  · rintro ⟨entry, hentry, hmem | hmem⟩
    · obtain ⟨path, hname⟩ := hentries entry hentry
      exact hname.notMem sign hdot hmem
    · cases hmem
      exact hcomma rfl
  · rcases hclosing with rfl | rfl <;> simp [hcomma]

theorem not_isDots_word (w : Word) : ¬(Token.word w).isDots := by
  rintro (h | h) <;> cases h

/-- The only signs before the `import` of an import from a module are dots. -/
theorem SpellsOrigin.notMem (sign : Symbol) (hdot : sign ≠ .dot) (hellipsis : sign ≠ .ellipsis)
    (h : SpellsOrigin origin before) : .symbol sign ∉ before := by
  cases h with
  | absolute => exact notMem_tokens hdot
  | relative _ hdots _ =>
    refine List.mem_append.not.mpr (not_or.mpr ⟨fun hmem => ?_, notMem_tokens hdot⟩)
    obtain h | h := hdots _ hmem
    · cases h
      exact hdot rfl
    · cases h
      exact hellipsis rfl

theorem exists_word_of_import (path : DottedName) (rest : List Token) :
    ∃ w more, path.tokens ++ .word Keyword.import_ :: rest = .word w :: more := by
  cases path with
  | nil => exact ⟨_, rest, rfl⟩
  | cons w words => exact ⟨w, _, rfl⟩

theorem relative_inj (hpath : path.head? ≠ some Keyword.import_)
    (hpath' : path'.head? ≠ some Keyword.import_)
    (h : path.tokens ++ .word Keyword.import_ :: rest =
      path'.tokens ++ .word Keyword.import_ :: rest') : path = path' ∧ rest = rest' := by
  cases path with
  | nil =>
    cases path' with
    | nil => exact ⟨rfl, (List.cons.inj h).2⟩
    | cons w' words' =>
      obtain ⟨hw, -⟩ := List.cons.inj h
      cases hw
      exact absurd rfl hpath'
  | cons w words =>
    cases path' with
    | nil =>
      obtain ⟨hw, -⟩ := List.cons.inj h
      cases hw
      exact absurd rfl hpath
    | cons w' words' =>
      obtain ⟨hpaths, hrest⟩ :=
        tokens_inj (List.cons_ne_nil _ _) (List.cons_ne_nil _ _) (by simp) (by simp) h
      exact ⟨hpaths, (List.cons.inj hrest).2⟩

/-- The module that names are imported from ends where `import` follows. -/
theorem SpellsOrigin.unique (h : SpellsOrigin origin before) (h' : SpellsOrigin origin' before')
    (hsame : before ++ .word Keyword.import_ :: rest = before' ++ .word Keyword.import_ :: rest') :
    origin = origin' ∧ rest = rest' := by
  have hhead : ∀ {w : Word} {more dots behind : List Token}, dots ≠ [] →
      (∀ t ∈ dots, t.isDots) → Token.word w :: more ≠ dots ++ behind := by
    intro w more dots behind hne hdots hsame
    obtain ⟨d, dots, rfl⟩ := List.exists_cons_of_ne_nil hne
    obtain ⟨rfl, -⟩ := List.cons.inj hsame
    exact not_isDots_word w (hdots _ List.mem_cons_self)
  cases h with
  | absolute hne =>
    cases h' with
    | absolute hne' =>
      obtain ⟨rfl, hrest⟩ := tokens_inj hne hne' (by simp) (by simp) hsame
      exact ⟨rfl, (List.cons.inj hrest).2⟩
    | relative hne' hdots' =>
      obtain ⟨w, more, hword⟩ := exists_word_of_import origin rest
      rw [hword, List.append_assoc] at hsame
      exact absurd hsame (hhead hne' hdots')
  | relative hne hdots hpath =>
    cases h' with
    | absolute hne' =>
      obtain ⟨w, more, hword⟩ := exists_word_of_import origin' rest'
      rw [hword, List.append_assoc] at hsame
      exact absurd hsame.symm (hhead hne hdots)
    | relative hne' hdots' hpath' =>
      obtain ⟨w, more, hword⟩ := exists_word_of_import origin rest
      obtain ⟨w', more', hword'⟩ := exists_word_of_import origin' rest'
      rw [List.append_assoc, List.append_assoc, hword, hword'] at hsame
      have hbehind := dots_inj hdots hdots' (not_isDots_word w) (not_isDots_word w') hsame
      rw [← hword, ← hword'] at hbehind
      exact relative_inj hpath hpath' hbehind

theorem SpellsContents.unique {what what' : Contents} (h : SpellsContents what tokens)
    (h' : SpellsContents what' tokens) : what = what' := by
  cases h with
  | names h =>
    obtain ⟨w, more, hword⟩ := h.exists_word
    cases h' with
    | names h' => rw [h.unique h']
    | enclosed | everything => cases hword
  | enclosed h =>
    generalize hinside : _ ++ [Token.symbol .rightParen] = inside at h'
    cases h' with
    | names h' =>
      obtain ⟨w, more, hword⟩ := h'.exists_word
      cases hword
    | enclosed h' =>
      obtain rfl := List.append_cancel_right hinside
      rw [h.unique h']
  | everything =>
    cases h' with
    | names h' =>
      obtain ⟨w, more, hword⟩ := h'.exists_word
      cases hword
    | everything => rfl

/-- No statement ends within an import. -/
theorem SpellsImport.semicolon_notMem {listing : Listing} (h : SpellsImport listing tokens) :
    .symbol .semicolon ∉ tokens := by
  have hnames : ∀ {paths : List DottedName} {tokens : List Token}, SpellsNames paths tokens →
      .symbol .semicolon ∉ tokens := fun h => h.notMem .semicolon nofun nofun
  cases h with
  | modules h => simp [hnames h]
  | contents horigin h =>
    have horigin := horigin.notMem .semicolon nofun nofun
    cases h with
    | names h => simp [horigin, hnames h]
    | enclosed h => simp [horigin, hnames h]
    | everything => simp [horigin]

/-- The tokens of an import are those of one listing. -/
theorem SpellsImport.unique {listing listing' : Listing} (h : SpellsImport listing tokens)
    (h' : SpellsImport listing' tokens) : listing = listing' := by
  cases h with
  | modules h =>
    cases h' with
    | modules h' => rw [h.unique h']
  | contents horigin h =>
    generalize hbehind : _ ++ Token.word Keyword.import_ :: _ = behind at h'
    cases h' with
    | contents horigin' h' =>
      obtain ⟨rfl, rfl⟩ := horigin.unique horigin' hbehind
      rw [h.unique h']

end Unique

/-! ### Where a list may end -/

/-- Where among listed names a token comes: before a name or in it, behind a whole name, or behind a
    comma. A list may end in the last two places. -/
inductive ListPlace
  | inside | behindName | behindComma

namespace ListPlace

/-- The place behind a token. -/
def next : ListPlace → Token → ListPlace
  | _, .symbol .comma => .behindComma
  | .behindName, _ => .inside
  | .inside, _ | .behindComma, _ => .behindName

/-- The place behind some tokens. -/
def after (p : ListPlace) (tokens : List Token) : ListPlace := tokens.foldl next p

variable {p : ListPlace} {paths : List DottedName} {path : DottedName} {tokens : List Token}

theorem after_append (p : ListPlace) (first second : List Token) :
    p.after (first ++ second) = (p.after first).after second := List.foldl_append

theorem after_dotted (words : List Word) :
    behindName.after (words.flatMap fun w => [.symbol .dot, .word w]) = .behindName := by
  induction words with
  | nil => rfl
  | cons w words ih => exact ih

theorem next_word (hp : p ≠ .behindName) (w : Word) : p.next (.word w) = .behindName := by
  cases p with
  | inside | behindComma => rfl
  | behindName => exact absurd rfl hp

theorem after_name (hp : p ≠ .behindName) (h : SpellsName path tokens) :
    p.after tokens = .behindName := by
  have hpath : ∀ {path : DottedName}, path ≠ [] → p.after path.tokens = .behindName := by
    intro path hne
    obtain ⟨first, words, rfl⟩ := List.exists_cons_of_ne_nil hne
    rw [DottedName.tokens, after, List.foldl_cons, next_word hp]
    exact after_dotted words
  cases h with
  | bare hne => exact hpath hne
  | bound hne other =>
    rw [after_append, hpath hne]
    rfl

theorem after_entries (hp : p ≠ .behindName) {entries : List (List Token)}
    (h : ∀ entry ∈ entries, ∃ path, SpellsName path entry) :
    p.after (entries.flatMap (· ++ [.symbol .comma])) ≠ .behindName := by
  induction entries generalizing p with
  | nil => exact hp
  | cons entry entries ih =>
    obtain ⟨⟨path, hname⟩, hrest⟩ := List.forall_mem_cons.mp h
    rw [List.flatMap_cons, after_append, after_append, after_name hp hname]
    exact ih nofun hrest

/-- Listed names end where a list may. -/
theorem after_names (h : SpellsNames paths tokens) : inside.after tokens ≠ .inside := by
  obtain ⟨entries, last, closing, rfl, hnames, hclosing⟩ := h.exists_concat
  obtain ⟨hentries, hlast⟩ := List.forall_mem_append.mp hnames
  obtain ⟨path, hlast⟩ := hlast last List.mem_cons_self
  have hbefore := after_entries (p := .inside) nofun hentries
  rw [after_append, after_append, after_name hbefore hlast]
  rcases hclosing with rfl | rfl <;> exact nofun

end ListPlace

/-- Only names without parentheses begin with contents of a module that end before they do. -/
theorem SpellsContents.names_of_append {what what' : Contents} {tokens rest : List Token}
    {t : Token} (h : SpellsContents what (tokens ++ t :: rest))
    (h' : SpellsContents what' tokens) :
    (∃ paths, SpellsNames paths (tokens ++ t :: rest)) ∧ ∃ paths, SpellsNames paths tokens := by
  cases h' with
  | names h' =>
    refine ⟨?_, _, h'⟩
    obtain ⟨w, more, rfl⟩ := h'.exists_word
    cases h with
    | names h => exact ⟨_, h⟩
  | enclosed h' =>
    rw [List.cons_append] at h
    generalize hclosed : _ ++ [Token.symbol .rightParen] ++ t :: rest = inside at h
    cases h with
    | names h =>
      obtain ⟨w, more, hword⟩ := h.exists_word
      cases hword
    | enclosed h =>
      have hmem := congrArg List.dropLast hclosed
      rw [List.dropLast_concat, List.dropLast_append_of_ne_nil (List.cons_ne_nil t rest)] at hmem
      refine absurd ?_ (h.notMem .rightParen nofun nofun)
      simp [← hmem]
  | everything =>
    cases h with
    | names h =>
      obtain ⟨w, more, hword⟩ := h.exists_word
      cases hword

end SourceSurvey.Syntax
