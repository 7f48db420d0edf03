import SourceSurvey.Proofs.Imports.Shortest

/-!
What a reader of imports passes: the tokens of a listing. Outside of parentheses no line ends where
the list of names might.
-/

namespace SourceSurvey.Syntax

open SourceSurvey.Syntax.Parser

section Reading

variable {source : List Lexeme} {c c₁ d : Cursor} {f : Follow} {e : Expected} {t : Token}
  (hsource : Legible source) (hc : c.On (Piece.ofLexemes source))

include hsource hc

/-- Words with a dot before each. -/
theorem Legible.words_of_dottedRest {words : List Word} (h : Gives (dottedRest f) c words d) :
    ∃ run, c.Runs source run d ∧
      run.map Lexeme.token = (words.flatMap fun w => [.symbol .dot, .word w]) ∧
      (f.lineEnd = true → KeepsLine .behindName run) := by
  refine Gives.of_loop
    (fun (before : List Word) d => ∃ run, c.Runs source run d ∧
      run.map Lexeme.token = (before.reverse.flatMap fun w => [.symbol .dot, .word w]) ∧
      (f.lineEnd = true → KeepsLine .behindName run))
    (fun (words : List Word) d => ∃ run, c.Runs source run d ∧
      run.map Lexeme.token = (words.flatMap fun w => [.symbol .dot, .word w]) ∧
      (f.lineEnd = true → KeepsLine .behindName run)) ?_ h ⟨[], .refl hc, rfl, fun _ => trivial⟩
  rintro before d r d' ⟨run, hrun, htokens, hline⟩ hround
  obtain ⟨l, d₁, hlook, hround⟩ := gives_bind_iff.mp hround
  split at hround
  · obtain ⟨u, d₂, hpass, hround⟩ := gives_bind_iff.mp hround
    obtain ⟨w, d₃, hword, hround⟩ := gives_bind_iff.mp hround
    obtain ⟨rfl, rfl⟩ := gives_pure_iff.mp hround
    obtain ⟨k, hdot, hk, hbreaks⟩ := hsource.runs_of_found hrun.on hlook hpass
    obtain ⟨k', hnamed, hk'⟩ := hsource.runs_of_expectWord hdot.on hword
    refine ⟨run ++ ([k] ++ [k']), hrun.trans (hdot.trans hnamed), ?_, fun hf => ?_⟩
    · simp [htokens, hk, hk']
    · refine keepsLine_append.mpr ⟨hline hf, ?_⟩
      rw [htokens, ListPlace.after_dotted]
      exact ⟨fun _ => hbreaks hf, by rw [hk]; exact fun hne => absurd rfl hne, trivial⟩
  · obtain ⟨rfl, rfl⟩ := gives_pure_iff.mp hround
    have hall := hrun.trans (hsource.runs_of_look hrun.on hlook)
    rw [List.append_nil] at hall
    exact ⟨run, hall, htokens, hline⟩

theorem Legible.tokens_of_dottedName {path : DottedName} (h : Gives (dottedName f) c path d) :
    ∃ run, c.Runs source run d ∧ path ≠ [] ∧ run.map Lexeme.token = path.tokens ∧
      (f.lineEnd = true → KeepsName run) := by
  obtain ⟨t, c₁, htake, h⟩ := gives_bind_iff.mp h
  split at h
  · next w =>
    obtain ⟨words, c₂, hrest, h⟩ := gives_bind_iff.mp h
    obtain ⟨rfl, rfl⟩ := gives_pure_iff.mp h
    obtain ⟨k, hfirst, hk⟩ := hsource.runs_of_take hc htake nofun
    obtain ⟨run, hrun, htokens, hline⟩ := hsource.words_of_dottedRest hfirst.on hrest
    refine ⟨k :: run, hfirst.trans hrun, List.cons_ne_nil _ _, ?_, fun hf p hp hbefore => ?_⟩
    · rw [List.map_cons, hk, htokens, DottedName.tokens]
    · refine ⟨hbefore k rfl, ?_⟩
      rw [hk, ListPlace.next_word hp]
      exact hline hf
  · exact absurd h not_gives_failure

theorem Legible.tokens_of_importAlias {other : Option Word}
    (h : Gives (importAlias f) c other d) :
    ∃ run, c.Runs source run d ∧ (run.map Lexeme.token = [] ∨
        ∃ other, run.map Lexeme.token = [.word Keyword.as_, .word other]) ∧
      (f.lineEnd = true → KeepsLine .behindName run) := by
  obtain ⟨l, c₁, hlook, h⟩ := gives_bind_iff.mp h
  have hfound := hsource.runs_of_look hc hlook
  have hnone : ∀ {o : Option Word} {e : Cursor}, Gives (pure none) c₁ o e →
      ∃ run, c.Runs source run e ∧ (run.map Lexeme.token = [] ∨
        ∃ other, run.map Lexeme.token = [.word Keyword.as_, .word other]) ∧
      (f.lineEnd = true → KeepsLine .behindName run) := by
    intro o e h
    obtain ⟨-, rfl⟩ := gives_pure_iff.mp h
    exact ⟨[], hfound, .inl rfl, fun _ => trivial⟩
  split at h
  · split at h
    · next hw =>
      subst hw
      obtain ⟨u, c₂, hpass, h⟩ := gives_bind_iff.mp h
      obtain ⟨w, c₃, hword, h⟩ := gives_bind_iff.mp h
      obtain ⟨-, rfl⟩ := gives_pure_iff.mp h
      obtain ⟨k, has, hk, hbreaks⟩ := hsource.runs_of_found hc hlook hpass
      obtain ⟨k', hnamed, hk'⟩ := hsource.runs_of_expectWord has.on hword
      refine ⟨[k] ++ [k'], has.trans hnamed, .inr ⟨w, ?_⟩, fun hf => ?_⟩
      · rw [List.singleton_append, List.map_cons, List.map_singleton, hk, hk']
      · exact ⟨fun _ => hbreaks hf, by rw [hk]; exact fun hne => absurd rfl hne, trivial⟩
    · exact hnone h
  · exact hnone h

/-- A name of a list, with what it is bound to. -/
theorem Legible.spellsName {path : DottedName} {other : Option Word}
    (hpath : Gives (dottedName f) c path c₁) (hother : Gives (importAlias f) c₁ other d) :
    ∃ run, c.Runs source run d ∧ SpellsName path (run.map Lexeme.token) ∧
      (f.lineEnd = true → KeepsName run) := by
  obtain ⟨run, hrun, hne, htokens, hname⟩ := hsource.tokens_of_dottedName hc hpath
  obtain ⟨run', hrun', hbinding, hline⟩ := hsource.tokens_of_importAlias hrun.on hother
  refine ⟨run ++ run', hrun.trans hrun', ?_, fun hf p hp hbefore => ?_⟩
  · rw [List.map_append, htokens]
    rcases hbinding with hnone | ⟨w, hsome⟩
    · rw [hnone, List.append_nil]
      exact .bare hne
    · rw [hsome]
      exact .bound hne w
  · refine keepsLine_append.mpr ⟨hname hf p hp fun k hk => hbefore k ?_, ?_⟩
    · rw [List.head?_append, Option.mem_def.mp hk]
      rfl
    · rw [htokens, ListPlace.after_name hp (.bare hne)]
      exact hline hf

/-- Names that have been read, with a comma behind each. -/
structure ReadsNames (source : List Lexeme) (f : Follow) (c : Cursor) (paths : List DottedName)
    (run : List Lexeme) (d : Cursor) : Prop where
  runs : c.Runs source run d
  spelled : ∃ entries, List.Forall₂ SpellsName paths entries ∧
    run.map Lexeme.token = entries.flatMap (· ++ [.symbol .comma])
  keeps : f.lineEnd = true → KeepsLine .inside run ∧
    (run ≠ [] → ∀ k ∈ (d.bare source).head?, k.breaks = false)

omit hsource hc in
/-- Another name may come behind those that have been read. -/
theorem ReadsNames.keepsLine {paths : List DottedName} {run named : List Lexeme} (h : ReadsNames source f c paths run c₁)
    (hnamed : c₁.Runs source named d) (hname : f.lineEnd = true → KeepsName named) (hf : f.lineEnd = true) :
    KeepsLine .inside (run ++ named) := by
  obtain ⟨hkept, hnext⟩ := h.keeps hf
  obtain ⟨entries, hentries, htokens⟩ := h.spelled
  refine keepsLine_append.mpr ⟨hkept, hname hf _ ?_ fun k hk hplace => hnext ?_ k ?_⟩
  · rw [htokens]
    exact ListPlace.after_entries (p := .inside) nofun (exists_name_of_entries hentries)
  · rintro rfl
    exact hplace rfl
  · rw [hnamed.bare, List.head?_append, Option.mem_def.mp hk]
    rfl

omit hsource hc in
theorem ReadsNames.spellsNames {paths : List DottedName} {path : DottedName}
    {run named closing : List Lexeme} (h : ReadsNames source f c paths run c₁)
    (hspells : SpellsName path (named.map Lexeme.token))
    (hclosing : closing.map Lexeme.token = [] ∨ closing.map Lexeme.token = [.symbol .comma]) :
    SpellsNames (paths ++ [path]) ((run ++ named ++ closing).map Lexeme.token) := by
  obtain ⟨entries, hentries, htokens⟩ := h.spelled
  rw [List.map_append, List.map_append, htokens, ← join_comma_concat]
  exact .intro (by simp) (List.rel_append hentries (.cons hspells .nil)) hclosing

theorem Legible.spellsNames {names : List ImportedName} (h : Gives (importedNames f) c names d) :
    ∃ run, c.Runs source run d ∧
      SpellsNames (names.map ImportedName.path) (run.map Lexeme.token) ∧
      (f.lineEnd = true → KeepsLine .inside run) := by
  refine Gives.of_loop
    (fun (before : List ImportedName) d =>
      ∃ run, ReadsNames source f c (before.reverse.map ImportedName.path) run d)
    (fun (names : List ImportedName) d => ∃ run, c.Runs source run d ∧
      SpellsNames (names.map ImportedName.path) (run.map Lexeme.token) ∧
      (f.lineEnd = true → KeepsLine .inside run)) ?_ h
    ⟨[], .refl hc, ⟨[], .nil, rfl⟩, fun _ => ⟨trivial, fun hne => absurd rfl hne⟩⟩
  rintro before d r d' ⟨run, hbefore⟩ hround
  obtain ⟨path, d₁, hpath, hround⟩ := gives_bind_iff.mp hround
  obtain ⟨other, d₂, hother, hround⟩ := gives_bind_iff.mp hround
  obtain ⟨l, d₃, hlook, hround⟩ := gives_bind_iff.mp hround
  obtain ⟨named, hnamed, hspells, hname⟩ := hsource.spellsName hbefore.runs.on hpath hother
  have hall := hbefore.runs.trans hnamed
  have hkept := hbefore.keepsLine hnamed hname
  have hpaths : ((⟨path, other⟩ :: before : List ImportedName).reverse.map ImportedName.path) =
      before.reverse.map ImportedName.path ++ [path] := by simp
  split at hround
  · obtain ⟨l, d₄, hadvance, hround⟩ := gives_bind_iff.mp hround
    obtain ⟨u, d₅, hpass, hbehind⟩ := gives_bind_iff.mp hadvance
    obtain ⟨k, hcomma, hk, hbreaks⟩ := hsource.runs_of_found hall.on hlook hpass
    have hruns := (hall.trans hcomma).trans (hsource.runs_of_look hcomma.on hbehind)
    rw [List.append_nil] at hruns
    have hkeeps : f.lineEnd = true → KeepsLine .inside (run ++ named ++ [k]) := fun hf =>
      keepsLine_append.mpr ⟨hkept hf, fun _ => hbreaks hf, trivial⟩
    split at hround
    · obtain ⟨rfl, rfl⟩ := gives_pure_iff.mp hround
      obtain ⟨entries, hentries, htokens⟩ := hbefore.spelled
      obtain ⟨next, more, hbare, -, -, hline⟩ := hsource.bare_of_look hcomma.on hbehind
      refine ⟨run ++ named ++ [k], hruns, ⟨entries ++ [named.map Lexeme.token], ?_, ?_⟩,
        fun hf => ⟨hkeeps hf, fun _ => ?_⟩⟩
      · rw [hpaths]
        exact List.rel_append hentries (.cons hspells .nil)
      · simp [htokens, hk]
      · rw [hbare]
        rintro _ ⟨⟩
        exact hline hf
    · obtain ⟨rfl, rfl⟩ := gives_pure_iff.mp hround
      refine ⟨run ++ named ++ [k], hruns, hpaths ▸ hbefore.spellsNames hspells (.inr ?_), hkeeps⟩
      rw [List.map_singleton, hk]
  · obtain ⟨rfl, rfl⟩ := gives_pure_iff.mp hround
    refine ⟨run ++ named ++ [], hall.trans (hsource.runs_of_look hall.on hlook),
      hpaths ▸ hbefore.spellsNames hspells (.inl rfl), fun hf => ?_⟩
    rw [List.append_nil]
    exact hkept hf

/-- The contents of a module behind `import`, perhaps in parentheses. -/
theorem Legible.spellsContents {names : List ImportedName} (h : Gives importedFrom c names d) :
    ∃ run, c.Runs source run d ∧
      SpellsContents (.names (names.map ImportedName.path)) (run.map Lexeme.token) ∧
      ∀ paths, SpellsNames paths (run.map Lexeme.token) → KeepsLine .inside run := by
  obtain ⟨t, c₁, hnext, h⟩ := gives_bind_iff.mp h
  have hlook := gives_next_iff.mp hnext
  split at h
  · next ht =>
    subst ht
    obtain ⟨u, c₂, hadvance, h⟩ := gives_bind_iff.mp h
    obtain ⟨t, hadvance⟩ := gives_discard_iff.mp hadvance
    obtain ⟨list, c₃, hlist, h⟩ := gives_bind_iff.mp h
    obtain ⟨v, c₄, hclose, h⟩ := gives_bind_iff.mp h
    obtain ⟨rfl, rfl⟩ := gives_pure_iff.mp h
    have hfound := hsource.runs_of_look hc hlook
    obtain ⟨k, hopen, hk⟩ :=
      hsource.runs_of_advance hfound.on (nesting_of_look hlook).2 nofun hadvance
    obtain ⟨run, hrun, hspells, -⟩ := hsource.spellsNames hopen.on hlist
    obtain ⟨k', hclosed, hk'⟩ := hsource.runs_of_expect hrun.on hclose
    have htokens : (k :: (run ++ [k'])).map Lexeme.token =
        .symbol .leftParen :: (run.map Lexeme.token ++ [.symbol .rightParen]) := by
      simp [hk, hk']
    refine ⟨k :: (run ++ [k']), hfound.trans (hopen.trans (hrun.trans hclosed)),
      htokens ▸ .enclosed hspells, fun paths hnames => ?_⟩
    obtain ⟨w, more, hword⟩ := hnames.exists_word
    rw [htokens] at hword
    cases hword
  · have hfound := hsource.runs_of_look hc hlook
    obtain ⟨run, hrun, hspells, hline⟩ := hsource.spellsNames hfound.on h
    exact ⟨run, hfound.trans hrun, .names hspells, fun _ _ => hline rfl⟩

omit hsource hc in
theorem head?_of_dottedName {w : Word} {path : DottedName} (hshows : c.Shows (some (.word w)))
    (h : Gives (dottedName f) c path d) : path.head? = some w := by
  obtain ⟨t, c₁, htake, h⟩ := gives_bind_iff.mp h
  obtain ⟨ht, -⟩ := nesting_of_take htake
  rw [Cursor.shows_some.mp hshows] at ht
  cases ht
  obtain ⟨words, c₂, -, h⟩ := gives_bind_iff.mp h
  obtain ⟨rfl, -⟩ := gives_pure_iff.mp h
  rfl

theorem Legible.spellsOrigin_dotted {origin : ImportOrigin} {dot : Token} (hdot : dot.isDots)
    (hshows : c.Shows (some dot)) (h : Gives dottedOrigin c origin d) :
    ∃ run, c.Runs source run d ∧ SpellsOrigin origin.path (run.map Lexeme.token) := by
  -- every round begins at a dot
  refine Gives.of_loop
    (fun _ d => ∃ run, c.Runs source run d ∧ (∀ t ∈ run.map Lexeme.token, t.isDots) ∧
      ∃ dot : Token, dot.isDots ∧ d.Shows (some dot))
    (fun (origin : ImportOrigin) d => ∃ run, c.Runs source run d ∧
      SpellsOrigin origin.path (run.map Lexeme.token)) ?_ h
    ⟨[], .refl hc, nofun, dot, hdot, hshows⟩
  rintro s d r d' ⟨run, hrun, hdots, dot, hdot, hshows⟩ hround
  obtain ⟨t, d₁, hadvance, hround⟩ := gives_bind_iff.mp hround
  have hcomment : dot ≠ .comment := by
    rintro rfl
    cases hdot <;> contradiction
  obtain ⟨k, hpassed, rfl⟩ := hsource.runs_of_advance hrun.on hshows hcomment hadvance
  have hall := hrun.trans hpassed
  have hshows := (nesting_of_advance hshows hadvance).2
  have hdots : ∀ t ∈ (run ++ [k]).map Lexeme.token, t.isDots := by
    rw [List.map_append]
    exact List.forall_mem_append.mpr ⟨hdots, List.forall_mem_singleton.mpr hdot⟩
  have hne : (run ++ [k]).map Lexeme.token ≠ [] := by simp
  split at hround
  · obtain ⟨rfl, rfl⟩ := gives_pure_iff.mp hround
    exact ⟨run ++ [k], hall, hdots, _, .inl rfl, hshows⟩
  · obtain ⟨rfl, rfl⟩ := gives_pure_iff.mp hround
    exact ⟨run ++ [k], hall, hdots, _, .inr rfl, hshows⟩
  · split at hround
    · obtain ⟨rfl, rfl⟩ := gives_pure_iff.mp hround
      refine ⟨run ++ [k], hall, ?_⟩
      rw [← List.append_nil ((run ++ [k]).map Lexeme.token)]
      exact .relative hne hdots nofun
    · next hw =>
      obtain ⟨path, d₂, hname, hround⟩ := gives_bind_iff.mp hround
      obtain ⟨rfl, rfl⟩ := gives_pure_iff.mp hround
      obtain ⟨named, hnamed, -, htokens, -⟩ := hsource.tokens_of_dottedName hall.on hname
      refine ⟨run ++ [k] ++ named, hall.trans hnamed, ?_⟩
      rw [List.map_append, htokens]
      refine .relative hne hdots fun hhead => hw ?_
      rw [ImportOrigin.path, head?_of_dottedName hshows hname] at hhead
      exact Option.some.inj hhead
  · exact absurd hround not_gives_failure

/-- The module of an import, behind the word before it. -/
theorem Legible.spellsOrigin {origin : ImportOrigin}
    (hshows : c.Shows (some (.word Keyword.from_))) (h : Gives importOrigin c origin d) :
    ∃ k run, c.Runs source (k :: run) d ∧ k.token = .word Keyword.from_ ∧
      SpellsOrigin origin.path (run.map Lexeme.token) := by
  obtain ⟨t, c₁, hadvance, h⟩ := gives_bind_iff.mp h
  obtain ⟨k, hpassed, hk⟩ := hsource.runs_of_advance hc hshows nofun hadvance
  have hshows := (nesting_of_advance hshows hadvance).2
  have hdotted : ∀ {dot : Token}, dot.isDots → c₁.Shows (some dot) →
      Gives dottedOrigin c₁ origin d → ∃ k run, c.Runs source (k :: run) d ∧
        k.token = .word Keyword.from_ ∧ SpellsOrigin origin.path (run.map Lexeme.token) := by
    intro dot hdot hshows h
    obtain ⟨run, hrun, hspells⟩ := hsource.spellsOrigin_dotted hpassed.on hdot hshows h
    exact ⟨k, run, hpassed.trans hrun, hk, hspells⟩
  split at h
  · next w =>
    split at h
    · next hw =>
      subst hw
      obtain ⟨u, c₂, hpass, h⟩ := gives_bind_iff.mp h
      obtain ⟨rfl, rfl⟩ := gives_pure_iff.mp h
      obtain ⟨k', hfuture, hk'⟩ := hsource.runs_of_pass hpassed.on hshows nofun hpass
      have hspells : SpellsOrigin [Keyword.future_] [.word Keyword.future_] :=
        .absolute (List.cons_ne_nil _ _)
      refine ⟨k, [k'], hpassed.trans hfuture, hk, ?_⟩
      rwa [List.map_singleton, hk']
    · obtain ⟨path, c₂, hname, h⟩ := gives_bind_iff.mp h
      obtain ⟨rfl, rfl⟩ := gives_pure_iff.mp h
      obtain ⟨run, hrun, hne, htokens, -⟩ := hsource.tokens_of_dottedName hpassed.on hname
      exact ⟨k, run, hpassed.trans hrun, hk, htokens ▸ .absolute hne⟩
  · exact hdotted (.inl rfl) hshows h
  · exact hdotted (.inr rfl) hshows h
  · exact absurd h not_gives_failure

end Reading

end SourceSurvey.Syntax
