import SourceSurvey.Proofs.Definitions.Records
import SourceSurvey.Proofs.Definitions.Tokens

/-!
The parameters of a function by the tokens of its heading. Between the parentheses stand entries with
commas between them. What an entry begins with tells whether it names a parameter and whether it ends
those that can be passed by position, so annotations and defaults do not matter.
-/

namespace SourceSurvey.Syntax

open SourceSurvey.Syntax.Parser

/-- A rule reads some tokens at a place of a source, with comments and layout anywhere among them. -/
def Parser.ReadsTokens {α : Type} (source : List Lexeme) (rule : Parser α) (a : α)
    (tokens : List Token) : Prop :=
  ∃ c run d, c.On (Piece.ofLexemes source) ∧ Gives rule c a d ∧ c.Runs source run d ∧
    run.map Lexeme.token = tokens

section Entries

variable (source : List Lexeme) (rules : Rules)

/-- The tokens of an annotation with the colon before it, or none. -/
inductive SpellsAnnotation : Bool → List Token → Prop
  | none : SpellsAnnotation false []
  | some {tokens : List Token} (h : ReadsTokens source (rules.types true .bracketed) () tokens) :
    SpellsAnnotation true (.symbol .colon :: tokens)

/-- The tokens of a default with the sign before it, or none. -/
inductive SpellsDefault : Bool → List Token → Prop
  | none : SpellsDefault false []
  | some {shape : Shape} {tokens : List Token}
    (h : ReadsTokens source (rules.phrases.expression .bracketed) shape tokens) :
    SpellsDefault true (.symbol .assign :: tokens)

/-- The tokens of an entry of a parameter list. -/
inductive SpellsParameter : Parameter → List Token → Prop
  | named {w : Word} {a d : Bool} {typed value : List Token}
    (htyped : SpellsAnnotation source rules a typed) (hvalue : SpellsDefault source rules d value) :
    SpellsParameter (.named w a d) (.word w :: (typed ++ value))
  | unpacked {shape : Shape} {d : Bool} {inside value : List Token} (hshape : shape.isTarget = true)
    (hinside : ReadsTokens source (parenthesised rules.phrases) shape (.symbol .leftParen :: inside))
    (hvalue : SpellsDefault source rules d value) :
    SpellsParameter (.unpacked d) (.symbol .leftParen :: (inside ++ value))
  | star : SpellsParameter .star [.symbol .star]
  | starred {shape : Shape} {a : Bool} {target typed : List Token} (hshape : shape.isPlace = true)
    (htarget : ReadsTokens source (rules.phrases.operand false .bracketed) shape target)
    (htyped : SpellsAnnotation source rules a typed) :
    SpellsParameter (.starred a) (.symbol .star :: (target ++ typed))
  | doubleStarred {shape : Shape} {a : Bool} {target typed : List Token}
    (hshape : shape.isPlace = true)
    (htarget : ReadsTokens source (rules.phrases.operand false .bracketed) shape target)
    (htyped : SpellsAnnotation source rules a typed) :
    SpellsParameter (.doubleStarred a) (.symbol .doubleStar :: (target ++ typed))
  | slash : SpellsParameter .slash [.symbol .slash]

/-- The tokens between the parentheses of a heading. A comma may come behind the last entry. -/
inductive SpellsParameters : List Parameter → List (List Token) → List Token → Prop
  | none : SpellsParameters [] [] []
  | some {parameters : List Parameter} {entries : List (List Token)} {closing : List Token}
    (hne : entries ≠ []) (hentries : List.Forall₂ (SpellsParameter source rules) parameters entries)
    (hclosing : closing = [] ∨ closing = [.symbol .comma]) :
    SpellsParameters parameters entries (Text.join [.symbol .comma] entries ++ closing)

/-- The tokens of type parameters in brackets, or none. -/
inductive SpellsTypeParameters : List Token → Prop
  | none : SpellsTypeParameters []
  | some {inside : List Token}
    (h : ReadsTokens source (typeArguments rules.types) () (.symbol .leftBracket :: inside)) :
    SpellsTypeParameters (.symbol .leftBracket :: inside)

end Entries

/-- What a source says from a position on begins with the heading of a function, up to the
    parenthesis that closes its parameters. -/
def HeadingAt (source : List Lexeme) (start : Nat) (name : Word) (parameters : List Parameter)
    (entries : List (List Token)) : Prop :=
  ∃ (depth : Nat) (opening typed inside rest : List Token),
    (opening = [.word Keyword.def_] ∨ opening = [.word Keyword.async_, .word Keyword.def_]) ∧
    SpellsTypeParameters source (Rules.upTo depth) typed ∧
    SpellsParameters source (Rules.upTo depth) parameters entries inside ∧
    tokensFrom source start = opening ++ .word name ::
      (typed ++ .symbol .leftParen :: (inside ++ .symbol .rightParen :: rest))

/-- The name that an entry begins with. -/
def leadingName? : List Token → Option Word
  | .word w :: _ => some w
  | _ => none

/-- The names that the entries before the first star begin with. -/
def namesBeforeStar (entries : List (List Token)) : List Word :=
  (entries.takeWhile fun entry => entry.head? ≠ some (.symbol .star)).filterMap leadingName?

section Names

variable {source : List Lexeme} {rules : Rules} {parameters : List Parameter}
  {entries : List (List Token)} {tokens : List Token}

theorem SpellsParameter.endsPositional {p : Parameter} (h : SpellsParameter source rules p tokens) :
    (!p.endsPositional) = decide (tokens.head? ≠ some (.symbol .star)) := by
  cases h <;> rfl

theorem SpellsParameter.name? {p : Parameter} (h : SpellsParameter source rules p tokens) :
    p.name? = leadingName? tokens := by
  cases h <;> rfl

theorem positional_eq (h : List.Forall₂ (SpellsParameter source rules) parameters entries) :
    Parameter.positional parameters = namesBeforeStar entries := by
  rw [Parameter.positional, namesBeforeStar]
  induction h with
  | nil => rfl
  | @cons p entry parameters entries hp _ ih =>
    rw [List.takeWhile_cons, List.takeWhile_cons, hp.endsPositional]
    split
    · rw [List.filterMap_cons, List.filterMap_cons, hp.name?, ih]
    · rfl

end Names

/-! ### Reading -/

/-- Entries that have been read, with a comma behind each. -/
def ReadsEntries (source : List Lexeme) (rules : Rules) (c : Cursor) (parameters : List Parameter)
    (d : Cursor) : Prop :=
  ∃ run entries, c.Runs source run d ∧
    List.Forall₂ (SpellsParameter source rules) parameters entries ∧
    run.map Lexeme.token = entries.flatMap (· ++ [.symbol .comma])

section Reading

variable {source : List Lexeme} {rules : Rules} {c d : Cursor} (hsource : Legible source)
  (hc : c.On (Piece.ofLexemes source))

include hc in
/-- What a rule passes are tokens that it reads. -/
theorem Cursor.On.spells {α : Type} {rule : Parser α} {a : α} (h : Gives rule c a d) :
    ∃ run, c.Runs source run d ∧ ReadsTokens source rule a (run.map Lexeme.token) := by
  obtain ⟨run, hrun⟩ := hc.exists_runs h.reaches
  exact ⟨run, hrun, c, run, d, hc, h, hrun, rfl⟩

include hsource hc

/-- A rule that begins by passing the token at the cursor reads tokens that begin with it. -/
theorem Legible.spells_from {α : Type} {rule : Parser α} {a : α} {e : Expected} {t u : Token}
    {c₁ : Cursor} (hu : c.Shows (some u)) (hcomment : u ≠ .comment)
    (hadvance : Gives (advance e) c t c₁) (hreaches : c₁.Reaches d) (h : Gives rule c a d) :
    ∃ run tokens, c.Runs source run d ∧ run.map Lexeme.token = u :: tokens ∧
      ReadsTokens source rule a (u :: tokens) := by
  obtain ⟨k, hpass, rfl⟩ := hsource.runs_of_advance hc hu hcomment hadvance
  obtain ⟨run, hrun⟩ := hpass.on.exists_runs hreaches
  have hall := hpass.trans hrun
  exact ⟨_, _, hall, rfl, c, _, d, hc, h, hall, rfl⟩

/-- A sign is passed, and what a rule reads behind it. -/
theorem Legible.spells_behind {α : Type} {rule : Parser α} {a : α} {e : Expected} {t u : Token}
    {c₁ : Cursor} (hu : c.Shows (some u)) (hcomment : u ≠ .comment)
    (hadvance : Gives (advance e) c t c₁) (h : Gives rule c₁ a d) :
    ∃ run tokens, c.Runs source run d ∧ run.map Lexeme.token = u :: tokens ∧
      ReadsTokens source rule a tokens := by
  obtain ⟨k, hpass, rfl⟩ := hsource.runs_of_advance hc hu hcomment hadvance
  obtain ⟨run, hrun, hspells⟩ := hpass.on.spells h
  exact ⟨k :: run, _, hpass.trans hrun, rfl, hspells⟩

/-- A sign may be passed, and what a rule reads behind it, or nothing is. -/
theorem Legible.spells_optional (sign : Token) {f : Follow} {rule : Parser Unit} {a : Bool}
    {spells : Bool → List Token → Prop} (hnone : spells false [])
    (hsome : ∀ {c₁ : Cursor}, c₁.On (Piece.ofLexemes source) → Gives rule c₁ () d →
      ∃ run, c₁.Runs source run d ∧ spells true (sign :: run.map Lexeme.token))
    (hcomment : sign ≠ .comment)
    (h : Gives (do
      if (← next f.expected) = sign then
        discard <| advance .operand
        rule
        pure true
      else pure false) c a d) :
    ∃ run, c.Runs source run d ∧ spells a (run.map Lexeme.token) := by
  obtain ⟨t, c₁, hnext, h⟩ := gives_bind_iff.mp h
  have hlook := gives_next_iff.mp hnext
  have hfound := hsource.runs_of_look hc hlook
  split at h
  · next ht =>
    obtain ⟨u, c₂, hadvance, h⟩ := gives_bind_iff.mp h
    obtain ⟨t, hadvance⟩ := gives_discard_iff.mp hadvance
    obtain ⟨v, c₃, hrule, h⟩ := gives_bind_iff.mp h
    obtain ⟨rfl, rfl⟩ := gives_pure_iff.mp h
    have hsign : c₁.Shows (some sign) := ht ▸ (nesting_of_look hlook).2
    obtain ⟨k, hpass, rfl⟩ := hsource.runs_of_advance hfound.on hsign hcomment hadvance
    obtain ⟨run, hrun, hspells⟩ := hsome hpass.on hrule
    exact ⟨k :: run, hfound.trans (hpass.trans hrun), hspells⟩
  · obtain ⟨rfl, rfl⟩ := gives_pure_iff.mp h
    exact ⟨[], hfound, hnone⟩

theorem Legible.spellsAnnotation {a : Bool}
    (h : Gives (annotationPhrase .bracketed (some (rules.types true .bracketed))) c a d) :
    ∃ run, c.Runs source run d ∧ SpellsAnnotation source rules a (run.map Lexeme.token) := by
  refine hsource.spells_optional hc (.symbol .colon) .none (fun hon hhint => ?_) nofun h
  obtain ⟨run, hrun, hspells⟩ := hon.spells hhint
  exact ⟨run, hrun, .some hspells⟩

theorem Legible.spellsDefault {b : Bool} (h : Gives (defaultPhrase rules.phrases .bracketed) c b d) :
    ∃ run, c.Runs source run d ∧ SpellsDefault source rules b (run.map Lexeme.token) := by
  refine hsource.spells_optional hc (.symbol .assign) .none (fun hon hvalue => ?_) nofun h
  obtain ⟨shape, hexpression⟩ := gives_discard_iff.mp hvalue
  obtain ⟨run, hrun, hspells⟩ := hon.spells hexpression
  exact ⟨run, hrun, .some hspells⟩

/-- The target behind stars, with its annotation. -/
theorem Legible.spells_target {t u : Token} {e : Expected} {c₁ c₂ : Cursor} {shape : Shape} {a : Bool}
    (hu : c.Shows (some u)) (hcomment : u ≠ .comment) (hadvance : Gives (advance e) c t c₁)
    (htarget : Gives (rules.phrases.operand false .bracketed) c₁ shape c₂)
    (h : Gives (annotationPhrase .bracketed (some (rules.types true .bracketed))) c₂ a d) :
    ∃ run target typed, c.Runs source run d ∧
      run.map Lexeme.token = u :: (target ++ typed) ∧
      ReadsTokens source (rules.phrases.operand false .bracketed) shape target ∧
      SpellsAnnotation source rules a typed := by
  obtain ⟨run, target, hrun, htokens, hspells⟩ :=
    hsource.spells_behind hc hu hcomment hadvance htarget
  obtain ⟨run', hrun', htyped⟩ := hsource.spellsAnnotation hrun.on h
  exact ⟨run ++ run', target, _, hrun.trans hrun', by rw [List.map_append, htokens]; rfl, hspells,
    htyped⟩

theorem Legible.spellsParameter {p : Parameter}
    (h : Gives (parameter rules.phrases .bracketed (some (rules.types true .bracketed))) c p d) :
    ∃ run, c.Runs source run d ∧ SpellsParameter source rules p (run.map Lexeme.token) := by
  obtain ⟨t, c₁, hhead, h⟩ := gives_bind_iff.mp h
  obtain ⟨hfound, rfl⟩ := gives_head_iff.mp hhead
  have hshows := Cursor.shows_some.mpr hfound
  split at h
  · next w =>
    obtain ⟨u, c₂, hpass, h⟩ := gives_bind_iff.mp h
    obtain ⟨a, c₃, htyped, h⟩ := gives_bind_iff.mp h
    obtain ⟨b, c₄, hvalue, h⟩ := gives_bind_iff.mp h
    obtain ⟨rfl, rfl⟩ := gives_pure_iff.mp h
    obtain ⟨k, hk, htoken⟩ := hsource.runs_of_pass hc hshows nofun hpass
    obtain ⟨run, hrun, htyped⟩ := hsource.spellsAnnotation hk.on htyped
    obtain ⟨run', hrun', hvalue⟩ := hsource.spellsDefault hrun.on hvalue
    refine ⟨k :: (run ++ run'), hk.trans (hrun.trans hrun'), ?_⟩
    rw [List.map_cons, htoken, List.map_append]
    exact .named htyped hvalue
  · obtain ⟨shape, c₂, hpattern, h⟩ := gives_bind_iff.mp h
    obtain ⟨u, c₃, hguard, h⟩ := gives_bind_iff.mp h
    obtain ⟨hshape, rfl⟩ := gives_guard_iff.mp hguard
    obtain ⟨b, c₄, hvalue, h⟩ := gives_bind_iff.mp h
    obtain ⟨rfl, rfl⟩ := gives_pure_iff.mp h
    obtain ⟨t, c₃, hadvance, hbehind⟩ := gives_bind_iff.mp hpattern
    obtain ⟨run, inside, hrun, htokens, hinside⟩ :=
      hsource.spells_from hc hshows nofun hadvance hbehind.reaches hpattern
    obtain ⟨run', hrun', hvalue⟩ := hsource.spellsDefault hrun.on hvalue
    refine ⟨run ++ run', hrun.trans hrun', ?_⟩
    rw [List.map_append, htokens]
    exact .unpacked hshape hinside hvalue
  · obtain ⟨t, c₂, hadvance, h⟩ := gives_bind_iff.mp h
    have hstar : ∀ {q e}, Gives (pure Parameter.star) c₂ q e →
        ∃ run, c.Runs source run e ∧ SpellsParameter source rules q (run.map Lexeme.token) := by
      intro q e h
      obtain ⟨rfl, rfl⟩ := gives_pure_iff.mp h
      obtain ⟨k, hk, htoken⟩ := hsource.runs_of_advance hc hshows nofun hadvance
      exact ⟨[k], hk, by rw [List.map_singleton, htoken]; exact .star⟩
    split at h
    · exact hstar h
    · exact hstar h
    · exact hstar h
    · obtain ⟨shape, c₃, htarget, h⟩ := gives_bind_iff.mp h
      obtain ⟨u, c₄, hguard, h⟩ := gives_bind_iff.mp h
      obtain ⟨hshape, rfl⟩ := gives_guard_iff.mp hguard
      obtain ⟨a, c₅, htyped, h⟩ := gives_bind_iff.mp h
      obtain ⟨rfl, rfl⟩ := gives_pure_iff.mp h
      obtain ⟨run, target, typed, hrun, htokens, htarget, htyped⟩ :=
        hsource.spells_target hc hshows nofun hadvance htarget htyped
      exact ⟨run, hrun, htokens ▸ .starred hshape htarget htyped⟩
  · obtain ⟨u, c₂, hadvance, h⟩ := gives_bind_iff.mp h
    obtain ⟨t, hadvance⟩ := gives_discard_iff.mp hadvance
    obtain ⟨shape, c₃, htarget, h⟩ := gives_bind_iff.mp h
    obtain ⟨v, c₄, hguard, h⟩ := gives_bind_iff.mp h
    obtain ⟨hshape, rfl⟩ := gives_guard_iff.mp hguard
    obtain ⟨a, c₅, htyped, h⟩ := gives_bind_iff.mp h
    obtain ⟨rfl, rfl⟩ := gives_pure_iff.mp h
    obtain ⟨run, target, typed, hrun, htokens, htarget, htyped⟩ :=
      hsource.spells_target hc hshows nofun hadvance htarget htyped
    exact ⟨run, hrun, htokens ▸ .doubleStarred hshape htarget htyped⟩
  · obtain ⟨u, c₂, hpass, h⟩ := gives_bind_iff.mp h
    obtain ⟨rfl, rfl⟩ := gives_pure_iff.mp h
    obtain ⟨k, hk, htoken⟩ := hsource.runs_of_pass hc hshows nofun hpass
    exact ⟨[k], hk, by rw [List.map_singleton, htoken]; exact .slash⟩
  · exact absurd h not_gives_failure

theorem Legible.spellsParameters {parameters : List Parameter}
    (h : Gives (parameterList rules.phrases .bracketed (some (rules.types true .bracketed))
      .rightParen) c parameters d) :
    ∃ run entries, c.Runs source run d ∧
      SpellsParameters source rules parameters entries (run.map Lexeme.token) := by
  obtain ⟨t, c₁, hnext, h⟩ := gives_bind_iff.mp h
  have hfound := hsource.runs_of_look hc (gives_next_iff.mp hnext)
  split at h
  · obtain ⟨rfl, rfl⟩ := gives_pure_iff.mp h
    exact ⟨[], [], hfound, .none⟩
  refine Gives.of_loop
    (fun (before : List Parameter) d => ReadsEntries source rules c before.reverse d)
    (fun parameters d => ∃ run entries, c.Runs source run d ∧
      SpellsParameters source rules parameters entries (run.map Lexeme.token)) ?_ h
    ⟨[], [], hfound, .nil, rfl⟩
  rintro before d r d' ⟨run, entries, hrun, hentries, htokens⟩ hround
  obtain ⟨p, d₁, hp, hround⟩ := gives_bind_iff.mp hround
  obtain ⟨entry, hentry, hspells⟩ := hsource.spellsParameter hrun.on hp
  obtain ⟨u, d₂, hnext, hround⟩ := gives_bind_iff.mp hround
  have hlook := gives_next_iff.mp hnext
  have hall := (hrun.trans hentry).trans (hsource.runs_of_look hentry.on hlook)
  rw [List.append_nil] at hall
  have hmore : List.Forall₂ (SpellsParameter source rules) (p :: before).reverse
      (entries ++ [entry.map Lexeme.token]) := by
    rw [List.reverse_cons]
    exact List.rel_append hentries (.cons hspells .nil)
  have hends : ∀ {closing : List Lexeme} {e : Cursor}, d₂.Runs source closing e →
      (closing.map Lexeme.token = [] ∨ closing.map Lexeme.token = [.symbol .comma]) →
      ∃ run entries, c.Runs source run e ∧
        SpellsParameters source rules (p :: before).reverse entries (run.map Lexeme.token) := by
    intro closing e hclosing hcomma
    refine ⟨_, entries ++ [entry.map Lexeme.token], hall.trans hclosing, ?_⟩
    rw [List.map_append, List.map_append, htokens, ← join_comma_concat]
    exact .some (by simp) hmore hcomma
  split at hround
  · next s =>
    split at hround
    · next hs =>
      subst hs
      obtain ⟨v, d₃, hadvance, hround⟩ := gives_bind_iff.mp hround
      obtain ⟨k, hk, htoken⟩ :=
        hsource.runs_of_advance hall.on (nesting_of_look hlook).2 nofun hadvance
      split at hround
      · obtain ⟨rfl, rfl⟩ := gives_pure_iff.mp hround
        exact hends hk (.inr (by rw [List.map_singleton, htoken]))
      · obtain ⟨rfl, rfl⟩ := gives_pure_iff.mp hround
        refine ⟨_, _, hall.trans hk, hmore, ?_⟩
        simp [htokens, htoken]
    · split at hround
      · obtain ⟨rfl, rfl⟩ := gives_pure_iff.mp hround
        exact hends (.refl hall.on) (.inl rfl)
      · exact absurd hround not_gives_failure
  · exact absurd hround not_gives_failure

theorem Legible.spellsTypeParameters {u : Unit} (h : Gives (typeParameters rules) c u d) :
    ∃ run, c.Runs source run d ∧ SpellsTypeParameters source rules (run.map Lexeme.token) := by
  obtain ⟨t, c₁, hnext, h⟩ := gives_bind_iff.mp h
  have hlook := gives_next_iff.mp hnext
  have hfound := hsource.runs_of_look hc hlook
  split at h
  · next ht =>
    subst ht
    obtain ⟨v, c₂, hadvance, hbehind⟩ := gives_bind_iff.mp h
    obtain ⟨w, hadvance⟩ := gives_discard_iff.mp hadvance
    obtain ⟨run, inside, hrun, htokens, hinside⟩ := hsource.spells_from hfound.on
      (nesting_of_look hlook).2 nofun hadvance hbehind.reaches h
    exact ⟨run, hfound.trans hrun, htokens ▸ .some hinside⟩
  · obtain ⟨rfl, rfl⟩ := gives_pure_iff.mp h
    exact ⟨[], hfound, .none⟩

/-- A heading from its `def` to the parenthesis that closes the parameters. -/
theorem Legible.spellsHeading {name : Word} {parameters : List Parameter}
    (hword : c.Shows (some (.word Keyword.def_)))
    (h : Gives (functionHeading rules) c (name, parameters) d) :
    ∃ typed inside rest entries, SpellsTypeParameters source rules typed ∧
      SpellsParameters source rules parameters entries inside ∧
      (c.bare source).map Lexeme.token = .word Keyword.def_ :: .word name ::
        (typed ++ .symbol .leftParen :: (inside ++ .symbol .rightParen :: rest)) := by
  obtain ⟨c₁, c₂, c₃, c₄, c₅, c₆, hpass, hname, htyped, hopen, hlist, hclose⟩ :=
    of_functionHeading h
  obtain ⟨k, hdef, hk⟩ := hsource.runs_of_pass hc hword nofun hpass
  obtain ⟨k₁, hnamed, hk₁⟩ := hsource.runs_of_expectWord hdef.on hname
  obtain ⟨typed, hrun, hspells⟩ := hsource.spellsTypeParameters hnamed.on htyped
  obtain ⟨k₂, hopened, hk₂⟩ := hsource.runs_of_expect hrun.on hopen
  obtain ⟨inside, entries, hinside, hentries⟩ := hsource.spellsParameters hopened.on hlist
  obtain ⟨k₃, hclosed, hk₃⟩ := hsource.runs_of_expect hinside.on hclose
  refine ⟨typed.map Lexeme.token, inside.map Lexeme.token, (c₆.bare source).map Lexeme.token, entries,
    hspells, hentries, ?_⟩
  have hall := ((((hdef.trans hnamed).trans hrun).trans hopened).trans hinside).trans hclosed
  rw [hall.bare]
  simp [hk, hk₁, hk₂, hk₃]

omit hc in
theorem Legible.headingAt {start : Nat} {name : Word} {kind : DefinitionKind}
    {parameters : List Parameter} (h : Headed (Piece.ofLexemes source) start kind name)
    (hkind : kind = .function parameters) :
    ∃ entries, HeadingAt source start name parameters entries := by
  cases h with
  | @function depth c d name _ hc hword hread =>
    cases hkind
    obtain ⟨typed, inside, rest, entries, htyped, hinside, htokens⟩ :=
      hsource.spellsHeading hc hword hread
    rw [map_token_bare_rest] at htokens
    exact ⟨entries, depth, _, typed, inside, rest, .inl rfl, htyped, hinside, htokens⟩
  | @asyncFunction depth e b c d name _ hb hasync hword hread =>
    cases hkind
    obtain ⟨k, hbefore, hk⟩ := hsource.runs_of_advance hb hasync nofun hword
    obtain ⟨typed, inside, rest, entries, htyped, hinside, htokens⟩ :=
      hsource.spellsHeading hbefore.on (nesting_of_advance hasync hword).2 hread
    have hall : (b.bare source).map Lexeme.token = _ :: _ :=
      (congrArg (List.map Lexeme.token) hbefore.bare).trans (congrArg₂ List.cons hk htokens)
    rw [map_token_bare_rest] at hall
    exact ⟨entries, depth, _, typed, inside, rest, .inr rfl, htyped, hinside, hall⟩
  | classType => cases hkind

end Reading

/-- The parameters of every function of an accepted source, at any depth, are the names that the
    entries of its parameter list begin with, in order and up to the first entry that begins with a
    star. Comments, layout and everything behind the first token of an entry do not matter. -/
theorem parameters_of_definitions {text : List Char} {found : Definitions} {m : Module}
    (hfound : definitions text = .ok found)
    (hmodule : Module.ofPieces (Piece.ofLexemes (lexemes text)) = .ok m) :
    List.Forall₂ (fun e f => ∃ name parameters entries, e.kind = .function parameters ∧
        HeadingAt (lexemes text) e.start name parameters entries ∧ f.name = String.ofList name ∧
        f.parameters = (namesBeforeStar entries).map String.ofList)
      (functionsAmong (Statement.extentsOf m.body)) found.functions := by
  refine (recorded_of_definitions hfound hmodule).1.imp fun e f hrecorded => ?_
  obtain ⟨name, parameters, hkind, hheaded, hname, hparameters⟩ := hrecorded.heading
  obtain ⟨entries, hheading⟩ := (legible_of_ofPieces hmodule).headingAt hheaded hkind
  refine ⟨name, parameters, entries, hkind, hheading, hname, ?_⟩
  obtain ⟨depth, -, -, inside, -, -, -, hinside, -⟩ := hheading
  rw [hparameters]
  cases hinside with
  | none => rfl
  | some _ hentries _ => rw [positional_eq hentries]

/-- A function that takes parameters of several kinds. -/
def parameterSample : List Char :=
  "async def f(a, (b, c), d: int = 1, *, e=2):\n    pass\n".toList

/-- The statements of that source. -/
def parameterBody : List Statement :=
  [.definition [] 0 26 (.function [.named ['a'] false false, .unpacked false,
    .named ['d'] true true, .star, .named ['e'] false true]) ['f'] [.plain 25]]

set_option maxRecDepth 8000 in
theorem parameters_of_definitions_sample : ∃ found m, definitions parameterSample = .ok found ∧
    Module.ofPieces (Piece.ofLexemes (lexemes parameterSample)) = .ok m ∧
    found.functions.map (·.parameters) = [["a", "d"]] ∧
    List.Forall₂ (fun e f => ∃ name parameters entries, e.kind = .function parameters ∧
        HeadingAt (lexemes parameterSample) e.start name parameters entries ∧
        f.name = String.ofList name ∧
        f.parameters = (namesBeforeStar entries).map String.ofList)
      (functionsAmong (Statement.extentsOf m.body)) found.functions := by
  have hmodule : Module.ofPieces (Piece.ofLexemes (lexemes parameterSample)) =
      .ok ⟨false, parameterBody⟩ := by with_unfolding_all rfl
  have hnone : violation (placesOf (lexemes parameterSample)) parameterBody = none := by
    with_unfolding_all rfl
  have hfound := definitions_of_ok hmodule
  rw [hnone] at hfound
  exact ⟨_, _, hfound, hmodule, rfl, parameters_of_definitions hfound hmodule⟩

end SourceSurvey.Syntax
