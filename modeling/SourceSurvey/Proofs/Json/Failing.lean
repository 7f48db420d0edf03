import SourceSurvey.Proofs.Json.Reading

/-!
Readers that fail. A text that a reader cannot read makes everything fail that is made of the reader,
so that a record is refused for whatever is wrong inside it.
-/

namespace SourceSurvey.Json.Reader

variable {α β : Type}

/-- The reader fails on a text, wherever the text stands. -/
def Fails (reader : Reader α) (text : List Char) : Prop :=
  ∀ place, ∃ fault next, reader.on ⟨text, place⟩ = (.error fault, next)

theorem on_bind_of_error {reader : Reader α} {input next : Input} {fault : Fault}
    (h : reader.on input = (.error fault, next)) (f : α → Reader β) :
    (reader >>= f).on input = (.error fault, next) := by
  unfold on at h
  simp only [on, ExceptT.run_bind, StateT.run_bind, h]
  rfl

theorem Fails.bind {reader : Reader α} {text : List Char} (h : Fails reader text)
    (f : α → Reader β) : Fails (reader >>= f) text := fun place =>
  let ⟨fault, next, hread⟩ := h place
  ⟨fault, next, on_bind_of_error hread f⟩

/-- A reader that fails behind what another one takes. -/
theorem Takes.bind_fails {reader : Reader α} {f : α → Reader β} {first second : List Char} {a : α}
    (h : Takes reader first second a) (hf : Fails (f a) second) :
    Fails (reader >>= f) (first ++ second) := fun place =>
  let ⟨fault, next, hread⟩ := hf (place.over first)
  ⟨fault, next, (on_bind_of_ok (h place) f).trans hread⟩

theorem Takes.bind_fails_of_nil {reader : Reader α} {f : α → Reader β} {text : List Char} {a : α}
    (h : Takes reader [] text a) (hf : Fails (f a) text) : Fails (reader >>= f) text :=
  h.bind_fails hf

theorem Goes.fails {reader next : Reader α} {text rest : List Char}
    (h : Goes reader next text rest) (hnext : Fails next rest) : Fails reader (text ++ rest) :=
  fun place =>
    let ⟨fault, final, hread⟩ := hnext (place.over text)
    ⟨fault, final, (h place).trans hread⟩

/-- Whatever the reader gives for a text, if it gives anything, has some property. -/
def Gives (reader : Reader α) (text : List Char) (P : α → Prop) : Prop :=
  ∀ place a next, reader.on ⟨text, place⟩ = (.ok a, next) → P a

theorem gives_pure {P : α → Prop} {a : α} (h : P a) (text : List Char) :
    Gives (pure a) text P := by
  intro place a' next hread
  obtain ⟨rfl⟩ : a = a' := by
    simp only [on_pure, Prod.mk.injEq, Except.ok.injEq] at hread
    exact hread.1
  exact h

theorem Gives.imp {reader : Reader α} {text : List Char} {P Q : α → Prop} (h : Gives reader text P)
    (himp : ∀ a, P a → Q a) : Gives reader text Q := fun place a next hread =>
  himp a (h place a next hread)

/-- What a reader gives is known to the one that goes on behind it. -/
theorem Gives.bind {reader : Reader α} {f : α → Reader β} {text : List Char} {P : α → Prop}
    {Q : β → Prop} (h : Gives reader text P) (hf : ∀ a, P a → ∀ rest, Gives (f a) rest Q) :
    Gives (reader >>= f) text Q := by
  intro place b last hread
  cases hfirst : reader.on ⟨text, place⟩ with
  | mk outcome next =>
    cases outcome with
    | error fault =>
      rw [on_bind_of_error hfirst] at hread
      cases hread
    | ok a =>
      rw [on_bind_of_ok hfirst] at hread
      exact hf a (h place a next hfirst) next.rest next.place b last hread

theorem gives_bind {f : α → Reader β} {Q : β → Prop} (h : ∀ a text, Gives (f a) text Q)
    (reader : Reader α) (text : List Char) : Gives (reader >>= f) text Q :=
  Gives.bind (P := fun _ => True) (fun _ _ _ _ => trivial) fun a _ => h a

theorem Takes.bind_gives {reader : Reader α} {f : α → Reader β} {first second : List Char} {a : α}
    {Q : β → Prop} (h : Takes reader first second a) (hf : Gives (f a) second Q) :
    Gives (reader >>= f) (first ++ second) Q := by
  intro place b last hread
  rw [on_bind_of_ok (h place)] at hread
  exact hf (place.over first) b last hread

theorem Takes.bind_gives_of_nil {reader : Reader α} {f : α → Reader β} {text : List Char} {a : α}
    {Q : β → Prop} (h : Takes reader [] text a) (hf : Gives (f a) text Q) :
    Gives (reader >>= f) text Q := h.bind_gives hf

/-- A reader that fails gives nothing. -/
theorem Fails.gives {reader : Reader α} {text : List Char} (h : Fails reader text) (P : α → Prop) :
    Gives reader text P := by
  intro place a last hread
  obtain ⟨fault, next, herror⟩ := h place
  rw [herror] at hread
  cases hread

/-- A reader fails that goes on to fail with whatever the one before it gives. -/
theorem Gives.bind_fails {reader : Reader α} {f : α → Reader β} {text : List Char} {P : α → Prop}
    (h : Gives reader text P) (hf : ∀ a, P a → ∀ rest, Fails (f a) rest) :
    Fails (reader >>= f) text := by
  intro place
  cases hread : reader.on ⟨text, place⟩ with
  | mk outcome next =>
    cases outcome with
    | error fault => exact ⟨fault, next, on_bind_of_error hread f⟩
    | ok a =>
      rw [on_bind_of_ok hread]
      exact hf a (h place a next hread) next.rest next.place

/-- A reader that fails whatever comes before it. -/
theorem fails_bind {f : α → Reader β} (h : ∀ a text, Fails (f a) text) (reader : Reader α)
    (text : List Char) : Fails (reader >>= f) text :=
  Gives.bind_fails (P := fun _ => True) (fun _ _ _ _ => trivial) fun a _ => h a

/-- A reader that looks at the whole of what is left before it fails. -/
theorem fails_get {f : List Char → Reader α} {text : List Char} (h : Fails (f text) text) :
    Fails (do f (← get).rest) text := fun place =>
  let ⟨fault, next, hread⟩ := h place
  ⟨fault, next, (on_bind_of_ok (on_get _) _).trans hread⟩

theorem fails_throw (fault : Fault) (text : List Char) : Fails (throw fault : Reader α) text :=
  fun place => ⟨fault, ⟨text, place⟩, rfl⟩

theorem fails_failHere (problem : Problem) (text : List Char) :
    Fails (failHere problem : Reader α) text :=
  fails_bind (fun _ => fails_throw _) _ text

theorem fails_failNext (problem : Problem) (text : List Char) :
    Fails (failNext problem : Reader α) text :=
  fails_bind (fun _ => fails_throw _) _ text

theorem fails_failLater (problem : Problem) (text : List Char) :
    Fails (failLater problem : Reader α) text := fails_throw _ text

theorem Fails.map {reader : Reader α} {text : List Char} (h : Fails reader text) (f : α → β) :
    Fails (f <$> reader) text := by
  rw [map_eq_pure_bind]
  exact h.bind _

theorem Fails.placed {reader : Reader α} {text : List Char} (h : Fails reader text) :
    Fails (placed reader) text := by
  intro place
  obtain ⟨fault, next, hread⟩ := h place
  unfold on ExceptT.run at hread
  simp only [Reader.placed, on, tryCatch, tryCatchThe, MonadExceptOf.tryCatch, ExceptT.tryCatch,
    ExceptT.run_mk, StateT.run_bind, hread]
  obtain ⟨problem, found⟩ := fault
  cases found with
  | some _ => exact fails_throw _ next.rest next.place
  | none => exact fails_failHere problem next.rest next.place

/-- The outcome of a reader that fails, as a value. -/
theorem on_run_error {reader : Reader α} {input next : Input} {fault : Fault}
    (h : reader.on input = (.error fault, next)) :
    (liftM (ExceptT.run reader : StateM Input _) : Reader (Except Fault α)).on input =
      (.ok (.error fault), next) := by
  unfold on at h
  simp only [on, liftM, monadLift, MonadLift.monadLift, ExceptT.run_lift, StateT.run_map, h]
  rfl

/-- Brackets whose inside goes on as another one go on as that one in the same brackets. -/
theorem Goes.closedBy {inside next : Reader α} {text rest : List Char}
    (h : Goes inside next text rest) (close : Reader Unit) :
    Goes (closedBy inside close) (Reader.closedBy next close) text rest := by
  intro place
  have hinside := h place
  cases hnext : next.on ⟨rest, place.over text⟩ with
  | mk outcome left =>
    rw [hnext] at hinside
    cases outcome with
    | ok a => rw [Reader.closedBy, Reader.closedBy, on_bind_of_ok (on_run hinside),
        on_bind_of_ok (on_run hnext)]
    | error fault => rw [Reader.closedBy, Reader.closedBy, on_bind_of_ok (on_run_error hinside),
        on_bind_of_ok (on_run_error hnext)]

/-- Where the inside of brackets fails, so does the whole, whatever comes of their end. -/
theorem Fails.closedBy {inside : Reader α} {text : List Char} (h : Fails inside text)
    (close : Reader Unit) : Fails (closedBy inside close) text := by
  intro place
  obtain ⟨fault, next, hread⟩ := h place
  rw [Reader.closedBy, on_bind_of_ok (on_run_error hread)]
  exact fails_bind (fun _ => fails_throw fault) _ next.rest next.place

/-- The end of brackets that fails behind their inside. -/
theorem Takes.closedBy_fails {inside : Reader α} {close : Reader Unit} {text rest : List Char} {a : α}
    (h : Takes inside text rest a) (hclose : Fails close rest) :
    Fails (Reader.closedBy inside close) (text ++ rest) := by
  intro place
  obtain ⟨fault, next, hread⟩ := hclose (place.over text)
  rw [Reader.closedBy, on_bind_of_ok (on_run (h place)), on_bind_of_ok (on_run_error hread)]
  exact fails_throw fault next.rest next.place

/-- A value of another form is never read, however it goes on. -/
theorem fails_unexpected (expected : String) (text : List Char) :
    Fails (unexpected expected : Reader α) text := by
  refine fails_bind (fun found => ?_) _ text
  split
  · exact fails_bind (fun _ => fails_bind (fun _ => fails_failLater _) _) _
  · exact fails_bind (fun _ => fails_bind (fun _ => fails_failLater _) _) _
  · exact fails_bind (fun _ => fails_bind (fun _ => fails_failLater _) _) _
  · exact fails_bind (fun _ => fails_failLater _) _
  · exact fails_failLater _
  · exact fails_failLater _
  · split
    · exact fails_bind (fun _ => fails_failLater _) _
    · exact fails_failNext _
  · exact fails_failNext _

/-- A reader that chooses its way by the first character behind separators, and fails whichever it
    chooses. -/
theorem fails_expecting {expected : String} {choose : Char → Option (Reader α)}
    {gap text : List Char} {c : Char} (hgap : Blank gap) (hc : isSpace c = false)
    (h : ∀ reader, choose c = some reader → Fails reader (c :: text)) :
    Fails (expecting expected choose) (gap ++ c :: text) := by
  refine Fails.placed ((takes_settle hgap (by simp [hc])).bind_fails ?_)
  simp only [List.head?_cons]
  cases hchoose : choose c with
  | none => exact fails_unexpected expected _
  | some reader => exact h reader hchoose

/-- The reader fails on a text behind any separators and in front of anything. -/
def Refuses (reader : Reader α) (text : List Char) : Prop :=
  ∀ gap rest, Blank gap → Fails reader (gap ++ (text ++ rest))

/-- A reader either reads a text or fails on it, whatever stands around it. -/
def Decides (reader : Reader α) (text : List Char) : Prop :=
  (∃ a, Reads reader text a) ∨ Refuses reader text

theorem Reads.not_refuses {reader : Reader α} {text : List Char} {a : α} (h : Reads reader text a) :
    ¬ Refuses reader text := by
  intro hrefuses
  obtain ⟨fault, next, hread⟩ := hrefuses [] [] blank_nil ⟨1, 0⟩
  have htakes := h.takes [] [] blank_nil ends_nil ⟨1, 0⟩
  rw [List.append_assoc, hread] at htakes
  cases htakes

theorem Refuses.map {reader : Reader α} {text : List Char} (h : Refuses reader text) (f : α → β) :
    Refuses (f <$> reader) text := fun gap rest hgap => (h gap rest hgap).map f

theorem Decides.map {reader : Reader α} {text : List Char} (h : Decides reader text) (f : α → β) :
    Decides (f <$> reader) text := by
  obtain ⟨a, hreads⟩ | hrefuses := h
  · exact .inl ⟨f a, hreads.map f⟩
  · exact .inr (hrefuses.map f)

/-- A text that none of the ways begins is refused. -/
theorem refuses_expecting {expected : String} {choose : Char → Option (Reader α)} {text : List Char}
    {c : Char} (hc : isSpace c = false) (hchoose : choose c = none) :
    Refuses (expecting expected choose) (c :: text) := fun gap rest hgap =>
  fails_expecting hgap hc fun reader hreader => by cases hchoose.symm.trans hreader

end SourceSurvey.Json.Reader
