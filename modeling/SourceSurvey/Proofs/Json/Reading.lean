import SourceSurvey.Json.Form

/-!
How readers act on their input. `Reader.Takes` says that a reader takes exactly some text off the
input and gives a value, whatever stands around it; readers that are made of others are then judged
part by part.
-/

namespace SourceSurvey.Json

variable {α β : Type}

/-- The place behind a text. -/
def Place.over (place : Place) (text : List Char) : Place := text.foldl Place.after place

@[simp] theorem Place.over_cons (place : Place) (c : Char) (text : List Char) :
    place.over (c :: text) = (place.after c).over text := rfl

theorem Place.over_append (place : Place) (first second : List Char) :
    place.over (first ++ second) = (place.over first).over second :=
  List.foldl_append ..

/-- What may follow a value: nothing, a separator, a comma or a closing bracket. -/
def Ends (rest : List Char) : Prop :=
  ∀ c, rest.head? = some c → isSpace c = true ∨ c = ',' ∨ c = ']' ∨ c = '\x7d'

theorem ends_nil : Ends [] := nofun

theorem ends_cons {c : Char} (h : isSpace c = true ∨ c = ',' ∨ c = ']' ∨ c = '\x7d')
    (rest : List Char) : Ends (c :: rest) := fun _ hc => Option.some.inj hc ▸ h

namespace Reader

/-- What a reader gives for an input, and the input that it leaves. -/
def on (reader : Reader α) (input : Input) : Except Fault α × Input :=
  StateT.run (ExceptT.run reader : StateM Input _) input

@[simp] theorem on_pure (a : α) (input : Input) :
    (pure a : Reader α).on input = (.ok a, input) := rfl

theorem on_get (input : Input) : (get : Reader Input).on input = (.ok input, input) := rfl

theorem on_set (input next : Input) : (set next : Reader Unit).on input = (.ok (), next) := rfl

theorem on_modify (f : Input → Input) (input : Input) :
    (modify f : Reader Unit).on input = (.ok (), f input) := rfl

/-- A reader that goes on behind another one starts on what that one leaves. -/
theorem on_bind_of_ok {reader : Reader α} {input next : Input} {a : α}
    (h : reader.on input = (.ok a, next)) (f : α → Reader β) :
    (reader >>= f).on input = (f a).on next := by
  unfold on at h
  simp only [on, ExceptT.run_bind, StateT.run_bind, h]
  rfl

/-- The outcome of a reader that succeeds, as a value. -/
theorem on_run {reader : Reader α} {input next : Input} {a : α}
    (h : reader.on input = (.ok a, next)) :
    (liftM (ExceptT.run reader : StateM Input _) : Reader (Except Fault α)).on input =
      (.ok (.ok a), next) := by
  unfold on at h
  simp only [on, liftM, monadLift, MonadLift.monadLift, ExceptT.run_lift, StateT.run_map, h]
  rfl

/-- The reader takes a text off the input, of which some rest is left, and gives a value. -/
def Takes (reader : Reader α) (text rest : List Char) (a : α) : Prop :=
  ∀ place, reader.on ⟨text ++ rest, place⟩ = (.ok a, ⟨rest, place.over text⟩)

theorem takes_pure (a : α) (rest : List Char) : Takes (pure a) [] rest a := fun _ => rfl

theorem Takes.bind {reader : Reader α} {f : α → Reader β} {first second rest : List Char}
    {a : α} {b : β} (h : Takes reader first (second ++ rest) a) (hf : Takes (f a) second rest b) :
    Takes (reader >>= f) (first ++ second) rest b := by
  intro place
  rw [List.append_assoc, on_bind_of_ok (h place), hf, Place.over_append]

/-- A reader that takes nothing before it goes on, such as one that only looks ahead. -/
theorem Takes.bind_of_nil {reader : Reader α} {f : α → Reader β} {text rest : List Char}
    {a : α} {b : β} (h : Takes reader [] (text ++ rest) a) (hf : Takes (f a) text rest b) :
    Takes (reader >>= f) text rest b := by
  have hboth := h.bind hf
  rwa [List.nil_append] at hboth

/-- A reader that takes nothing once it goes on, such as one that only gives its value. -/
theorem Takes.bind_nil {reader : Reader α} {f : α → Reader β} {text rest : List Char}
    {a : α} {b : β} (h : Takes reader text rest a) (hf : Takes (f a) [] rest b) :
    Takes (reader >>= f) text rest b := by
  intro place
  rw [on_bind_of_ok (h place)]
  exact hf (place.over text)

theorem Takes.map {reader : Reader α} {text rest : List Char} {a : α}
    (h : Takes reader text rest a) (f : α → β) : Takes (f <$> reader) text rest (f a) := by
  intro place
  rw [map_eq_pure_bind, on_bind_of_ok (h place), on_pure]

/-- The reader takes a text off the input, of which some rest is left, and goes on as another
    reader. -/
def Goes (reader next : Reader α) (text rest : List Char) : Prop :=
  ∀ place, reader.on ⟨text ++ rest, place⟩ = next.on ⟨rest, place.over text⟩

theorem Takes.goes {reader : Reader α} {text rest : List Char} {a : α} (h : Takes reader text rest a)
    (f : α → Reader β) : Goes (reader >>= f) (f a) text rest := fun place =>
  on_bind_of_ok (h place) f

theorem Goes.trans {reader middle last : Reader α} {first second rest : List Char}
    (h : Goes reader middle first (second ++ rest)) (hmiddle : Goes middle last second rest) :
    Goes reader last (first ++ second) rest := by
  intro place
  rw [List.append_assoc, h place, hmiddle, Place.over_append]

theorem Goes.takes {reader next : Reader α} {first second rest : List Char} {a : α}
    (h : Goes reader next first (second ++ rest)) (hnext : Takes next second rest a) :
    Takes reader (first ++ second) rest a := by
  intro place
  rw [List.append_assoc, h place, hnext, Place.over_append]

/-- A reader that looks at the whole of what is left first. -/
theorem takes_get {f : List Char → Reader α} {text rest : List Char} {a : α}
    (h : Takes (f (text ++ rest)) text rest a) :
    Takes (do f (← get).rest) text rest a := by
  intro place
  rw [on_bind_of_ok (on_get _)]
  exact h place

theorem takes_peek (rest : List Char) : Takes peek [] rest rest.head? := fun _ => rfl

theorem takes_advance (c : Char) (rest : List Char) : Takes advance [c] rest () := fun _ => rfl

/-- A reader that passes over one character before it goes on. -/
theorem takes_advance_bind {f : Unit → Reader α} {text rest : List Char} {a : α}
    (h : Takes (f ()) text rest a) (c : Char) : Takes (advance >>= f) (c :: text) rest a := by
  have hboth := (takes_advance c (text ++ rest)).bind h
  rwa [List.singleton_append] at hboth

/-- A run ends in front of the first character that is not of its class. -/
theorem takes_run {class? : Char → Bool} {text rest : List Char} (htext : text.all class?)
    (hrest : ¬ rest.head?.any class?) : Takes (run class?) text rest text := by
  intro place
  have hall : ∀ c ∈ text, class? c = true := List.all_eq_true.mp htext
  have htake : rest.takeWhile class? = [] := by
    cases rest with
    | nil => rfl
    | cons c rest => exact List.takeWhile_cons_of_neg (by simpa using hrest)
  have hdrop : rest.dropWhile class? = rest := by
    cases rest with
    | nil => rfl
    | cons c rest => exact List.dropWhile_cons_of_neg (by simpa using hrest)
  rw [run, on_bind_of_ok (on_get _), on_bind_of_ok (on_set ..)]
  simp [Input.skipWhile, List.takeWhile_append_of_pos hall, List.dropWhile_append_of_pos hall,
    htake, hdrop, Place.over]

theorem takes_run_nil {class? : Char → Bool} {rest : List Char}
    (hrest : ¬ rest.head?.any class?) : Takes (run class?) [] rest [] :=
  takes_run rfl hrest

/-- A text of nothing but separators. -/
def Blank (text : List Char) : Prop := text.all isSpace = true

theorem blank_nil : Blank [] := rfl

theorem Blank.ends {text : List Char} (h : Blank text) : Ends text := fun _ hc =>
  .inl (List.all_eq_true.mp h _ (List.mem_of_mem_head? hc))

/-- Separators are passed over; the character behind them is next. -/
theorem takes_settle {gap rest : List Char} (hgap : Blank gap) (hrest : ¬ rest.head?.any isSpace) :
    Takes settle gap rest rest.head? := by
  intro place
  have h := takes_run hgap hrest place
  have hskip : Input.skipWhile isSpace ⟨gap ++ rest, place⟩ = ⟨rest, place.over gap⟩ :=
    congrArg Prod.snd h
  rw [settle, on_bind_of_ok (on_modify ..), hskip]
  rfl

theorem Takes.placed {reader : Reader α} {text rest : List Char} {a : α}
    (h : Takes reader text rest a) : Takes (placed reader) text rest a := by
  intro place
  have hreader := h place
  unfold on ExceptT.run at hreader
  simp only [Reader.placed, on, tryCatch, tryCatchThe, MonadExceptOf.tryCatch, ExceptT.tryCatch,
    ExceptT.run_mk, StateT.run_bind, hreader]
  rfl

/-- The inside of brackets and their end are taken one after the other. -/
theorem Takes.closedBy {inside : Reader α} {close : Reader Unit} {text closer rest : List Char}
    {a : α} (h : Takes inside text (closer ++ rest) a) (hclose : Takes close closer rest ()) :
    Takes (closedBy inside close) (text ++ closer) rest a := by
  intro place
  have hinside := h place
  have hend := hclose (place.over text)
  rw [List.append_assoc, Place.over_append, Reader.closedBy, on_bind_of_ok (on_run hinside),
    on_bind_of_ok (on_run hend)]
  rfl

/-- A reader that chooses its way by the first character behind separators. -/
theorem takes_expecting {expected : String} {choose : Char → Option (Reader α)} {reader : Reader α}
    {gap text rest : List Char} {c : Char} {a : α} (hgap : Blank gap) (hc : isSpace c = false)
    (hchoose : choose c = some reader) (h : Takes reader (c :: text) rest a) :
    Takes (expecting expected choose) (gap ++ c :: text) rest a := by
  refine Takes.placed ((takes_settle hgap (by simp [hc])).bind ?_)
  simpa [hchoose] using h

/-- A text that can stand as an element: it begins with neither a separator nor a closing
    bracket. -/
def Begins (text : List Char) : Prop :=
  ∃ c rest, text = c :: rest ∧ isSpace c = false ∧ c ≠ ']'

theorem Begins.append {text : List Char} (h : Begins text) (rest : List Char) :
    Begins (text ++ rest) := by
  obtain ⟨c, tail, rfl, hc, hclose⟩ := h
  exact ⟨c, tail ++ rest, rfl, hc, hclose⟩

theorem Begins.head_not_space {text : List Char} (h : Begins text) :
    ¬ text.head?.any isSpace := by
  obtain ⟨c, tail, rfl, hc, -⟩ := h
  simp [hc]

/-- The reader reads a text as a value, behind any separators and in front of anything that may follow
    a value. -/
structure Reads (reader : Reader α) (text : List Char) (a : α) : Prop where
  begins : Begins text
  takes : ∀ gap rest, Blank gap → Ends rest → Takes reader (gap ++ text) rest a

theorem Reads.map {reader : Reader α} {text : List Char} {a : α} (h : Reads reader text a)
    (f : α → β) : Reads (f <$> reader) text (f a) :=
  ⟨h.begins, fun gap rest hgap hends => (h.takes gap rest hgap hends).map f⟩

end Reader

end SourceSurvey.Json
