import Mathlib.Algebra.Order.BigOperators.Group.List
import Mathlib.Algebra.Order.Ring.Nat
import Mathlib.Data.List.Count
import SourceSurvey.Pool

/-!
Pools that are run in any order. Every task is in one place at every moment: it waits, a worker has it
in hand, or its result is in its place; and it has been reported once if a worker holds it reported or
its result is in its place. This accounts for every run of a pool, however its workers take turns.
-/

namespace SourceSurvey

namespace Worker

variable {α β : Type}

/-- How many tasks of an index a worker has in hand. -/
def holds (i : Nat) : Worker β → Nat
  | idle => 0
  | begun j | made j _ | reported j _ => if j = i then 1 else 0

/-- How many tasks of an index a worker has in hand whose end was reported. -/
def hasTold (i : Nat) : Worker β → Nat
  | reported j _ => if j = i then 1 else 0
  | _ => 0

/-- How many actions a worker needs before it is idle. -/
def load : Worker β → Nat
  | idle => 0
  | begun _ => 3
  | made .. => 2
  | reported .. => 1

/-- What a worker has in hand belongs to its task. -/
def Carries (work : α → β) (inputs : List α) : Worker β → Prop
  | idle => True
  | begun i => i < inputs.length
  | made i result | reported i result => (inputs[i]?).map work = some result

theorem isIdle_iff {w : Worker β} : w.isIdle = true ↔ w = idle := by
  cases w <;> simp [isIdle]

end Worker

namespace Pool

variable {α β : Type} {work : α → β} {inputs : List α} {p q : Pool β}

/-- Summing over workers, one of which has changed. -/
theorem sum_map_set (f : Worker β → Nat) (after : Worker β) :
    ∀ {workers : List (Worker β)} {i : Nat} {before : Worker β}, workers[i]? = some before →
      ((workers.set i after).map f).sum + f before = (workers.map f).sum + f after
  | worker :: workers, 0, before, h => by
    obtain rfl : worker = before := by simpa using h
    simp only [List.set_cons_zero, List.map_cons, List.sum_cons]
    omega
  | worker :: workers, i + 1, before, h => by
    have ih := sum_map_set f after (show workers[i]? = some before by simpa using h)
    simp only [List.set_cons_succ, List.map_cons, List.sum_cons]
    omega

theorem sum_map_set_of_eq (f : Worker β → Nat) (after : Worker β) {workers : List (Worker β)}
    {i : Nat} {before : Worker β} (h : workers[i]? = some before) (hf : f after = f before) :
    ((workers.set i after).map f).sum = (workers.map f).sum := by
  have hsum := sum_map_set f after h
  omega

/-! ### What one action does -/

/-- An action begins a task, makes its result, reports it, or puts the result in its place. -/
theorem step_cases {a : Action} (h : p.step work inputs a = some q) :
    (∃ w i, p.workers[w]? = some .idle ∧ i ∈ p.waiting ∧
      q = { p with waiting := p.waiting.erase i, workers := p.workers.set w (.begun i) }) ∨
    (∃ w i input, p.workers[w]? = some (.begun i) ∧ inputs[i]? = some input ∧
      q = { p with workers := p.workers.set w (.made i (work input)) }) ∨
    (∃ w i result, p.workers[w]? = some (.made i result) ∧
      q = { p with workers := p.workers.set w (.reported i result), reports := i :: p.reports }) ∨
    (∃ w i result, p.workers[w]? = some (.reported i result) ∧
      q = { p with workers := p.workers.set w .idle, places := p.places.set i (some result) }) := by
  cases a with
  | take w i =>
    simp only [step, take] at h
    split at h
    · next hw =>
      split at h
      · next hi => exact .inl ⟨w, i, hw, hi, (Option.some.inj h).symm⟩
      · cases h
    · cases h
  | proceed w =>
    simp only [step, proceed] at h
    split at h
    · next i hw =>
      obtain ⟨input, hinput, rfl⟩ := Option.map_eq_some_iff.mp h
      exact .inr (.inl ⟨w, i, input, hw, hinput, rfl⟩)
    · next i result hw => exact .inr (.inr (.inl ⟨w, i, result, hw, (Option.some.inj h).symm⟩))
    · next i result hw => exact .inr (.inr (.inr ⟨w, i, result, hw, (Option.some.inj h).symm⟩))
    · cases h

/-- How many actions are left before every task is done. -/
def load (p : Pool β) : Nat := 4 * p.waiting.length + (p.workers.map Worker.load).sum

/-- Every action brings the end nearer by one. -/
theorem load_step {a : Action} (h : p.step work inputs a = some q) : q.load + 1 = p.load := by
  obtain ⟨w, i, hw, hi, rfl⟩ | ⟨w, i, input, hw, -, rfl⟩ | ⟨w, i, result, hw, rfl⟩ |
    ⟨w, i, result, hw, rfl⟩ := step_cases h
  · have hsum := sum_map_set Worker.load (.begun i) hw
    have hlength := List.length_erase_of_mem hi
    have hpos := List.length_pos_of_mem hi
    simp only [load, Worker.load] at hsum ⊢
    omega
  · have hsum := sum_map_set Worker.load (.made i (work input)) hw
    simp only [load, Worker.load] at hsum ⊢
    omega
  · have hsum := sum_map_set Worker.load (.reported i result) hw
    simp only [load, Worker.load] at hsum ⊢
    omega
  · have hsum := sum_map_set Worker.load .idle hw
    simp only [load, Worker.load] at hsum ⊢
    omega

/-- A run takes as many actions as it brings the end nearer. -/
theorem load_run : ∀ {actions : List Action} {p : Pool β}, p.run work inputs actions = some q →
    q.load + actions.length = p.load
  | [], p, h => by
    obtain rfl : p = q := by simpa [run] using h
    rfl
  | a :: actions, p, h => by
    obtain ⟨next, hstep, hrun⟩ := Option.bind_eq_some_iff.mp h
    have hload := load_step hstep
    have ih := load_run (p := next) hrun
    simp only [List.length_cons]
    omega

theorem load_start (helpers tasks : Nat) : (start helpers tasks : Pool β).load = 4 * tasks := by
  simp [load, start, Worker.load]

/-! ### What every run keeps -/

/-- How many results are in the place of an index. -/
def placed (p : Pool β) (i : Nat) : Nat := if p.places[i]?.join.isSome then 1 else 0

/-- Every task is in one place, no end is reported twice or too early, and every result belongs to
    its index. -/
structure Sound (work : α → β) (inputs : List α) (p : Pool β) : Prop where
  staffed : p.workers ≠ []
  length_places : p.places.length = inputs.length
  accounted : ∀ i : Nat, p.waiting.count i + (p.workers.map (Worker.holds i)).sum + p.placed i =
    if i < inputs.length then 1 else 0
  told : ∀ i : Nat, p.reports.count i = (p.workers.map (Worker.hasTold i)).sum + p.placed i
  carries : ∀ w ∈ p.workers, w.Carries work inputs
  fits : ∀ (i : Nat) (result : β), p.places[i]? = some (some result) → (inputs[i]?).map work = some result

theorem sound_start (work : α → β) (inputs : List α) (helpers : Nat) :
    (start helpers inputs.length : Pool β).Sound work inputs where
  staffed := by simp [start]
  length_places := by simp [start]
  accounted i := by
    simp [start, placed, Worker.holds, List.count_range, List.getElem?_replicate]
    split <;> rfl
  told i := by
    simp [start, placed, Worker.hasTold, List.getElem?_replicate]
    split <;> rfl
  carries w hw := by
    obtain ⟨-, rfl⟩ := List.mem_replicate.mp hw
    trivial
  fits i result h := by
    simp [start, List.getElem?_replicate] at h

theorem carries_set {workers : List (Worker β)} {w : Nat} {after : Worker β}
    (h : ∀ worker ∈ workers, worker.Carries work inputs) (hafter : after.Carries work inputs) :
    ∀ worker ∈ workers.set w after, worker.Carries work inputs := by
  intro worker hworker
  obtain hold | rfl := List.mem_or_eq_of_mem_set hworker
  · exact h worker hold
  · exact hafter

/-- A task in hand is one of the tasks, and its place is empty. -/
theorem Sound.place_of_holds (h : p.Sound work inputs) {w i : Nat} {worker : Worker β}
    (hw : p.workers[w]? = some worker) (hi : worker.holds i = 1) :
    i < inputs.length ∧ p.placed i = 0 := by
  have hle : worker.holds i ≤ (p.workers.map (Worker.holds i)).sum :=
    List.le_sum_of_mem (List.mem_map_of_mem (List.mem_of_getElem? hw))
  have haccounted := h.accounted i
  split at haccounted
  · next hlt => exact ⟨hlt, by omega⟩
  · omega

theorem placed_set {p : Pool β} {i : Nat} (result : β) (hi : i < p.places.length) (j : Nat) :
    ({ p with places := p.places.set i (some result) } : Pool β).placed j =
      if i = j then 1 else p.placed j := by
  simp only [placed, List.getElem?_set, hi, if_true]
  split <;> rfl

/-- The task that a worker takes no longer waits. -/
theorem Sound.taken {w i : Nat} (h : p.Sound work inputs) (hw : p.workers[w]? = some .idle)
    (hi : i ∈ p.waiting) :
    Sound work inputs
      { p with waiting := p.waiting.erase i, workers := p.workers.set w (.begun i) } := by
  have hcount : 0 < p.waiting.count i := List.count_pos_iff.mpr hi
  refine ⟨by simp [h.staffed], h.length_places, fun j => ?_, fun j => ?_, ?_, h.fits⟩
  · have hsum := sum_map_set (Worker.holds j) (.begun i) hw
    rw [← h.accounted j]
    simp only [Worker.holds, List.count_erase, beq_iff_eq, placed] at hsum ⊢
    by_cases hij : i = j
    · subst hij
      simp only [if_true] at hsum ⊢
      omega
    · simp only [hij, if_false, Nat.add_zero, Nat.sub_zero] at hsum ⊢
      rw [hsum]
  · rw [sum_map_set_of_eq (Worker.hasTold j) (.begun i) hw rfl]
    exact h.told j
  · refine carries_set h.carries (show i < inputs.length from ?_)
    have haccounted := h.accounted i
    split at haccounted
    · assumption
    · omega

/-- The result that a worker makes is the one of its task. -/
theorem Sound.made {w i : Nat} {input : α} (h : p.Sound work inputs)
    (hw : p.workers[w]? = some (.begun i)) (hinput : inputs[i]? = some input) :
    Sound work inputs { p with workers := p.workers.set w (.made i (work input)) } := by
  refine ⟨by simp [h.staffed], h.length_places, fun j => ?_, fun j => ?_, ?_, h.fits⟩
  · rw [sum_map_set_of_eq (Worker.holds j) (.made i (work input)) hw rfl]
    exact h.accounted j
  · rw [sum_map_set_of_eq (Worker.hasTold j) (.made i (work input)) hw rfl]
    exact h.told j
  · refine carries_set h.carries ?_
    simp only [Worker.Carries, hinput, Option.map_some]

/-- The end that a worker reports was not reported before. -/
theorem Sound.reported {w i : Nat} {result : β} (h : p.Sound work inputs)
    (hw : p.workers[w]? = some (.made i result)) :
    Sound work inputs
      { p with workers := p.workers.set w (.reported i result), reports := i :: p.reports } := by
  have hcarries := h.carries _ (List.mem_of_getElem? hw)
  refine ⟨by simp [h.staffed], h.length_places, fun j => ?_, fun j => ?_, ?_, h.fits⟩
  · rw [sum_map_set_of_eq (Worker.holds j) (.reported i result) hw rfl]
    exact h.accounted j
  · have hsum := sum_map_set (Worker.hasTold j) (.reported i result) hw
    have htold := h.told j
    simp only [Worker.hasTold, Nat.add_zero] at hsum
    simp only [hsum, List.count_cons, beq_iff_eq, htold, placed]
    omega
  · exact carries_set h.carries hcarries

/-- The result that a worker puts away comes to a place that was empty. -/
theorem Sound.put {w i : Nat} {result : β} (h : p.Sound work inputs)
    (hw : p.workers[w]? = some (.reported i result)) :
    Sound work inputs
      { p with workers := p.workers.set w .idle, places := p.places.set i (some result) } := by
  have hcarries := h.carries _ (List.mem_of_getElem? hw)
  obtain ⟨hlt, hempty⟩ := h.place_of_holds (i := i) hw (by simp [Worker.holds])
  have hplaces : i < p.places.length := by rw [h.length_places]; exact hlt
  refine ⟨by simp [h.staffed], by simp [h.length_places], fun j => ?_, fun j => ?_,
    carries_set h.carries trivial, ?_⟩
  · have hsum := sum_map_set (Worker.holds j) .idle hw
    have haccounted := h.accounted j
    have hplaced := placed_set result hplaces j
    simp only [Worker.holds] at hsum
    simp only [placed] at hplaced haccounted hempty ⊢
    rw [hplaced]
    by_cases hij : i = j
    · subst hij
      simp only [if_true] at hsum ⊢
      omega
    · simp only [hij, if_false, Nat.add_zero] at hsum ⊢
      omega
  · have hsum := sum_map_set (Worker.hasTold j) .idle hw
    have htold := h.told j
    have hplaced := placed_set result hplaces j
    simp only [Worker.hasTold] at hsum
    simp only [placed] at hplaced htold hempty ⊢
    rw [hplaced]
    by_cases hij : i = j
    · subst hij
      simp only [if_true] at hsum ⊢
      omega
    · simp only [hij, if_false, Nat.add_zero] at hsum ⊢
      omega
  · intro j other hj
    rw [List.getElem?_set] at hj
    split at hj
    · next hij =>
      subst hij
      obtain rfl : result = other := by simpa [hplaces] using hj
      exact hcarries
    · exact h.fits j other hj

/-- No action loses, repeats or misplaces anything. -/
theorem Sound.step {a : Action} (h : p.Sound work inputs) (hstep : p.step work inputs a = some q) :
    q.Sound work inputs := by
  obtain ⟨w, i, hw, hi, rfl⟩ | ⟨w, i, input, hw, hinput, rfl⟩ | ⟨w, i, result, hw, rfl⟩ |
    ⟨w, i, result, hw, rfl⟩ := step_cases hstep
  · exact h.taken hw hi
  · exact h.made hw hinput
  · exact h.reported hw
  · exact h.put hw

/-- What every action keeps, every run keeps. -/
theorem Sound.run : ∀ {actions : List Action} {p : Pool β}, p.Sound work inputs →
    p.run work inputs actions = some q → q.Sound work inputs
  | [], p, h, hrun => by
    obtain rfl : p = q := by simpa [Pool.run] using hrun
    exact h
  | a :: actions, p, h, hrun => by
    obtain ⟨next, hstep, hrun⟩ := Option.bind_eq_some_iff.mp hrun
    exact Sound.run (h.step hstep) hrun

/-! ### The end of a run -/

/-- Nothing waits, and no worker has anything in hand. -/
def Finished (p : Pool β) : Prop := p.waiting = [] ∧ ∀ w ∈ p.workers, w = .idle

theorem results?_of_not_finished (h : ¬ p.Finished) : p.results? = none := by
  rw [results?, if_neg]
  intro hdone
  rw [Bool.and_eq_true, List.isEmpty_iff, List.all_eq_true] at hdone
  exact h ⟨hdone.1, fun w hw => Worker.isIdle_iff.mp (hdone.2 w hw)⟩

theorem mapM_id_map_some (results : List β) : (results.map some).mapM id = some results := by
  induction results with
  | nil => rfl
  | cons result results ih => rw [List.map_cons, List.mapM_cons, ih]; rfl

/-- In the end every result is in its place, and every task has been reported once. -/
theorem Sound.finished (h : p.Sound work inputs) (hdone : p.Finished) :
    p.results? = some (inputs.map work) ∧ p.reports.Perm (List.range inputs.length) := by
  obtain ⟨hwaiting, hidle⟩ := hdone
  have hworkers : p.workers = List.replicate p.workers.length .idle :=
    List.eq_replicate_iff.mpr ⟨rfl, hidle⟩
  have hplaced : ∀ i, p.placed i = if i < inputs.length then 1 else 0 := by
    intro i
    have haccounted := h.accounted i
    rw [hwaiting, hworkers] at haccounted
    simpa [Worker.holds] using haccounted
  have hplaces : p.places = (inputs.map work).map some := by
    refine List.ext_getElem? fun i => ?_
    have hi := hplaced i
    by_cases hlt : i < inputs.length
    · rw [if_pos hlt, placed] at hi
      have hsome : p.places[i]?.join.isSome := by by_contra hnone; simp [hnone] at hi
      obtain ⟨result, hresult⟩ := Option.isSome_iff_exists.mp hsome
      have hplace := Option.join_eq_some_iff.mp hresult
      have hfits := h.fits i result hplace
      rw [hplace, List.map_map, List.getElem?_map, ← Option.map_map, hfits]
      rfl
    · rw [List.getElem?_eq_none (by rw [h.length_places]; omega),
        List.getElem?_eq_none (by simp; omega)]
  constructor
  · rw [results?, if_pos, hplaces, mapM_id_map_some]
    rw [hwaiting, hworkers]
    simp [Worker.isIdle]
  · refine List.perm_iff_count.mpr fun i => ?_
    have htold := h.told i
    rw [hworkers, hplaced] at htold
    rw [htold, List.count_range]
    simp [Worker.hasTold]

theorem Sound.of_results? (h : p.Sound work inputs) {results : List β}
    (hresults : p.results? = some results) :
    results = inputs.map work ∧ p.reports.Perm (List.range inputs.length) := by
  by_cases hdone : p.Finished
  · obtain ⟨hall, hreports⟩ := h.finished hdone
    rw [hall] at hresults
    exact ⟨(Option.some.inj hresults).symm, hreports⟩
  · rw [results?_of_not_finished hdone] at hresults
    cases hresults

theorem exists_take (work : α → β) (inputs : List α) {w i : Nat}
    (hw : p.workers[w]? = some .idle) (hi : i ∈ p.waiting) :
    ∃ q, p.step work inputs (.take w i) = some q := by
  simp only [step, take, hw, hi, if_true]
  exact ⟨_, rfl⟩

theorem Sound.exists_proceed (h : p.Sound work inputs) {w : Nat} {worker : Worker β}
    (hw : p.workers[w]? = some worker) (hbusy : worker.isIdle = false) :
    ∃ q, p.step work inputs (.proceed w) = some q := by
  have hcarries := h.carries worker (List.mem_of_getElem? hw)
  cases worker with
  | idle => cases hbusy
  | begun i =>
    have hi : i < inputs.length := hcarries
    simp only [Pool.step, proceed, hw, List.getElem?_eq_getElem hi, Option.map_some]
    exact ⟨_, rfl⟩
  | made i result =>
    simp only [Pool.step, proceed, hw]
    exact ⟨_, rfl⟩
  | reported i result =>
    simp only [Pool.step, proceed, hw]
    exact ⟨_, rfl⟩

theorem getElem?_of_findIdx? {f : Worker β → Bool} {workers : List (Worker β)} {w : Nat}
    (h : workers.findIdx? f = some w) : ∃ worker, workers[w]? = some worker ∧ f worker = true := by
  obtain ⟨hlt, hf, -⟩ := List.findIdx?_eq_some_iff_getElem.mp h
  exact ⟨workers[w], List.getElem?_eq_getElem hlt, hf⟩

/-- A pool that is not finished has something to do. -/
theorem Sound.exists_next (h : p.Sound work inputs) (hdone : ¬ p.Finished) :
    ∃ a q, p.next? = some a ∧ p.step work inputs a = some q := by
  -- a busy worker is there unless a task waits for an idle one
  have hproceed (hbusy : ∃ worker ∈ p.workers, worker.isIdle = false) :
      ∃ w q, p.workers.findIdx? (fun worker => !worker.isIdle) = some w ∧
        p.step work inputs (.proceed w) = some q := by
    obtain ⟨worker, hmem, hworker⟩ := hbusy
    cases hfind : p.workers.findIdx? (fun worker => !worker.isIdle) with
    | none =>
      have hidle := List.findIdx?_eq_none_iff.mp hfind worker hmem
      simp [hworker] at hidle
    | some w =>
      obtain ⟨worker, hw, hbusy⟩ := getElem?_of_findIdx? hfind
      obtain ⟨q, hstep⟩ := h.exists_proceed hw (by simpa using hbusy)
      exact ⟨w, q, rfl, hstep⟩
  cases hwaiting : p.waiting with
  | nil =>
    have hbusy : ∃ worker ∈ p.workers, worker.isIdle = false := by
      by_contra hnone
      refine hdone ⟨hwaiting, fun worker hmem => Worker.isIdle_iff.mp ?_⟩
      by_contra hworker
      exact hnone ⟨worker, hmem, by simpa using hworker⟩
    obtain ⟨w, q, hfind, hstep⟩ := hproceed hbusy
    exact ⟨.proceed w, q, by simp [next?, hwaiting, hfind], hstep⟩
  | cons i waiting =>
    cases hidle : p.workers.findIdx? Worker.isIdle with
    | some w =>
      obtain ⟨worker, hw, hworker⟩ := getElem?_of_findIdx? hidle
      obtain rfl := Worker.isIdle_iff.mp hworker
      have hi : i ∈ p.waiting := by simp [hwaiting]
      obtain ⟨q, hstep⟩ := exists_take work inputs hw hi
      exact ⟨.take w i, q, by simp [next?, hwaiting, hidle], hstep⟩
    | none =>
      obtain ⟨worker, hmem⟩ := List.exists_mem_of_ne_nil _ h.staffed
      obtain ⟨w, q, hfind, hstep⟩ :=
        hproceed ⟨worker, hmem, List.findIdx?_eq_none_iff.mp hidle worker hmem⟩
      exact ⟨.proceed w, q, by simp [next?, hwaiting, hidle, hfind], hstep⟩

theorem load_eq_zero_of_finished (hdone : p.Finished) : p.load = 0 := by
  obtain ⟨hwaiting, hidle⟩ := hdone
  have hworkers : (p.workers.map Worker.load).sum = 0 := by
    refine List.sum_eq_zero fun n hn => ?_
    obtain ⟨worker, hmem, rfl⟩ := List.mem_map.mp hn
    rw [hidle worker hmem, Worker.load]
  rw [load, hwaiting, hworkers]
  rfl

theorem finished_of_load_eq_zero (hload : p.load = 0) : p.Finished := by
  obtain ⟨hwaiting, hworkers⟩ := Nat.add_eq_zero_iff.mp hload
  refine ⟨List.eq_nil_of_length_eq_zero (by omega), fun worker hmem => ?_⟩
  have hle := List.le_sum_of_mem (List.mem_map_of_mem (f := Worker.load) hmem)
  cases worker with
  | idle => rfl
  | begun i => simp only [Worker.load] at hle; omega
  | made i result => simp only [Worker.load] at hle; omega
  | reported i result => simp only [Worker.load] at hle; omega

/-- Enough turns bring every pool to its end, by some actions. -/
theorem Sound.drain : ∀ {turns : Nat} {p : Pool β}, p.Sound work inputs → p.load ≤ turns →
    (p.drain work inputs turns).Finished ∧
      ∃ actions, p.run work inputs actions = some (p.drain work inputs turns)
  | 0, p, h, hload => ⟨(finished_of_load_eq_zero (Nat.le_zero.mp hload) : p.Finished), [], rfl⟩
  | turns + 1, p, h, hload => by
    cases hnext : p.next?.bind (p.step work inputs) with
    | none =>
      have hdone : p.Finished := by
        by_contra hdone
        obtain ⟨a, q, ha, hstep⟩ := h.exists_next hdone
        rw [ha, Option.bind_some, hstep] at hnext
        cases hnext
      rw [Pool.drain, hnext]
      exact ⟨hdone, [], rfl⟩
    | some q =>
      obtain ⟨a, -, hstep⟩ := Option.bind_eq_some_iff.mp hnext
      have hless := load_step hstep
      have hturns : q.load ≤ turns := by omega
      obtain ⟨hfinished, actions, hrun⟩ := (h.step hstep).drain hturns
      rw [Pool.drain, hnext]
      exact ⟨hfinished, a :: actions, Option.bind_eq_some_iff.mpr ⟨q, hstep, hrun⟩⟩

/-- A pool gives the results in the order of the inputs, and reports every task once. -/
theorem perform_eq (work : α → β) (inputs : List α) (helpers : Nat) :
    (perform work inputs helpers).1 = inputs.map work ∧
      (perform work inputs helpers).2.Perm (List.range inputs.length) := by
  have hsound := sound_start work inputs helpers
  have hload := load_start (β := β) helpers inputs.length
  obtain ⟨hfinished, actions, hrun⟩ := hsound.drain hload.le
  obtain ⟨hresults, hreports⟩ := (hsound.run hrun).finished hfinished
  rw [perform]
  exact ⟨by rw [hresults, Option.getD_some], hreports⟩

/-! ### Without a pool -/

theorem run_mapM_task (work : α → β) : ∀ (inputs : List α) (k : Nat) (reports : List Nat),
    ((inputs.zipIdx k).mapM (task work)).run reports =
      (inputs.map work, (List.range' k inputs.length).reverse ++ reports)
  | [], k, reports => rfl
  | input :: inputs, k, reports => by
    have ih := run_mapM_task work inputs (k + 1) (k :: reports)
    rw [List.zipIdx_cons, List.mapM_cons, List.map_cons, List.length_cons, List.range'_succ,
      List.reverse_cons, List.append_assoc]
    simp only [task, StateT.run_bind, StateT.run_modify, StateT.run_pure, pure_bind, ih]
    rfl

/-- Without a pool the same results come out, and every task is reported once as well. -/
theorem inTurn_eq (work : α → β) (inputs : List α) :
    inTurn work inputs = (inputs.map work, (List.range inputs.length).reverse) := by
  rw [inTurn, run_mapM_task, List.append_nil, List.range_eq_range']

end Pool

end SourceSurvey
