/-!
A pool of workers that share some tasks. The result of a task is made from an input, its end is
reported, and the result is put in its place. Nothing settles which worker takes which task, or whose
turn it is to go on.
-/

namespace SourceSurvey

/-- What a worker has in hand. -/
inductive Worker (β : Type) where
  | idle
  | begun (index : Nat)
  /-- A result whose end is not reported yet. -/
  | made (index : Nat) (result : β)
  /-- A reported result that is not in its place yet. -/
  | reported (index : Nat) (result : β)
  deriving DecidableEq

namespace Worker

variable {β : Type}

/-- Whether a worker has nothing in hand. -/
def isIdle : Worker β → Bool
  | idle => true
  | _ => false

end Worker

/-- The state of a pool. Tasks and places are known by their indices. -/
structure Pool (β : Type) where
  waiting : List Nat
  workers : List (Worker β)
  places : List (Option β)
  /-- The tasks whose end was reported, the latest first. -/
  reports : List Nat

/-- What may happen next. -/
inductive Pool.Action where
  | take (worker index : Nat)
  | proceed (worker : Nat)

namespace Pool

variable {α β : Type}

/-- A pool before anything has happened. There is at least one worker in it. -/
def start (helpers tasks : Nat) : Pool β where
  waiting := List.range tasks
  workers := List.replicate (helpers + 1) .idle
  places := List.replicate tasks none
  reports := []

/-- A worker takes a task that waits. -/
def take (p : Pool β) (worker index : Nat) : Option (Pool β) :=
  match p.workers[worker]? with
  | some .idle =>
    if index ∈ p.waiting then
      some { p with
        waiting := p.waiting.erase index
        workers := p.workers.set worker (.begun index) }
    else none
  | _ => none

/-- A worker goes on with what it has in hand. -/
def proceed (work : α → β) (inputs : List α) (p : Pool β) (worker : Nat) : Option (Pool β) :=
  match p.workers[worker]? with
  | some (.begun index) =>
    inputs[index]?.map fun input =>
      { p with workers := p.workers.set worker (.made index (work input)) }
  | some (.made index result) =>
    some { p with
      workers := p.workers.set worker (.reported index result)
      reports := index :: p.reports }
  | some (.reported index result) =>
    some { p with
      workers := p.workers.set worker .idle
      places := p.places.set index (some result) }
  | _ => none

/-- What becomes of a pool by an action, if the action is possible. -/
def step (work : α → β) (inputs : List α) (p : Pool β) : Action → Option (Pool β)
  | .take worker index => p.take worker index
  | .proceed worker => p.proceed work inputs worker

/-- What becomes of a pool by some actions, one after another. -/
def run (work : α → β) (inputs : List α) (p : Pool β) (actions : List Action) : Option (Pool β) :=
  actions.foldlM (step work inputs) p

/-- The results in the order of their places, once no task is left. -/
def results? (p : Pool β) : Option (List β) :=
  if p.waiting.isEmpty && p.workers.all Worker.isIdle then p.places.mapM id else none

/-- Something that can be done: an idle worker takes the first task that waits, or else a busy worker
    goes on. -/
def next? (p : Pool β) : Option Action :=
  match p.waiting, p.workers.findIdx? Worker.isIdle with
  | index :: _, some worker => some (.take worker index)
  | _, _ => (p.workers.findIdx? fun worker => !worker.isIdle).map .proceed

/-- Does what can be done, a number of times or until nothing is left. -/
def drain (work : α → β) (inputs : List α) : Nat → Pool β → Pool β
  | 0, p => p
  | turns + 1, p =>
    match p.next?.bind (p.step work inputs) with
    | some after => drain work inputs turns after
    | none => p

/-- The results for some inputs from a pool, and the reports. Each task takes four actions. -/
def perform (work : α → β) (inputs : List α) (helpers : Nat) : List β × List Nat :=
  let p := drain work inputs (4 * inputs.length) (start helpers inputs.length)
  (p.results?.getD [], p.reports)

/-- One task without a pool: the result is made, and its end is reported. -/
def task (work : α → β) (input : α × Nat) : StateM (List Nat) β := do
  let result := work input.1
  modify fun reports => input.2 :: reports
  return result

/-- The results for some inputs without a pool, one after another, and the reports. -/
def inTurn (work : α → β) (inputs : List α) : List β × List Nat :=
  (inputs.zipIdx.mapM (task work)).run []

end Pool

end SourceSurvey
