import QBackend.RunInvariants
import Mathlib.Data.Finset.Card
import Mathlib.Logic.Function.Basic

/-!
# Fan-out of a walk-forward run and its fan-in counter

`tasks/fanin.py`, `tasks/staging.py` and the coordinator, window worker and finalizer of
`api/walkforward_jobs.py`, as one machine. An event is one command of one party: the coordinator,
the worker that holds the message of a window, the broker, or the cancel request of the API. The
broker hands a message out again when its worker dies before the message is acknowledged. Time passes
between the commands, and Redis drops a key when its time to live is over.
-/

namespace QBackend.Tasks

/-! ## The keys of a job in Redis -/

/-- `_TTL_SECONDS`. -/
def ttlSeconds : ℕ := 86400

/-- The seconds that each key has left; none for a key that is missing or does not expire. -/
structure KeyTtl where
  counter : Option ℕ := none
  partials : Option ℕ := none
  cancelled : Option ℕ := none

/-- The fan-in counter, the hash of partial results by window index, and the cancel flag. -/
structure JobKeys (Payload : Type) where
  counter : Option ℤ := none
  partials : List (ℕ × Payload) := []
  cancelled : Bool := false
  ttl : KeyTtl := {}

namespace JobKeys

variable {Payload : Type} (keys : JobKeys Payload)

def initCounter (total : ℕ) : JobKeys Payload :=
  { keys with counter := some total, ttl.counter := some ttlSeconds }

/-- `DECR`: a key that does not exist counts as zero, and the time to live stays what it is. -/
def decrement : ℤ × JobKeys Payload :=
  let remaining := keys.counter.getD 0 - 1
  (remaining, { keys with counter := some remaining })

def setCancelled : JobKeys Payload :=
  { keys with cancelled := true, ttl.cancelled := some ttlSeconds }

def isCancelled : Bool := keys.cancelled

def clearJobKeys : JobKeys Payload :=
  { keys with counter := none, cancelled := false, ttl := { partials := keys.ttl.partials } }

/-- `HSET` and `EXPIRE`: a partial of the same index is overwritten. -/
def stashPartial (index : ℕ) (payload : Payload) : JobKeys Payload :=
  { keys with
    partials := keys.partials.filter (fun p => p.1 ≠ index) ++ [(index, payload)]
    ttl.partials := some ttlSeconds }

def loadPartials : List Payload := keys.partials.map Prod.snd

def clearPartials : JobKeys Payload := { keys with partials := [], ttl.partials := none }

/-- The time to live is over within the seconds. -/
def expires (left : Option ℕ) (seconds : ℕ) : Bool := left.any (· ≤ seconds)

def lessen (left : Option ℕ) (seconds : ℕ) : Option ℕ :=
  if expires left seconds then none else left.map (· - seconds)

/-- What Redis keeps of the keys after the seconds. -/
def elapse (seconds : ℕ) : JobKeys Payload where
  counter := if expires keys.ttl.counter seconds then none else keys.counter
  partials := if expires keys.ttl.partials seconds then [] else keys.partials
  cancelled := keys.cancelled && !expires keys.ttl.cancelled seconds
  ttl := ⟨lessen keys.ttl.counter seconds, lessen keys.ttl.partials seconds,
    lessen keys.ttl.cancelled seconds⟩

/-- The window indices with a partial result. -/
def staged : List ℕ := keys.partials.map Prod.fst

theorem mem_staged_stashPartial {index i : ℕ} {payload : Payload} :
    i ∈ (keys.stashPartial index payload).staged ↔ i = index ∨ i ∈ keys.staged := by
  by_cases h : i = index
  · simp [staged, stashPartial, h]
  · simp [staged, stashPartial, h]

end JobKeys

/-! ## The parties -/

/-- The commands that `finalize_walkforward` has still to give. -/
inductive FinalizePoint (Payload : Type) where
  | loading
  | finishing (windows : List Payload)
  | clearingPartials
  | clearingKeys
  deriving DecidableEq

/-- The message of one window: where it is, and where its worker stands in `run_window`. -/
inductive LeafPoint (Payload : Type) where
  | unsent
  | queued
  | checking
  | working
  | decrementing
  | reporting (remaining : ℤ)
  | finalizing (point : FinalizePoint Payload)
  | returned
  | acknowledged
  deriving DecidableEq

/-- Where the coordinator stands in `dispatch_windows`. -/
inductive CoordinatorPoint (Payload : Type) where
  | checking
  | seeding
  | sending (next : ℕ)
  | finalizing (point : FinalizePoint Payload)
  | returned
  deriving DecidableEq

inductive JobStatus where
  | cancelled | completed | failed
  deriving DecidableEq, Repr

/-- A run with its windows, at least one since `min_windows` is. `finalizeResult` is none where the
aggregation raises. -/
structure Job (Payload Result : Type) where
  total : ℕ
  total_pos : 0 < total
  noResult : ℕ → Payload
  windowIndex : Payload → ℕ
  finalizeResult : List Payload → Option Result

/-- The whole system. `finalizations` records for each call of the finalizer the indices staged at
that moment; `finished` is what the calls wrote to the database. -/
structure FanIn (Payload Result : Type) where
  keys : JobKeys Payload := {}
  coordinator : CoordinatorPoint Payload := .checking
  leaves : ℕ → LeafPoint Payload := fun _ => .unsent
  finalizations : List (List ℕ) := []
  finished : List (JobStatus × Option Result) := []

inductive Event (Payload : Type) where
  /-- The coordinator gives its next command. -/
  | coordinate
  /-- A worker takes the message of a window. -/
  | deliver (index : ℕ)
  /-- The worker of a window gives its next command; the outcome is none where the window raises. -/
  | advance (index : ℕ) (outcome : Option Payload)
  | acknowledge (index : ℕ)
  /-- The worker of a window dies and the broker requeues the message it had not acknowledged. -/
  | workerDies (index : ℕ)
  | requestCancel
  | elapse (seconds : ℕ)

section Steps

variable {Payload Result : Type} (job : Job Payload Result) (s : FanIn Payload Result)

def FanIn.moveLeaf (index : ℕ) (point : LeafPoint Payload) : FanIn Payload Result :=
  { s with leaves := Function.update s.leaves index point }

def FanIn.callFinalizer : FanIn Payload Result :=
  { s with finalizations := s.finalizations ++ [s.keys.staged] }

/-- One command of `finalize_walkforward`, and the point after it unless it returns. -/
def finalizeWalkforward :
    FinalizePoint Payload → FanIn Payload Result × Option (FinalizePoint Payload)
  | .loading =>
    let windows := s.keys.loadPartials.mergeSort
      (fun a b => decide (job.windowIndex a ≤ job.windowIndex b))
    (s, some (.finishing windows))
  | .finishing windows =>
    let result := job.finalizeResult windows
    let status := match result with
      | some _ => if s.keys.isCancelled then .cancelled else .completed
      | none => .failed
    ({ s with finished := s.finished ++ [(status, result)] }, some .clearingPartials)
  | .clearingPartials => ({ s with keys := s.keys.clearPartials }, some .clearingKeys)
  | .clearingKeys => ({ s with keys := s.keys.clearJobKeys }, none)

/-- One command of `dispatch_windows`. -/
def dispatchWindows : FanIn Payload Result :=
  match s.coordinator with
  | .checking =>
    if s.keys.isCancelled then
      { s.callFinalizer with coordinator := .finalizing .loading }
    else { s with coordinator := .seeding }
  | .seeding => { s with keys := s.keys.initCounter job.total, coordinator := .sending 0 }
  | .sending next =>
    if next < job.total then
      { s.moveLeaf next .queued with coordinator := .sending (next + 1) }
    else { s with coordinator := .returned }
  | .finalizing point =>
    let (s', next) := finalizeWalkforward job s point
    { s' with coordinator := (next.map CoordinatorPoint.finalizing).getD .returned }
  | .returned => s

/-- One command of `run_window`. -/
def runWindow (index : ℕ) (outcome : Option Payload) : FanIn Payload Result :=
  match s.leaves index with
  | .checking =>
    s.moveLeaf index (if s.keys.isCancelled then .decrementing else .working)
  | .working =>
    let payload := outcome.getD (job.noResult index)
    { s with keys := s.keys.stashPartial index payload }.moveLeaf index .decrementing
  | .decrementing =>
    let (remaining, keys) := s.keys.decrement
    { s with keys }.moveLeaf index (.reporting remaining)
  | .reporting remaining =>
    if remaining ≤ 0 then s.callFinalizer.moveLeaf index (.finalizing .loading)
    else s.moveLeaf index .returned
  | .finalizing point =>
    let (s', next) := finalizeWalkforward job s point
    s'.moveLeaf index ((next.map LeafPoint.finalizing).getD .returned)
  | .unsent | .queued | .returned | .acknowledged => s

def LeafPoint.running : LeafPoint Payload → Bool
  | .unsent | .queued | .acknowledged => false
  | .checking | .working | .decrementing | .reporting _ | .finalizing _ | .returned => true

def step : FanIn Payload Result → Event Payload → FanIn Payload Result
  | s, .coordinate => dispatchWindows job s
  | s, .deliver index =>
    match s.leaves index with
    | .queued => s.moveLeaf index .checking
    | _ => s
  | s, .advance index outcome => runWindow job s index outcome
  | s, .acknowledge index =>
    match s.leaves index with
    | .returned => s.moveLeaf index .acknowledged
    | _ => s
  | s, .workerDies index =>
    if (s.leaves index).running then s.moveLeaf index .queued else s
  | s, .requestCancel => { s with keys := s.keys.setCancelled }
  | s, .elapse seconds => { s with keys := s.keys.elapse seconds }

/-- Nothing is left to do: the coordinator has returned and every message is acknowledged. -/
def FanIn.Settled : Prop :=
  s.coordinator = .returned ∧ ∀ i < job.total, s.leaves i = .acknowledged

end Steps

end QBackend.Tasks
