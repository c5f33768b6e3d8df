import QBackend.FanIn
import QBackend.GeneticOrchestrator

/-!
# The generations of a staged genetic search

`dispatch_genetic_discovery`, `_dispatch_generation`, `run_genetic_candidate`,
`finalize_generation` and `_finalize_genetic` of `api/strategy_search_jobs.py`, as one machine over
the keys of a run in Redis. A control is a party in the code that prepares, breeds or finishes
generations: the coordinator, or the worker that counted last. Each event is one command of one
control or of one worker, so all their commands interleave. Every message is delivered once; a
control or a worker may raise at any command.
-/

namespace QBackend.GeneticSearch

open Tasks (JobKeys)

/-! ## The parties -/

/-- A run as its configuration fixes it: the provider that the coordinator creates, and the probe of
the pre-screen. -/
structure GenerationJob (Rng : Type) where
  setting : Setting Rng
  rng : Rng
  initial : InitialPopulation setting.genetic
  isTradeable : GenomeDsl.Genome → Bool

variable {Rng : Type}

def GenerationJob.provider (job : GenerationJob Rng) : Provider Rng :=
  Provider.init job.setting job.rng job.initial.individuals

/-- A provider as the next worker loads it: the fitness of the champion is not in its state. -/
def Provider.restored (p : Provider Rng) : Provider Rng := { p with championFitness := ⊥ }

/-- Where a worker stands in `run_genetic_candidate`. -/
inductive WorkerPoint where
  | queued
  | checking
  | fetching
  | evaluating (individual : Individual)
  | stashing (result : CandidateResult)
  | decrementing
  | returned

/-- The message of one genome with its worker. -/
structure Worker where
  generation : ℕ
  index : ℕ
  point : WorkerPoint

def WorkerPoint.isPending : WorkerPoint → Bool
  | .returned => false
  | .queued | .checking | .fetching | .evaluating _ | .stashing _ | .decrementing => true

inductive RunStatus where
  | queued | running | completed | cancelled | failed
  deriving DecidableEq, Repr

/-- `_cancel_orphaned_run`: a run that has not ended is cancelled at once. -/
def RunStatus.cancel : RunStatus → RunStatus
  | .queued | .running => .cancelled
  | status => status

def RunStatus.isTerminal : RunStatus → Bool
  | .queued | .running => false
  | .completed | .cancelled | .failed => true

/-- The next command of a control. -/
inductive Control (Rng : Type) where
  -- `dispatch_genetic_discovery`
  | starting
  | marking
  | creating
  -- `_dispatch_generation`
  | storing (generation : ℕ) (p : Provider Rng)
  | clearing (generation : ℕ) (p : Provider Rng)
  | screening (generation : ℕ) (todo : List (Individual × ℕ)) (alive : List ℕ)
  | counting (generation : ℕ) (alive : List ℕ)
  | sending (generation : ℕ) (unsent : List ℕ)
  -- `finalize_generation`
  | loadingState (generation : ℕ)
  | loadingPartials (generation : ℕ) (p : Provider Rng)
  | appending (generation : ℕ) (p : Provider Rng) (ordered : List CandidateResult)
  | deciding (generation : ℕ) (p : Provider Rng) (ordered : List CandidateResult)
  | breeding (generation : ℕ) (p : Provider Rng) (ordered : List CandidateResult)
  -- `_finalize_genetic`
  | closing (cancelled : Bool)
  | finishing (cancelled : Bool)
  | persisting (status : RunStatus)
  | clearingPartials
  | clearingGenetic
  | clearingKeys

/-- A call of `_finalize_genetic`: the generation it comes after, if any. -/
structure Finalization where
  generation : Option ℕ
  cancelled : Bool

/-- The keys of the run in Redis, its persisted status and its parties, with the history: the
populations that were dispatched, the result lists that were bred from, and the calls of
`_finalize_genetic`. -/
structure Staging (Rng : Type) where
  keys : JobKeys CandidateResult := {}
  stored : Option (Provider Rng) := none
  generationResults : List (ℕ × List CandidateResult) := []
  status : RunStatus := .queued
  controls : List (Control Rng) := [.starting]
  workers : List Worker := []
  populations : List (List Individual) := []
  bred : List (ℕ × List CandidateResult) := []
  finalizations : List Finalization := []

/-! ## Commands -/

/-- The results of the population in its order; `results_by_id` keeps the last of an id. -/
def orderedResults (population : List Individual) (partials : List CandidateResult) :
    List CandidateResult :=
  population.filterMap fun individual =>
    partials.reverse.find? fun result => result.candidateId = individual.genomeId

section Commands

variable (job : GenerationJob Rng) (s : Staging Rng)

def Staging.finalize (generation : Option ℕ) (cancelled : Bool) : Staging Rng :=
  { s with finalizations := s.finalizations ++ [⟨generation, cancelled⟩] }

/-- `set_provider_state`: the population of the stored provider is the generation. -/
def Staging.store (p : Provider Rng) : Staging Rng :=
  { s with stored := some p.restored, populations := s.populations ++ [p.population] }

/-- One command of a control, and its next one unless it returns. -/
def stepControl : Control Rng → Staging Rng × Option (Control Rng)
  | .starting =>
    if s.keys.isCancelled then (s.finalize none true, some (.closing true)) else (s, some .marking)
  | .marking => ({ s with status := .running }, some .creating)
  | .creating => (s, some (.storing 0 job.provider))
  | .storing generation p => (s.store p, some (.clearing generation p))
  | .clearing generation p =>
    ({ s with keys := s.keys.clearPartials },
      some (.screening generation p.population.zipIdx []))
  | .screening generation ((individual, index) :: todo) alive =>
    if job.isTradeable individual.genome then
      (s, some (.screening generation todo (alive ++ [index])))
    else
      ({ s with keys := s.keys.stashPartial index (prescreenResult individual.genomeId) },
        some (.screening generation todo alive))
  | .screening generation [] alive => (s, some (.counting generation alive))
  | .counting generation alive =>
    ({ s with keys := s.keys.initCounter alive.length },
      match alive with
      | [] => some (.loadingState generation)
      | _ :: _ => some (.sending generation alive))
  | .sending _ [] => (s, none)
  | .sending generation (index :: unsent) =>
    ({ s with workers := s.workers ++ [⟨generation, index, .queued⟩] },
      match unsent with
      | [] => none
      | _ :: _ => some (.sending generation unsent))
  | .loadingState generation => (s, s.stored.map (.loadingPartials generation ·))
  | .loadingPartials generation p =>
    (s, some (.appending generation p (orderedResults p.population s.keys.loadPartials)))
  | .appending generation p ordered =>
    ({ s with generationResults :=
        s.generationResults.filter (fun entry => entry.1 ≠ generation) ++ [(generation, ordered)] },
      some (.deciding generation p ordered))
  | .deciding generation p ordered =>
    if s.keys.isCancelled then (s.finalize (some generation) true, some (.closing true))
    else if generation + 1 < job.setting.genetic.generations then
      (s, some (.breeding generation p ordered))
    else (s.finalize (some generation) false, some (.closing false))
  | .breeding generation p ordered =>
    match p.report job.setting ordered with
    | .ok p' =>
      ({ s with bred := s.bred ++ [(generation, ordered)] }, some (.storing (generation + 1) p'))
    | .error _ => (s, none)
  | .closing cancelled => (s, some (.finishing cancelled))
  | .finishing cancelled =>
    (s, some (.persisting (if cancelled then .cancelled else .completed)))
  | .persisting status => ({ s with status }, some .clearingPartials)
  | .clearingPartials => ({ s with keys := s.keys.clearPartials }, some .clearingGenetic)
  | .clearingGenetic => ({ s with stored := none, generationResults := [] }, some .clearingKeys)
  | .clearingKeys => ({ s with keys := s.keys.clearJobKeys }, none)

/-- One command of a worker. The outcome is what `evaluate_candidate` returns, or the text of what
it raises; the last worker to count goes on as a control. -/
def stepWorker (worker : Worker) (outcome : Except String CandidateResult) :
    Staging Rng × WorkerPoint :=
  match worker.point with
  | .queued => (s, .queued)
  | .checking => (s, if s.keys.isCancelled then .decrementing else .fetching)
  | .fetching =>
    match s.stored.bind fun p => p.population[worker.index]? with
    | some individual => (s, .evaluating individual)
    | none => (s, .returned)
  | .evaluating individual =>
    let result : CandidateResult := match outcome with
      | .ok result => { result with candidateId := individual.genomeId }
      | .error text =>
        { candidateId := individual.genomeId, strategy := "CompositeStrategy", status := .error
          error := some text }
    (s, .stashing result)
  | .stashing result =>
    ({ s with keys := s.keys.stashPartial worker.index result }, .decrementing)
  | .decrementing =>
    let (remaining, keys) := s.keys.decrement
    ({ s with
        keys
        controls :=
          if remaining ≤ 0 then s.controls ++ [.loadingState worker.generation]
          else s.controls },
      .returned)
  | .returned => (s, .returned)

end Commands

inductive StagingEvent where
  /-- A control gives its next command. -/
  | control (k : ℕ)
  /-- A worker takes a message. -/
  | deliver (k : ℕ)
  /-- A worker gives its next command. -/
  | work (k : ℕ) (outcome : Except String CandidateResult)
  /-- The next command of a control raises. -/
  | controlRaises (k : ℕ)
  /-- The next command of a worker raises. -/
  | workerRaises (k : ℕ)
  | requestCancel

section Steps

variable (job : GenerationJob Rng) (s : Staging Rng)

def Staging.moveWorker (k : ℕ) (worker : Worker) (point : WorkerPoint) : Staging Rng :=
  { s with workers := s.workers.set k { worker with point } }

def Staging.moveControl (k : ℕ) : Option (Control Rng) → Staging Rng
  | some control => { s with controls := s.controls.set k control }
  | none => { s with controls := s.controls.eraseIdx k }

/-- Where a control goes on after it has raised: the body of `_finalize_genetic` turns what it raises
into the status failed, and the status is persisted with best effort. -/
def Control.handler : Control Rng → Option (Control Rng)
  | .marking => some .creating
  | .finishing _ => some (.persisting .failed)
  | .persisting _ => some .clearingPartials
  | _ => none

/-- The run is over but for its keys. -/
def Control.isClearing : Control Rng → Bool
  | .clearingPartials | .clearingGenetic | .clearingKeys => true
  | _ => false

/-- The evaluation turns what it raises into a result. -/
def WorkerPoint.handler : WorkerPoint → WorkerPoint
  | .queued => .queued
  | .evaluating individual => .stashing
      { candidateId := individual.genomeId, strategy := "CompositeStrategy", status := .error }
  | .checking | .fetching | .stashing _ | .decrementing | .returned => .returned

def Staging.step : StagingEvent → Staging Rng
  | .control k =>
    match s.controls[k]? with
    | none => s
    | some control =>
      let (s', next) := stepControl job s control
      s'.moveControl k next
  | .deliver k =>
    match s.workers[k]? with
    | some ⟨generation, index, .queued⟩ =>
      s.moveWorker k ⟨generation, index, .queued⟩ .checking
    | _ => s
  | .work k outcome =>
    match s.workers[k]? with
    | none => s
    | some worker =>
      let (s', point) := stepWorker s worker outcome
      s'.moveWorker k worker point
  | .controlRaises k =>
    match s.controls[k]? with
    | none => s
    | some control => s.moveControl k control.handler
  | .workerRaises k =>
    match s.workers[k]? with
    | none => s
    | some worker => s.moveWorker k worker worker.point.handler
  | .requestCancel => { s with keys := s.keys.setCancelled, status := s.status.cancel }

/-- No party has a command left. -/
def Staging.Settled : Prop := s.controls = [] ∧ ∀ worker ∈ s.workers, worker.point.isPending = false

end Steps

end QBackend.GeneticSearch
