import QBackend.GenerationBarrier

/-!
# Discovery runs without a genetic search

`dispatch_candidates`, `run_candidate` and `finalize_discovery` of `api/strategy_search_jobs.py`, as
a machine like that of the generations: the coordinator and the worker that counted last are
controls. `run_candidate` asks its provider for `unsupported_names` after it has counted, and a
provider of hypotheses has no such method.
-/

namespace QBackend.GeneticSearch

open RunInvariants
open Tasks (JobKeys)

/-! ## The parties -/

/-- A provider of candidates, by id and strategy. `unsupportedNames` is none where the provider has
no such method. -/
structure CandidateProvider where
  candidates : List (String × String)
  unsupportedNames : Option (List String)

def unsupportedOffset : ℕ := 10000000

def unsupportedResult (name : String) : CandidateResult where
  candidateId := name
  strategy := name
  status := .unsupported
  error := some "Tick-engine strategies are not supported for walk-forward search"

/-- Where a worker stands in `run_candidate`, up to its count. -/
inductive CandidatePoint where
  | queued
  | resolving
  | checking (candidateId strategy : String)
  | evaluating (candidateId strategy : String)
  | stashing (result : CandidateResult)
  | decrementing
  | returned

def CandidatePoint.isPending : CandidatePoint → Bool
  | .returned => false
  | .queued | .resolving | .checking _ _ | .evaluating _ _ | .stashing _ | .decrementing => true

structure CandidateWorker where
  index : ℕ
  point : CandidatePoint

/-- The next command of a control. -/
inductive DiscoveryControl where
  -- `dispatch_candidates`
  | resolving
  | starting
  | marking
  | stashing (todo : List (String × ℕ))
  | counting
  | sending (unsent : List ℕ)
  -- `run_candidate` after the last count
  | reporting
  -- `finalize_discovery`
  | closing
  | finishing
  | persisting (status : RunStatus) (ranked : List CandidateResult)
  | clearingPartials
  | clearingKeys

/-- The keys of the run in Redis, its persisted status and ranking, and its parties. -/
structure Discovery where
  keys : JobKeys CandidateResult := {}
  status : RunStatus := .queued
  ranked : List CandidateResult := []
  controls : List DiscoveryControl := [.resolving]
  workers : List CandidateWorker := []

/-! ## Commands -/

section Commands

variable (provider : CandidateProvider) (s : Discovery)

/-- One command of a control, and its next one unless it returns or raises. -/
def stepDiscovery : DiscoveryControl → Discovery × Option DiscoveryControl
  | .resolving => (s, some .starting)
  | .starting => (s, some (if s.keys.isCancelled then .closing else .marking))
  | .marking =>
    ({ s with status := .running },
      some (.stashing ((provider.unsupportedNames.getD []).zipIdx)))
  | .stashing ((name, offset) :: todo) =>
    ({ s with keys := s.keys.stashPartial (unsupportedOffset + offset) (unsupportedResult name) },
      some (.stashing todo))
  | .stashing [] =>
    (s, some (match provider.candidates with
      | [] => .closing
      | _ :: _ => .counting))
  | .counting =>
    ({ s with keys := s.keys.initCounter provider.candidates.length },
      some (.sending (List.range provider.candidates.length)))
  | .sending [] => (s, none)
  | .sending (index :: unsent) =>
    ({ s with workers := s.workers ++ [⟨index, .queued⟩] },
      match unsent with
      | [] => none
      | _ :: _ => some (.sending unsent))
  | .reporting =>
    (s, match provider.unsupportedNames with
      | none => none
      | some _ => some .closing)
  | .closing => (s, some .finishing)
  | .finishing =>
    (s, some (.persisting (if s.keys.isCancelled then .cancelled else .completed)
      (rankResults s.keys.loadPartials)))
  | .persisting status ranked => ({ s with status, ranked }, some .clearingPartials)
  | .clearingPartials => ({ s with keys := s.keys.clearPartials }, some .clearingKeys)
  | .clearingKeys => ({ s with keys := s.keys.clearJobKeys }, none)

/-- One command of a worker; the last worker to count goes on as a control. -/
def stepCandidate (worker : CandidateWorker) (outcome : Except String CandidateResult) :
    Discovery × CandidatePoint :=
  match worker.point with
  | .queued => (s, .queued)
  | .resolving =>
    match provider.candidates[worker.index]? with
    | some (candidateId, strategy) => (s, .checking candidateId strategy)
    | none => (s, .returned)
  | .checking candidateId strategy =>
    (s, if s.keys.isCancelled then .decrementing else .evaluating candidateId strategy)
  | .evaluating candidateId strategy =>
    let result : CandidateResult := match outcome with
      | .ok result => { result with candidateId, strategy }
      | .error text => { candidateId, strategy, status := .error, error := some text }
    (s, .stashing result)
  | .stashing result =>
    ({ s with keys := s.keys.stashPartial worker.index result }, .decrementing)
  | .decrementing =>
    let (remaining, keys) := s.keys.decrement
    ({ s with
        keys
        controls := if remaining ≤ 0 then s.controls ++ [.reporting] else s.controls },
      .returned)
  | .returned => (s, .returned)

def Discovery.moveWorker (k : ℕ) (worker : CandidateWorker) (point : CandidatePoint) : Discovery :=
  { s with workers := s.workers.set k { worker with point } }

def Discovery.moveControl (k : ℕ) : Option DiscoveryControl → Discovery
  | some control => { s with controls := s.controls.set k control }
  | none => { s with controls := s.controls.eraseIdx k }

/-- Where a control goes on after it has raised. -/
def DiscoveryControl.handler (provider : CandidateProvider) :
    DiscoveryControl → Option DiscoveryControl
  | .marking => some (.stashing ((provider.unsupportedNames.getD []).zipIdx))
  | .finishing => some (.persisting .failed [])
  | .persisting _ _ => some .clearingPartials
  | _ => none

def DiscoveryControl.isClearing : DiscoveryControl → Bool
  | .clearingPartials | .clearingKeys => true
  | _ => false

def CandidatePoint.handler : CandidatePoint → CandidatePoint
  | .queued => .queued
  | .evaluating candidateId strategy => .stashing { candidateId, strategy, status := .error }
  | .resolving | .checking _ _ | .stashing _ | .decrementing | .returned => .returned

def Discovery.step : StagingEvent → Discovery
  | .control k =>
    match s.controls[k]? with
    | none => s
    | some control =>
      let (s', next) := stepDiscovery provider s control
      s'.moveControl k next
  | .deliver k =>
    match s.workers[k]? with
    | some ⟨index, .queued⟩ => s.moveWorker k ⟨index, .queued⟩ .resolving
    | _ => s
  | .work k outcome =>
    match s.workers[k]? with
    | none => s
    | some worker =>
      let (s', point) := stepCandidate provider s worker outcome
      s'.moveWorker k worker point
  | .controlRaises k =>
    match s.controls[k]? with
    | none => s
    | some control => s.moveControl k (control.handler provider)
  | .workerRaises k =>
    match s.workers[k]? with
    | none => s
    | some worker => s.moveWorker k worker worker.point.handler
  | .requestCancel => { s with keys := s.keys.setCancelled, status := s.status.cancel }

/-- No party has a command left. -/
def Discovery.Settled : Prop :=
  s.controls = [] ∧ ∀ worker ∈ s.workers, worker.point.isPending = false

end Commands

/-! ## Raises that are recorded -/

/-- The run goes on after the raise, or has its status already. -/
def DiscoveryControl.recordsRaise : DiscoveryControl → Bool
  | .marking | .finishing | .clearingPartials | .clearingKeys => true
  | .resolving | .starting | .stashing _ | .counting | .sending _ | .reporting | .closing
  | .persisting _ _ => false

/-- Nothing raises outside the sections that turn an exception into a result or a status. -/
def Discovery.Records (s : Discovery) : StagingEvent → Prop
  | .controlRaises k => ∀ control, s.controls[k]? = some control → control.recordsRaise = true
  | .workerRaises k => ∀ worker, s.workers[k]? = some worker →
      worker.point.handler.isPending = worker.point.isPending
  | .control _ | .deliver _ | .work _ _ | .requestCancel => True

/-- A run that nobody works on has ended. -/
def Discovery.Recorded (s : Discovery) : Prop := s.Settled → s.status.isTerminal = true

/-! ## Invariants -/

theorem RunStatus.isTerminal_cancel {status : RunStatus} (h : status.isTerminal = true) :
    status.cancel.isTerminal = true := by
  cases status with
  | queued | running => cases h
  | completed | cancelled | failed => rfl

def pendingCandidates (workers : List CandidateWorker) : ℕ :=
  workers.countP fun worker => worker.point.isPending

def AllCounted (workers : List CandidateWorker) : Prop :=
  ∀ worker ∈ workers, worker.point.isPending = false

section Invariants

variable (provider : CandidateProvider) (s : Discovery)

/-- What holds before the next command of the only control. -/
def DiscoveryReady : DiscoveryControl → Prop
  | .counting | .reporting => provider.candidates ≠ []
  | .sending _ => False
  | .persisting status _ => status.isTerminal = true
  | .clearingPartials | .clearingKeys => s.status.isTerminal = true
  | .resolving | .starting | .marking | .stashing _ | .closing | .finishing => True

/-- The messages are out or being sent, and some worker has still to count. -/
structure DiscoveryRunning (unsent : List ℕ) : Prop where
  controls : s.controls = if unsent = [] then [] else [.sending unsent]
  counter : s.keys.counter = some ((unsent.length + pendingCandidates s.workers : ℕ) : ℤ)
  open_ : 0 < unsent.length + pendingCandidates s.workers
  unsent : ∀ i ∈ unsent, i < provider.candidates.length
  workers : ∀ worker ∈ s.workers, worker.point.isPending = true →
    worker.index < provider.candidates.length

inductive DiscoveryPhase : Prop
  | control (c : DiscoveryControl) (hcontrols : s.controls = [c]) (hworkers : AllCounted s.workers)
      (h : DiscoveryReady provider s c)
  | running (unsent : List ℕ) (h : DiscoveryRunning provider s unsent)
  | ended (hcontrols : s.controls = []) (hworkers : AllCounted s.workers)
      (h : s.status.isTerminal = true)

end Invariants

section Steps

variable {provider : CandidateProvider} {s : Discovery}

theorem DiscoveryPhase.recorded (h : DiscoveryPhase provider s) : s.Recorded := by
  intro hsettled
  cases h with
  | control c hcontrols hworkers hc =>
    rw [hsettled.1] at hcontrols
    cases hcontrols
  | running unsent hrunning =>
    have hopen := hrunning.open_
    have hcontrols := hrunning.controls
    have hzero : pendingCandidates s.workers = 0 := by
      rw [pendingCandidates, List.countP_eq_zero]
      intro worker hworker
      simp [hsettled.2 worker hworker]
    rw [hsettled.1] at hcontrols
    split at hcontrols
    · rename_i hnil
      rw [hnil, hzero] at hopen
      exact absurd hopen (by decide)
    · cases hcontrols
  | ended hcontrols hworkers h => exact h

theorem DiscoveryPhase.of_control {s' : Discovery} {c c' : DiscoveryControl}
    (hcontrols : s'.controls = [c]) (hworkers : AllCounted s'.workers)
    (h : DiscoveryReady provider s' c') :
    DiscoveryPhase provider (s'.moveControl 0 (some c')) := by
  have hmoved : s'.moveControl 0 (some c') = { s' with controls := [c'] } := by
    simp [Discovery.moveControl, hcontrols]
  rw [hmoved]
  refine .control c' rfl hworkers ?_
  cases c' <;> exact h

theorem DiscoveryPhase.of_none {s' : Discovery} {c : DiscoveryControl}
    (hcontrols : s'.controls = [c]) (hworkers : AllCounted s'.workers)
    (h : s'.status.isTerminal = true) : DiscoveryPhase provider (s'.moveControl 0 none) := by
  have hmoved : s'.moveControl 0 none = { s' with controls := [] } := by
    simp [Discovery.moveControl, hcontrols]
  rw [hmoved]
  exact .ended rfl hworkers h

theorem discovery_control {c : DiscoveryControl} (hcontrols : s.controls = [c])
    (hworkers : AllCounted s.workers) (hc : DiscoveryReady provider s c)
    (hprovider : provider.unsupportedNames.isSome ∨ provider.candidates = []) :
    DiscoveryPhase provider
      ((stepDiscovery provider s c).1.moveControl 0 (stepDiscovery provider s c).2) := by
  cases c with
  | resolving => exact .of_control hcontrols hworkers trivial
  | starting =>
    by_cases hcancelled : s.keys.isCancelled = true
    · simp only [stepDiscovery, if_pos hcancelled]
      exact .of_control hcontrols hworkers trivial
    · simp only [stepDiscovery, if_neg hcancelled]
      exact .of_control hcontrols hworkers trivial
  | marking => exact .of_control hcontrols hworkers trivial
  | stashing todo =>
    cases todo with
    | nil =>
      cases hcandidates : provider.candidates with
      | nil =>
        simp only [stepDiscovery, hcandidates]
        exact .of_control hcontrols hworkers trivial
      | cons candidate candidates =>
        simp only [stepDiscovery, hcandidates]
        refine .of_control hcontrols hworkers ?_
        rw [DiscoveryReady, hcandidates]
        exact List.cons_ne_nil _ _
    | cons entry todo =>
      obtain ⟨name, offset⟩ := entry
      exact .of_control hcontrols hworkers trivial
  | counting =>
    have hlength : 0 < provider.candidates.length := List.length_pos_iff.mpr hc
    have hne : List.range provider.candidates.length ≠ [] := by
      rw [ne_eq, List.range_eq_nil]
      omega
    have hzero : pendingCandidates s.workers = 0 := by
      rw [pendingCandidates, List.countP_eq_zero]
      intro worker hworker
      simp [hworkers worker hworker]
    have hmoved : (stepDiscovery provider s .counting).1.moveControl 0
        (stepDiscovery provider s .counting).2 =
        { s with
          keys := s.keys.initCounter provider.candidates.length
          controls := [.sending (List.range provider.candidates.length)] } := by
      simp [stepDiscovery, Discovery.moveControl, hcontrols]
    rw [hmoved]
    refine .running (List.range provider.candidates.length) ⟨by rw [if_neg hne], ?_, ?_, ?_, ?_⟩
    · simp [JobKeys.initCounter, hzero]
    · simp only [List.length_range, hzero]
      omega
    · intro i hi
      exact List.mem_range.mp hi
    · intro worker hworker hpending
      rw [hworkers worker hworker] at hpending
      cases hpending
  | sending unsent => exact hc.elim
  | reporting =>
    have hsome : provider.unsupportedNames.isSome := hprovider.resolve_right hc
    obtain ⟨names, hnames⟩ := Option.isSome_iff_exists.mp hsome
    simp only [stepDiscovery, hnames]
    exact .of_control hcontrols hworkers trivial
  | closing => exact .of_control hcontrols hworkers trivial
  | finishing =>
    refine .of_control hcontrols hworkers ?_
    by_cases hcancelled : s.keys.isCancelled = true
    · rw [if_pos hcancelled]
      exact rfl
    · rw [if_neg hcancelled]
      exact rfl
  | persisting status ranked => exact .of_control hcontrols hworkers hc
  | clearingPartials => exact .of_control hcontrols hworkers hc
  | clearingKeys => exact .of_none hcontrols hworkers hc

theorem DiscoveryRunning.send {unsent : List ℕ} {k : ℕ} {c : DiscoveryControl}
    (h : DiscoveryRunning provider s unsent) (hk : s.controls[k]? = some c) :
    DiscoveryPhase provider
      ((stepDiscovery provider s c).1.moveControl k (stepDiscovery provider s c).2) := by
  have hcontrols := h.controls
  have hopen := h.open_
  have hcounter := h.counter
  cases unsent with
  | nil =>
    rw [if_pos rfl] at hcontrols
    rw [hcontrols] at hk
    cases hk
  | cons index unsent =>
    rw [if_neg (List.cons_ne_nil _ _)] at hcontrols
    have hfirst : k = 0 ∧ c = .sending (index :: unsent) := by
      rw [hcontrols, List.getElem?_singleton] at hk
      split at hk
      · exact ⟨‹_›, (Option.some.inj hk).symm⟩
      · cases hk
    obtain ⟨rfl, rfl⟩ := hfirst
    have hcount : pendingCandidates (s.workers ++ [⟨index, .queued⟩]) =
        pendingCandidates s.workers + 1 := by
      simp [pendingCandidates, CandidatePoint.isPending]
    have hmoved : (stepDiscovery provider s (.sending (index :: unsent))).1.moveControl 0
        (stepDiscovery provider s (.sending (index :: unsent))).2 =
        { s with
          workers := s.workers ++ [⟨index, .queued⟩]
          controls := if unsent = [] then [] else [.sending unsent] } := by
      cases unsent with
      | nil => simp [stepDiscovery, Discovery.moveControl, hcontrols]
      | cons index' unsent => simp [stepDiscovery, Discovery.moveControl, hcontrols]
    rw [hmoved]
    rw [List.length_cons] at hopen hcounter
    have hsum : unsent.length + pendingCandidates (s.workers ++ [⟨index, .queued⟩]) =
        unsent.length + 1 + pendingCandidates s.workers := by omega
    refine .running unsent ⟨rfl, ?_, ?_, ?_, ?_⟩
    · simp only [hsum]
      exact hcounter
    · simp only [hsum]
      exact hopen
    · intro i hi
      exact h.unsent i (List.mem_cons_of_mem _ hi)
    · intro worker hmem hpending
      obtain hold | hnew := List.mem_append.mp hmem
      · exact h.workers worker hold hpending
      · obtain rfl := List.mem_singleton.mp hnew
        exact h.unsent index List.mem_cons_self

theorem pendingCandidates_set {k : ℕ} {w : CandidateWorker} (w' : CandidateWorker)
    (hk : s.workers[k]? = some w) (hw : w.point.isPending = true) :
    pendingCandidates (s.workers.set k w') + 1 =
      pendingCandidates s.workers + if w'.point.isPending then 1 else 0 := by
  obtain ⟨hlt, hget⟩ := List.getElem?_eq_some_iff.mp hk
  have hpos : 0 < pendingCandidates s.workers := by
    rw [pendingCandidates, List.countP_pos_iff]
    exact ⟨w, List.mem_of_getElem? hk, hw⟩
  simp only [pendingCandidates] at hpos ⊢
  rw [List.countP_set hlt, hget]
  simp only [hw, if_true]
  omega

theorem DiscoveryRunning.move {unsent : List ℕ} {k : ℕ} {w : CandidateWorker}
    (h : DiscoveryRunning provider s unsent) (hk : s.workers[k]? = some w)
    (hw : w.point.isPending = true) (point : CandidatePoint) (keys : JobKeys CandidateResult)
    (hpoint : point.isPending = true) (hcounter : keys.counter = s.keys.counter) :
    DiscoveryRunning provider ({ s with keys }.moveWorker k w point) unsent := by
  have hcount : pendingCandidates (s.workers.set k { w with point }) =
      pendingCandidates s.workers := by
    have hset := pendingCandidates_set { w with point } hk hw
    simp only [hpoint, if_true] at hset
    omega
  refine ⟨h.controls, ?_, ?_, h.unsent, ?_⟩
  · simp only [Discovery.moveWorker, hcount, hcounter, h.counter]
  · simp only [Discovery.moveWorker, hcount]
    exact h.open_
  · intro worker hmem hpending
    obtain hold | rfl := List.mem_or_eq_of_mem_set hmem
    · exact h.workers worker hold hpending
    · exact h.workers w (List.mem_of_getElem? hk) hw

theorem DiscoveryRunning.count {unsent : List ℕ} {k : ℕ} {w : CandidateWorker}
    (h : DiscoveryRunning provider s unsent) (hk : s.workers[k]? = some w)
    (hpoint : w.point = .decrementing) (outcome) :
    DiscoveryPhase provider
      ((stepCandidate provider s w outcome).1.moveWorker k w
        (stepCandidate provider s w outcome).2) := by
  have hpending : w.point.isPending = true := by rw [hpoint]; rfl
  have hindex := h.workers w (List.mem_of_getElem? hk) hpending
  have hcount : pendingCandidates (s.workers.set k { w with point := .returned }) + 1 =
      pendingCandidates s.workers := pendingCandidates_set _ hk hpending
  have hremaining : s.keys.decrement.1 = ((unsent.length +
      pendingCandidates (s.workers.set k { w with point := .returned }) : ℕ) : ℤ) := by
    simp only [JobKeys.decrement, h.counter, Option.getD_some]
    omega
  have hmoved : (stepCandidate provider s w outcome).1.moveWorker k w
      (stepCandidate provider s w outcome).2 =
      { s with
        keys := s.keys.decrement.2
        workers := s.workers.set k { w with point := .returned }
        controls := if s.keys.decrement.1 ≤ 0 then s.controls ++ [.reporting]
          else s.controls } := by
    simp only [stepCandidate, hpoint, Discovery.moveWorker]
  rw [hmoved]
  by_cases hlast : s.keys.decrement.1 ≤ 0
  · have hzero : unsent.length = 0 ∧
        pendingCandidates (s.workers.set k { w with point := .returned }) = 0 := by omega
    have hcontrols : s.controls = [] := by
      rw [h.controls, if_pos (List.length_eq_zero_iff.mp hzero.1)]
    rw [if_pos hlast, hcontrols]
    refine .control .reporting rfl ?_ ?_
    · intro worker hmem
      simpa using List.countP_eq_zero.mp hzero.2 worker hmem
    · rintro hnil
      rw [hnil] at hindex
      exact Nat.not_lt_zero _ hindex
  · have hopen : 0 < unsent.length +
        pendingCandidates (s.workers.set k { w with point := .returned }) := by omega
    rw [if_neg hlast]
    refine .running unsent ⟨h.controls, ?_, hopen, h.unsent, ?_⟩
    · rw [← hremaining]
      rfl
    · intro worker hmem hworker
      obtain hold | rfl := List.mem_or_eq_of_mem_set hmem
      · exact h.workers worker hold hworker
      · cases hworker

theorem DiscoveryRunning.work {unsent : List ℕ} {k : ℕ} {w : CandidateWorker}
    (h : DiscoveryRunning provider s unsent) (hk : s.workers[k]? = some w)
    (hpending : w.point.isPending = true) (outcome) :
    DiscoveryPhase provider
      ((stepCandidate provider s w outcome).1.moveWorker k w
        (stepCandidate provider s w outcome).2) := by
  have hindex := h.workers w (List.mem_of_getElem? hk) hpending
  cases hpoint : w.point with
  | queued =>
    simp only [stepCandidate, hpoint]
    exact .running unsent (h.move hk hpending .queued s.keys rfl rfl)
  | resolving =>
    have hget : provider.candidates[w.index]? = some (provider.candidates.get ⟨w.index, hindex⟩) :=
      List.getElem?_eq_getElem hindex
    simp only [stepCandidate, hpoint, hget]
    exact .running unsent (h.move hk hpending _ s.keys rfl rfl)
  | checking candidateId strategy =>
    simp only [stepCandidate, hpoint]
    by_cases hcancelled : s.keys.isCancelled = true
    · rw [if_pos hcancelled]
      exact .running unsent (h.move hk hpending _ s.keys rfl rfl)
    · rw [if_neg hcancelled]
      exact .running unsent (h.move hk hpending _ s.keys rfl rfl)
  | evaluating candidateId strategy =>
    simp only [stepCandidate, hpoint]
    exact .running unsent (h.move hk hpending _ s.keys rfl rfl)
  | stashing result =>
    simp only [stepCandidate, hpoint]
    exact .running unsent (h.move hk hpending _ (s.keys.stashPartial w.index result) rfl rfl)
  | decrementing => exact h.count hk hpoint outcome
  | returned =>
    rw [hpoint] at hpending
    cases hpending

theorem DiscoveryPhase.running_of_pending (h : DiscoveryPhase provider s) {k : ℕ}
    {w : CandidateWorker} (hk : s.workers[k]? = some w) (hpending : w.point.isPending = true) :
    ∃ unsent, DiscoveryRunning provider s unsent := by
  have hnot : ¬ AllCounted s.workers := by
    intro hall
    rw [hall w (List.mem_of_getElem? hk)] at hpending
    cases hpending
  cases h with
  | control c hcontrols hworkers hc => exact (hnot hworkers).elim
  | running unsent hrunning => exact ⟨unsent, hrunning⟩
  | ended hcontrols hworkers h => exact (hnot hworkers).elim

theorem Discovery.moveWorker_returned {k : ℕ} {w : CandidateWorker}
    (hk : s.workers[k]? = some w) : s.moveWorker k w w.point = s := by
  obtain ⟨hlt, hget⟩ := List.getElem?_eq_some_iff.mp hk
  have hset : s.workers.set k { w with point := w.point } = s.workers := by
    rw [← hget]
    exact List.set_getElem_self hlt
  simp only [Discovery.moveWorker, hset]

theorem CandidatePoint.eq_returned {point : CandidatePoint} (h : ¬ point.isPending = true) :
    point = .returned := by
  cases point with
  | returned => rfl
  | queued | resolving | checking | evaluating | stashing | decrementing => exact (h rfl).elim

theorem DiscoveryPhase.controlRaises (h : DiscoveryPhase provider s) {k : ℕ}
    (hrecords : s.Records (.controlRaises k)) :
    DiscoveryPhase provider (s.step provider (.controlRaises k)) := by
  cases hk : s.controls[k]? with
  | none =>
    simp only [Discovery.step, hk]
    exact h
  | some c =>
    have hrecord := hrecords c hk
    simp only [Discovery.step, hk]
    have honly : ∀ c', s.controls = [c'] → k = 0 ∧ c = c' := by
      intro c' hcontrols
      rw [hcontrols, List.getElem?_singleton] at hk
      split at hk
      · exact ⟨‹_›, (Option.some.inj hk).symm⟩
      · cases hk
    cases h with
    | control c' hcontrols hworkers hc =>
      obtain ⟨rfl, rfl⟩ := honly c' hcontrols
      cases c with
      | marking => exact .of_control hcontrols hworkers trivial
      | finishing => exact .of_control hcontrols hworkers rfl
      | clearingPartials => exact .of_none hcontrols hworkers hc
      | clearingKeys => exact .of_none hcontrols hworkers hc
      | resolving | starting | stashing | counting | sending | reporting | closing | persisting =>
        cases hrecord
    | running unsent hrunning =>
      have hcontrols := hrunning.controls
      split at hcontrols
      · rw [hcontrols] at hk
        cases hk
      · obtain ⟨-, rfl⟩ := honly _ hcontrols
        cases hrecord
    | ended hcontrols hworkers h =>
      rw [hcontrols] at hk
      cases hk

theorem DiscoveryPhase.step (hprovider : provider.unsupportedNames.isSome ∨ provider.candidates = [])
    (event : StagingEvent) (hrecords : s.Records event) (h : DiscoveryPhase provider s) :
    DiscoveryPhase provider (s.step provider event) := by
  cases event with
  | control k =>
    cases hk : s.controls[k]? with
    | none =>
      simp only [Discovery.step, hk]
      exact h
    | some c =>
      simp only [Discovery.step, hk]
      cases h with
      | control c' hcontrols hworkers hc =>
        have hfirst : k = 0 ∧ c' = c := by
          rw [hcontrols, List.getElem?_singleton] at hk
          split at hk
          · exact ⟨‹_›, Option.some.inj hk⟩
          · cases hk
        obtain ⟨rfl, rfl⟩ := hfirst
        exact discovery_control hcontrols hworkers hc hprovider
      | running unsent hrunning => exact hrunning.send hk
      | ended hcontrols hworkers h =>
        rw [hcontrols] at hk
        cases hk
  | deliver k =>
    cases hk : s.workers[k]? with
    | none =>
      simp only [Discovery.step, hk]
      exact h
    | some w =>
      obtain ⟨index, point⟩ := w
      cases point with
      | queued =>
        obtain ⟨unsent, hrunning⟩ := h.running_of_pending hk rfl
        simp only [Discovery.step, hk]
        exact .running unsent (hrunning.move hk rfl .resolving s.keys rfl rfl)
      | resolving | checking | evaluating | stashing | decrementing | returned =>
        simp only [Discovery.step, hk]
        exact h
  | work k outcome =>
    cases hk : s.workers[k]? with
    | none =>
      simp only [Discovery.step, hk]
      exact h
    | some w =>
      simp only [Discovery.step, hk]
      by_cases hpending : w.point.isPending = true
      · obtain ⟨unsent, hrunning⟩ := h.running_of_pending hk hpending
        exact hrunning.work hk hpending outcome
      · have hreturned := CandidatePoint.eq_returned hpending
        have hstep : stepCandidate provider s w outcome = (s, w.point) := by
          simp only [stepCandidate, hreturned]
        rw [hstep, Discovery.moveWorker_returned hk]
        exact h
  | controlRaises k => exact h.controlRaises hrecords
  | workerRaises k =>
    cases hk : s.workers[k]? with
    | none =>
      simp only [Discovery.step, hk]
      exact h
    | some w =>
      simp only [Discovery.step, hk]
      by_cases hpending : w.point.isPending = true
      · obtain ⟨unsent, hrunning⟩ := h.running_of_pending hk hpending
        have hhandler : w.point.handler.isPending = true := (hrecords w hk).trans hpending
        exact .running unsent (hrunning.move hk hpending w.point.handler s.keys hhandler rfl)
      · have hhandler : w.point.handler = w.point := by
          rw [CandidatePoint.eq_returned hpending]
          rfl
        rw [hhandler, Discovery.moveWorker_returned hk]
        exact h
  | requestCancel =>
    cases h with
    | control c hcontrols hworkers hc =>
      refine .control c hcontrols hworkers ?_
      cases c with
      | clearingPartials | clearingKeys => exact RunStatus.isTerminal_cancel hc
      | resolving | starting | marking | stashing | counting | sending | reporting | closing
      | finishing | persisting => exact hc
    | running unsent hrunning =>
      exact .running unsent ⟨hrunning.controls, hrunning.counter, hrunning.open_, hrunning.unsent,
        hrunning.workers⟩
    | ended hcontrols hworkers h =>
      exact .ended hcontrols hworkers (RunStatus.isTerminal_cancel h)

end Steps

/-- A run of a provider that has `unsupported_names`, or of one without candidates, in which nothing
raises outside its guarded section, ends with a status. -/
theorem Discovery.recorded_of_admissible {provider : CandidateProvider}
    (hprovider : provider.unsupportedNames.isSome ∨ provider.candidates = [])
    {events : List StagingEvent}
    (h : Admissible (Discovery.step provider) Discovery.Records {} events) :
    (run (Discovery.step provider) {} events).Recorded := by
  have hinit : DiscoveryPhase provider {} := by
    refine .control .resolving rfl ?_ trivial
    intro worker hworker
    cases hworker
  exact (invariant_of_admissible (DiscoveryPhase provider) h hinit
    fun _ event hrecords hphase => hphase.step hprovider event hrecords).recorded

end QBackend.GeneticSearch
