import QBackend.DiscoveryRuns
import QBackend.GenerationRuns

/-!
# Failures of a run and its status

A message is never delivered again, so a run whose parties have all returned or raised keeps the
status that it has. Each of its functions guards a part of its body only: the run ends with a status
where nothing raises outside of the guarded parts and a provider of hypotheses has no candidates.
-/

namespace QBackend.GeneticSearch

open RunInvariants

variable {Rng : Type}

/-- A run that nobody works on has ended. -/
def Staging.Recorded (s : Staging Rng) : Prop := s.Settled → s.status.isTerminal = true

/-- Nothing raises outside the sections that turn an exception into a result or a status, and the
status that is persisted at the end is not lost. -/
def Staging.Records (job : GenerationJob Rng) (s : Staging Rng) (event : StagingEvent) : Prop :=
  s.Guarded job event ∧
    ∀ k status, event = .controlRaises k → s.controls[k]? ≠ some (.persisting status)

/-! ## The status of a genetic run -/

section Status

variable {job : GenerationJob Rng} {s : Staging Rng}

/-- What the status is before the next command of a control. -/
def StatusReady (s : Staging Rng) : Control Rng → Prop
  | .persisting status => status.isTerminal = true
  | .clearingPartials | .clearingGenetic | .clearingKeys => s.status.isTerminal = true
  | .starting | .marking | .creating | .storing _ _ | .clearing _ _ | .screening _ _ _
  | .counting _ _ | .sending _ _ | .loadingState _ | .loadingPartials _ _ | .appending _ _ _
  | .deciding _ _ _ | .breeding _ _ _ | .closing _ | .finishing _ => True

structure StatusInvariant (s : Staging Rng) : Prop where
  controls : ∀ c ∈ s.controls, StatusReady s c
  settled : s.Settled → s.status.isTerminal = true

/-- Before the run is finalized some party has a command left. -/
theorem not_settled_of_open (h : StagingInvariant job s) (hopen : s.finalizations = []) :
    ¬ s.Settled := by
  intro hsettled
  have hone := (h.oneByOne.settled hsettled).1
  rw [hopen] at hone
  cases hone

theorem StatusInvariant.of_control {c : Control Rng} (h : StatusReady s c) :
    StatusInvariant { s with controls := [c] } := by
  refine ⟨?_, ?_⟩
  · intro c' hc
    obtain rfl := List.mem_singleton.mp hc
    cases c' <;> exact h
  · intro hsettled
    cases hsettled.1

theorem StatusInvariant.of_none (hcontrols : s.controls = []) (h : s.status.isTerminal = true) :
    StatusInvariant s := by
  refine ⟨?_, fun _ => h⟩
  intro c hc
  rw [hcontrols] at hc
  cases hc

theorem status_control {c : Control Rng} (hcontrols : s.controls = [c])
    (hready : StatusReady s c) (hc : ControlInvariant job s c)
    (hbreeds : ∀ generation p ordered, c = .breeding generation p ordered →
      ∃ p', p.report job.setting ordered = .ok p') :
    StatusInvariant ((stepControl job s c).1.moveControl 0 (stepControl job s c).2) := by
  obtain ⟨s', c', hcommand, hmoved⟩ | ⟨rfl, hmoved⟩ := moveControl_cases hcontrols hc hbreeds
  · rw [hmoved]
    apply StatusInvariant.of_control
    cases hcommand with
    | @finish cancelled => cases cancelled <;> exact rfl
    | persist | clearPartials | clearGenetic => exact hready
    | cancel | start | mark | create | store | clear | keep | prescreen | screened | countNone
    | count | loadState | loadPartials | append | stop | goOn | complete | breed | close =>
      exact trivial
  · rw [hmoved]
    exact .of_none rfl hready

/-- A command that leaves the status and the finalizations as they are, before the run is
finalized. -/
theorem StatusInvariant.of_open {s' : Staging Rng} (hinv : StagingInvariant job s')
    (hopen : s'.finalizations = [])
    (hcontrols : ∀ c ∈ s'.controls, StatusReady s' c) : StatusInvariant s' :=
  ⟨hcontrols, fun hsettled => (not_settled_of_open hinv hopen hsettled).elim⟩

theorem StatusReady.frame {s' : Staging Rng} (hstatus : s'.status = s.status) {c : Control Rng}
    (h : StatusReady s c) : StatusReady s' c := by
  cases c with
  | clearingPartials | clearingGenetic | clearingKeys =>
    rw [StatusReady, hstatus]
    exact h
  | starting | marking | creating | storing | clearing | screening | counting | sending
  | loadingState | loadingPartials | appending | deciding | breeding | closing | finishing
  | persisting => exact h

theorem status_stepWorker (s : Staging Rng) (worker : Worker) (outcome) :
    (stepWorker s worker outcome).1.status = s.status ∧
      (stepWorker s worker outcome).1.finalizations = s.finalizations ∧
      ∀ c ∈ (stepWorker s worker outcome).1.controls,
        c ∈ s.controls ∨ c = .loadingState worker.generation := by
  cases hpoint : worker.point with
  | fetching =>
    simp only [stepWorker, hpoint]
    cases s.stored.bind fun p => p.population[worker.index]? with
    | none => exact ⟨rfl, rfl, fun _ hc => .inl hc⟩
    | some individual => exact ⟨rfl, rfl, fun _ hc => .inl hc⟩
  | decrementing =>
    simp only [stepWorker, hpoint]
    refine ⟨trivial, trivial, ?_⟩
    intro c hc
    split at hc
    · obtain hold | hnew := List.mem_append.mp hc
      · exact .inl hold
      · exact .inr (List.mem_singleton.mp hnew)
    · exact .inl hc
  | queued | checking | evaluating | stashing | returned =>
    simp only [stepWorker, hpoint]
    exact ⟨trivial, trivial, fun _ hc => .inl hc⟩

theorem StagingInvariant.open_of_pending (h : StagingInvariant job s) {k : ℕ} {worker : Worker}
    (hk : s.workers[k]? = some worker) (hpending : worker.point.isPending = true) :
    s.finalizations = [] := by
  obtain ⟨generation, p, unsent, hrunning⟩ := h.running_of_pending hk hpending
  exact hrunning.current.finalizations

theorem StatusInvariant.control (h : StatusInvariant s) (hinv : StagingInvariant job s) {k : ℕ}
    (hguarded : s.Guarded job (.control k)) : StatusInvariant (s.step job (.control k)) := by
  have hnext := hinv.control hguarded
  cases hk : s.controls[k]? with
  | none =>
    simp only [Staging.step, hk]
    exact h
  | some c =>
    cases hinv.phase with
    | control c' hcontrols hworkers hc =>
      obtain ⟨rfl, rfl⟩ := eq_zero_of_singleton hcontrols hk
      simp only [Staging.step, hk]
      refine status_control hcontrols (h.controls _ (List.mem_of_getElem? hk)) hc ?_
      rintro generation p ordered rfl
      exact hguarded generation p ordered hk
    | running generation p unsent hrunning =>
      have hcontrols := hrunning.controls
      split at hcontrols
      · rw [hcontrols] at hk
        cases hk
      · obtain ⟨rfl, rfl⟩ := eq_zero_of_singleton hcontrols hk
        refine .of_open hnext ?_ ?_
        · simp only [Staging.step, hk]
          rcases unsent with _ | ⟨index, _ | ⟨index', unsent⟩⟩
          · exact hrunning.current.finalizations
          · exact hrunning.current.finalizations
          · exact hrunning.current.finalizations
        · simp only [Staging.step, hk]
          rcases unsent with _ | ⟨index, _ | ⟨index', unsent⟩⟩
          · intro c hc
            simp [stepControl, Staging.moveControl, hcontrols] at hc
          · intro c hc
            simp [stepControl, Staging.moveControl, hcontrols] at hc
          · intro c hc
            have hsending : c = .sending generation (index' :: unsent) := by
              simpa [stepControl, Staging.moveControl, hcontrols] using hc
            rw [hsending]
            trivial
    | ended hcontrols hworkers hclosed =>
      rw [hcontrols] at hk
      cases hk

theorem StatusInvariant.move (h : StatusInvariant s) {s' : Staging Rng} {k : ℕ} {worker : Worker}
    {point : WorkerPoint} (hnext : StagingInvariant job (s'.moveWorker k worker point))
    (hstatus : s'.status = s.status) (hopen : s'.finalizations = [])
    (hcontrols : ∀ c ∈ s'.controls, c ∈ s.controls ∨ c = .loadingState worker.generation) :
    StatusInvariant (s'.moveWorker k worker point) := by
  refine .of_open hnext hopen ?_
  intro c hc
  obtain hold | rfl := hcontrols c hc
  · exact (h.controls c hold).frame hstatus
  · trivial

theorem StatusInvariant.step (event : StagingEvent) (hrecords : s.Records job event)
    (hinv : StagingInvariant job s) (h : StatusInvariant s) :
    StatusInvariant (s.step job event) := by
  have hnext := hinv.step event hrecords.1
  cases event with
  | control k => exact h.control hinv hrecords.1
  | deliver k =>
    cases hk : s.workers[k]? with
    | none =>
      simp only [Staging.step, hk]
      exact h
    | some worker =>
      obtain ⟨g, index, point⟩ := worker
      cases point with
      | queued =>
        simp only [Staging.step, hk] at hnext ⊢
        exact h.move hnext rfl (hinv.open_of_pending hk rfl) (fun _ hc => .inl hc)
      | checking | fetching | evaluating | stashing | decrementing | returned =>
        simp only [Staging.step, hk]
        exact h
  | work k outcome =>
    cases hk : s.workers[k]? with
    | none =>
      simp only [Staging.step, hk]
      exact h
    | some worker =>
      simp only [Staging.step, hk] at hnext ⊢
      by_cases hpending : worker.point.isPending = true
      · obtain ⟨hstatus, hfinalizations, hcontrols⟩ := status_stepWorker s worker outcome
        exact h.move hnext hstatus
          (hfinalizations.trans (hinv.open_of_pending hk hpending)) hcontrols
      · have hreturned := returned_of_not_pending hpending
        have hstep : stepWorker s worker outcome = (s, worker.point) := by
          simp only [stepWorker, hreturned]
        rw [hstep, moveWorker_self hk]
        exact h
  | controlRaises k =>
    cases hk : s.controls[k]? with
    | none =>
      simp only [Staging.step, hk]
      exact h
    | some c =>
      have hready := h.controls c (List.mem_of_getElem? hk)
      have hguarded := hrecords.1 c hk
      have hkept := fun status => hrecords.2 k status rfl
      simp only [Staging.step, hk]
      cases hinv.phase with
      | control c' hcontrols hworkers hc =>
        obtain ⟨rfl, rfl⟩ := eq_zero_of_singleton hcontrols hk
        cases c' with
        | marking =>
          exact (congrArg StatusInvariant (moveControl_some hcontrols)).mpr (.of_control trivial)
        | finishing cancelled =>
          exact (congrArg StatusInvariant (moveControl_some hcontrols)).mpr (.of_control rfl)
        | persisting status => exact (hkept status hk).elim
        | clearingPartials | clearingGenetic | clearingKeys =>
          exact (congrArg StatusInvariant (moveControl_none hcontrols)).mpr (.of_none rfl hready)
        | starting | creating | storing | clearing | screening | counting | sending | loadingState
        | loadingPartials | appending | deciding | breeding | closing => cases hguarded
      | running generation p unsent hrunning =>
        have hcontrols := hrunning.controls
        split at hcontrols
        · rw [hcontrols] at hk
          cases hk
        · obtain ⟨-, rfl⟩ := eq_zero_of_singleton hcontrols hk
          cases hguarded
      | ended hcontrols hworkers hclosed =>
        rw [hcontrols] at hk
        cases hk
  | workerRaises k =>
    cases hk : s.workers[k]? with
    | none =>
      simp only [Staging.step, hk]
      exact h
    | some worker =>
      simp only [Staging.step, hk] at hnext ⊢
      by_cases hpending : worker.point.isPending = true
      · exact h.move hnext rfl (hinv.open_of_pending hk hpending) (fun _ hc => .inl hc)
      · have hhandler : worker.point.handler = worker.point := by
          rw [returned_of_not_pending hpending]
          rfl
        rw [hhandler, moveWorker_self hk]
        exact h
  | requestCancel =>
    refine ⟨?_, fun hsettled => RunStatus.isTerminal_cancel (h.settled hsettled)⟩
    intro c hc
    have hready := h.controls c hc
    cases c with
    | clearingPartials | clearingGenetic | clearingKeys => exact RunStatus.isTerminal_cancel hready
    | starting | marking | creating | storing | clearing | screening | counting | sending
    | loadingState | loadingPartials | appending | deciding | breeding | closing | finishing
    | persisting => exact hready

end Status

theorem Staging.recorded_of_admissible (job : GenerationJob Rng) {events : List StagingEvent}
    (h : Admissible (Staging.step job) (Staging.Records job) {} events) :
    (run (Staging.step job) {} events).Recorded := by
  have hinit : StatusInvariant ({} : Staging Rng) := by
    refine ⟨?_, ?_⟩
    · intro c hc
      obtain rfl := List.mem_singleton.mp hc
      trivial
    · intro hsettled
      cases hsettled.1
  have hboth := invariant_of_admissible (fun s => StagingInvariant job s ∧ StatusInvariant s) h
    ⟨stagingInvariant_init job, hinit⟩
    (fun s event hrecords hinv => ⟨hinv.1.step event hrecords.1,
      hinv.2.step event hrecords hinv.1⟩)
  exact hboth.2.settled

/-- Every genetic run, and every run of a provider of candidates, ends with a status where nothing
raises outside a guarded section, and the provider has `unsupported_names` or has no candidates. -/
theorem failures_recorded (job : GenerationJob Rng) (provider : CandidateProvider)
    (geneticEvents discoveryEvents : List StagingEvent)
    (hgenetic : Admissible (Staging.step job) (Staging.Records job) {} geneticEvents)
    (hprovider : provider.unsupportedNames.isSome ∨ provider.candidates = [])
    (hdiscovery : Admissible (Discovery.step provider) Discovery.Records {} discoveryEvents) :
    (run (Staging.step job) {} geneticEvents).Recorded ∧
      (run (Discovery.step provider) {} discoveryEvents).Recorded :=
  ⟨Staging.recorded_of_admissible job hgenetic,
    Discovery.recorded_of_admissible hprovider hdiscovery⟩

/-! ## Runs -/

def Discovery.recordsEvent (s : Discovery) : StagingEvent → Bool
  | .controlRaises k => s.controls[k]?.all DiscoveryControl.recordsRaise
  | .workerRaises k => s.workers[k]?.all fun worker =>
      worker.point.handler.isPending == worker.point.isPending
  | .control _ | .deliver _ | .work _ _ | .requestCancel => true

theorem Discovery.records_of_recordsEvent {s : Discovery} {event : StagingEvent}
    (h : s.recordsEvent event = true) : s.Records event := by
  cases event with
  | controlRaises k =>
    intro control hk
    simpa only [Discovery.recordsEvent, hk, Option.all_some] using h
  | workerRaises k =>
    intro worker hk
    simpa only [Discovery.recordsEvent, hk, Option.all_some, beq_iff_eq] using h
  | control | deliver | work | requestCancel => trivial

/-- A candle strategy and a tick strategy of the registry. -/
def registryProvider : CandidateProvider where
  candidates := [("MACrossover", "MACrossover")]
  unsupportedNames := some ["TickScalper"]

/-- The evaluation of the candidate raises, and so does the finalizer. -/
def raisingEvents : List StagingEvent :=
  List.replicate 7 (.control 0) ++
    [.deliver 0, .work 0 (.error ""), .work 0 (.error ""), .workerRaises 0, .work 0 (.error ""),
      .work 0 (.error ""), .control 0, .control 0, .controlRaises 0] ++
    List.replicate 3 (.control 0)

theorem failures_recorded_cancelled_and_raising :
    (run (Staging.step strongJob) {} cancelledEvents).status = .cancelled ∧
      (run (Discovery.step registryProvider) {} raisingEvents).status = .failed ∧
      (run (Staging.step strongJob) {} cancelledEvents).Recorded ∧
      (run (Discovery.step registryProvider) {} raisingEvents).Recorded := by
  have hguards : Admissible (Staging.step strongJob)
      (fun s event => s.guards strongJob event = true) {} cancelledEvents := by
    decide +kernel
  have hkept : Admissible (Staging.step strongJob)
      (fun _ event => ∀ k, event ≠ .controlRaises k) {} cancelledEvents := by
    apply Admissible.of_forall
    rintro event hevent k rfl
    simp [cancelledEvents, workerEvents] at hevent
  have hgenetic : Admissible (Staging.step strongJob) (Staging.Records strongJob) {}
      cancelledEvents :=
    (hguards.and hkept).mono fun _ _ h =>
      ⟨Staging.guarded_of_guards h.1, fun k _ heq => (h.2 k heq).elim⟩
  have hrecords : Admissible (Discovery.step registryProvider)
      (fun s event => s.recordsEvent event = true) {} raisingEvents := by
    decide +kernel
  refine ⟨by decide +kernel, by decide +kernel, ?_⟩
  exact failures_recorded strongJob registryProvider cancelledEvents raisingEvents hgenetic
    (.inl rfl) (hrecords.mono fun _ _ => Discovery.records_of_recordsEvent)

/-- A provider of hypotheses has no `unsupported_names`. -/
def hypothesisProvider : CandidateProvider where
  candidates := [("win_momentum", "CompositeStrategy")]
  unsupportedNames := none

/-- A genetic run stays running after its provider could not be created; a run of hypotheses stays
running although nothing but the missing method raises. -/
theorem runs_stay_running :
    ¬ (run (Staging.step strongJob) {} [.control 0, .control 0, .controlRaises 0]).Recorded ∧
      ¬ (run (Discovery.step hypothesisProvider) {}
        (List.replicate 6 (.control 0) ++ .deliver 0 :: List.replicate 5 (.work 0 (.error "")) ++
          [.control 0])).Recorded := by
  constructor
  · intro h
    have hstatus := h ⟨rfl, by intro worker hworker; cases hworker⟩
    exact absurd hstatus (by decide +kernel)
  · intro h
    have hsettled : (run (Discovery.step hypothesisProvider) {}
        (List.replicate 6 (.control 0) ++ .deliver 0 :: List.replicate 5 (.work 0 (.error "")) ++
          [.control 0])).Settled := by
      refine ⟨List.eq_nil_of_length_eq_zero (by decide +kernel), ?_⟩
      decide +kernel
    exact absurd (h hsettled) (by decide +kernel)

end QBackend.GeneticSearch
