import QBackend.GenerationBarrier
import QBackend.GeneticChampion

/-!
# One generation after the other

In every run of a staged genetic search in which nothing raises outside its guarded section, there
is one control or there are workers that have still to count, never both but for the messages that
are still being sent. So each generation is bred once, from the results of all of its genomes, and
`_finalize_genetic` is called once.
-/

namespace QBackend.GeneticSearch

open RunInvariants FallibleSteps
open Tasks (JobKeys)

variable {Rng : Type}

/-- The barrier between the generations. -/
structure Staging.OneByOne (job : GenerationJob Rng) (s : Staging Rng) : Prop where
  bred : s.bred.map Prod.fst = List.range s.bred.length
  complete : ∀ entry ∈ s.bred, ∃ population, s.populations[entry.1]? = some population ∧
    entry.2.map CandidateResult.candidateId = population.map Individual.genomeId
  distinct : (s.populations.flatten.map Individual.genomeId).Nodup
  finalized : s.finalizations.length ≤ 1
  after : ∀ finalization ∈ s.finalizations,
    finalization.generation.elim 0 (· + 1) = s.populations.length ∧
      (finalization.cancelled = true ∨
        s.populations.length = job.setting.genetic.generations)
  settled : s.Settled → s.finalizations.length = 1 ∧ s.bred.length = s.populations.length - 1

/-- Nothing raises outside the sections that turn an exception into a result or a status. -/
def Staging.Guarded (job : GenerationJob Rng) (s : Staging Rng) : StagingEvent → Prop
  | .control k => ∀ generation p ordered, s.controls[k]? = some (.breeding generation p ordered) →
      ∃ p', p.report job.setting ordered = .ok p'
  | .controlRaises k => ∀ control, s.controls[k]? = some control →
      (control.handler.isSome || control.isClearing) = true
  | .workerRaises k => ∀ worker, s.workers[k]? = some worker →
      worker.point.handler.isPending = worker.point.isPending
  | .deliver _ | .work _ _ | .requestCancel => True

/-- The report of a control that breeds succeeds. -/
def Control.breeds (job : GenerationJob Rng) : Control Rng → Bool
  | .breeding _ p ordered => (p.report job.setting ordered).toOption.isSome
  | _ => true

def Staging.guards (job : GenerationJob Rng) (s : Staging Rng) : StagingEvent → Bool
  | .control k => s.controls[k]?.all fun control => control.breeds job
  | .controlRaises k => s.controls[k]?.all fun control =>
      control.handler.isSome || control.isClearing
  | .workerRaises k => s.workers[k]?.all fun worker =>
      worker.point.handler.isPending == worker.point.isPending
  | .deliver _ | .work _ _ | .requestCancel => true

theorem Staging.guarded_of_guards {job : GenerationJob Rng} {s : Staging Rng} {event : StagingEvent}
    (h : s.guards job event = true) : s.Guarded job event := by
  cases event with
  | control k =>
    intro generation p ordered hk
    simp only [Staging.guards, hk, Option.all_some] at h
    exact exists_ok_of_isSome h
  | controlRaises k =>
    intro control hk
    simpa only [Staging.guards, hk, Option.all_some] using h
  | workerRaises k =>
    intro worker hk
    simpa only [Staging.guards, hk, Option.all_some, beq_iff_eq] using h
  | deliver | work | requestCancel => trivial

/-! ## Invariants -/

def Staging.ids (s : Staging Rng) : List String :=
  s.populations.flatten.map Individual.genomeId

/-- What has happened so far, in every state. -/
structure Sound (s : Staging Rng) : Prop where
  bred : s.bred.map Prod.fst = List.range s.bred.length
  complete : ∀ entry ∈ s.bred, ∃ population, s.populations[entry.1]? = some population ∧
    entry.2.map CandidateResult.candidateId = population.map Individual.genomeId
  distinct : s.ids.Nodup

/-- The ids that were given are initial ones, or have numbers below the next one. -/
def IdsBelow (job : GenerationJob Rng) (ids : List String) (next : ℕ) : Prop :=
  ∀ id ∈ ids, id ∈ initialGenomeIds job.initial.hypotheses job.setting.genetic.populationSize ∨
    ∃ generation n, n < next ∧ id = newGenomeId generation n

/-- The generation is the last one dispatched, and its provider is stored. -/
structure Current (job : GenerationJob Rng) (s : Staging Rng) (generation : ℕ) (p : Provider Rng) :
    Prop where
  stored : s.stored = some p
  length : s.populations.length = generation + 1
  last : s.populations.getLast? = some p.population
  bred : s.bred.length = generation
  finalizations : s.finalizations = []
  within : generation < job.setting.genetic.generations
  below : IdsBelow job s.ids p.nextIndividual

/-- The result of the genome at the index is staged. -/
def StagedFor (keys : JobKeys CandidateResult) (population : List Individual) (index : ℕ) :
    Prop :=
  ∃ result, (index, result) ∈ keys.partials ∧
    ∀ individual, population[index]? = some individual → result.candidateId = individual.genomeId

/-- All results of the generation are staged, or the run is cancelled. -/
def Collected (keys : JobKeys CandidateResult) (population : List Individual) : Prop :=
  (∀ i < population.length, StagedFor keys population i) ∨ keys.cancelled = true

/-- The list has one result for every genome, in their order, or the run is cancelled. -/
def Answers (keys : JobKeys CandidateResult) (population : List Individual)
    (ordered : List CandidateResult) : Prop :=
  ordered.map CandidateResult.candidateId = population.map Individual.genomeId ∨
    keys.cancelled = true

/-- `_finalize_genetic` has been called. -/
structure Closed (job : GenerationJob Rng) (s : Staging Rng) : Prop where
  finalizations : s.finalizations.length = 1
  after : ∀ finalization ∈ s.finalizations,
    finalization.generation.elim 0 (· + 1) = s.populations.length ∧
      (finalization.cancelled = true ∨
        s.populations.length = job.setting.genetic.generations)
  bred : s.bred.length = s.populations.length - 1

/-- What holds before the next command of the only control. -/
def ControlInvariant (job : GenerationJob Rng) (s : Staging Rng) : Control Rng → Prop
  | .starting | .marking | .creating =>
    s.populations = [] ∧ s.bred = [] ∧ s.finalizations = []
  | .storing generation p =>
    s.populations.length = generation ∧ s.bred.length = generation ∧ s.finalizations = [] ∧
      generation < job.setting.genetic.generations ∧
      (s.ids ++ p.population.map Individual.genomeId).Nodup ∧
      IdsBelow job (s.ids ++ p.population.map Individual.genomeId) p.nextIndividual
  | .clearing generation p => Current job s generation p.restored
  | .screening generation todo alive => ∃ p, Current job s generation p ∧
      (∀ i < p.population.length, StagedFor s.keys p.population i ∨ (∃ x ∈ todo, x.2 = i) ∨ i ∈ alive) ∧
      (∀ x ∈ todo, p.population[x.2]? = some x.1) ∧ ∀ i ∈ alive, i < p.population.length
  | .counting generation alive => ∃ p, Current job s generation p ∧
      (∀ i < p.population.length, StagedFor s.keys p.population i ∨ i ∈ alive) ∧
      ∀ i ∈ alive, i < p.population.length
  | .sending _ _ => False
  | .loadingState generation => ∃ p, Current job s generation p ∧ Collected s.keys p.population
  | .loadingPartials generation p => Current job s generation p ∧ Collected s.keys p.population
  | .appending generation p ordered | .deciding generation p ordered =>
    Current job s generation p ∧ Answers s.keys p.population ordered
  | .breeding generation p ordered => Current job s generation p ∧
      generation + 1 < job.setting.genetic.generations ∧
      ordered.map CandidateResult.candidateId = p.population.map Individual.genomeId
  | .closing _ | .finishing _ | .persisting _ | .clearingPartials | .clearingGenetic
  | .clearingKeys => Closed job s

def WorkerPoint.isUnstaged : WorkerPoint → Bool
  | .queued | .checking | .fetching | .evaluating _ | .stashing _ => true
  | .decrementing | .returned => false

def WorkerPoint.isPlain : WorkerPoint → Bool
  | .evaluating _ | .stashing _ => false
  | .queued | .checking | .fetching | .decrementing | .returned => true

theorem isPending_of_isUnstaged {point : WorkerPoint} (h : point.isUnstaged = true) :
    point.isPending = true := by
  cases point with
  | returned => cases h
  | queued | checking | fetching | evaluating | stashing | decrementing => rfl

def pendingCount (workers : List Worker) : ℕ := workers.countP fun worker => worker.point.isPending

def NoPending (workers : List Worker) : Prop :=
  ∀ worker ∈ workers, worker.point.isPending = false

/-- A worker of the generation works for the genome at its index. -/
structure WorksFor (population : List Individual) (generation : ℕ) (worker : Worker) : Prop where
  generation : worker.generation = generation
  index : worker.index < population.length
  evaluating : ∀ individual, worker.point = .evaluating individual →
    population[worker.index]? = some individual
  stashing : ∀ result, worker.point = .stashing result → ∀ individual,
    population[worker.index]? = some individual → result.candidateId = individual.genomeId

/-- The messages of a generation are out or being sent, and some worker has still to count. -/
structure Running (job : GenerationJob Rng) (s : Staging Rng) (generation : ℕ) (p : Provider Rng)
    (unsent : List ℕ) : Prop where
  current : Current job s generation p
  controls : s.controls = if unsent = [] then [] else [.sending generation unsent]
  counter : s.keys.counter = some ((unsent.length + pendingCount s.workers : ℕ) : ℤ)
  open_ : 0 < unsent.length + pendingCount s.workers
  covered : ∀ i < p.population.length, StagedFor s.keys p.population i ∨ i ∈ unsent ∨
    (∃ worker ∈ s.workers, worker.index = i ∧ worker.point.isUnstaged = true) ∨
      s.keys.cancelled = true
  unsent : ∀ i ∈ unsent, i < p.population.length
  workers : ∀ worker ∈ s.workers, worker.point.isPending = true →
    WorksFor p.population generation worker

inductive Phase (job : GenerationJob Rng) (s : Staging Rng) : Prop
  | control (c : Control Rng) (hcontrols : s.controls = [c]) (hworkers : NoPending s.workers)
      (h : ControlInvariant job s c)
  | running (generation : ℕ) (p : Provider Rng) (unsent : List ℕ)
      (h : Running job s generation p unsent)
  | ended (hcontrols : s.controls = []) (hworkers : NoPending s.workers) (h : Closed job s)

structure StagingInvariant (job : GenerationJob Rng) (s : Staging Rng) : Prop where
  sound : Sound s
  phase : Phase job s

theorem StagingInvariant.oneByOne {job : GenerationJob Rng} {s : Staging Rng}
    (h : StagingInvariant job s) : s.OneByOne job := by
  have hnone : s.finalizations = [] → (∃ c, s.controls = [c]) ∨ ¬ NoPending s.workers ∨
      s.controls ≠ [] := by
    intro hnil
    cases h.phase with
    | control c hcontrols hworkers hc => exact .inl ⟨c, hcontrols⟩
    | running generation p unsent hrunning =>
      by_cases hunsent : unsent = []
      · right; left
        intro hnone
        have hopen := hrunning.open_
        have hzero : pendingCount s.workers = 0 := by
          rw [pendingCount, List.countP_eq_zero]
          intro worker hworker
          simp [hnone worker hworker]
        rw [hunsent, hzero] at hopen
        exact absurd hopen (by decide)
      · right; right
        rw [hrunning.controls, if_neg hunsent]
        exact List.cons_ne_nil _ _
    | ended hcontrols hworkers hclosed =>
      have hone := hclosed.finalizations
      rw [hnil] at hone
      cases hone
  have hclosed : s.finalizations = [] ∨ Closed job s := by
    cases h.phase with
    | running generation p unsent hrunning => exact .inl hrunning.current.finalizations
    | ended hcontrols hworkers hclosed => exact .inr hclosed
    | control c hcontrols hworkers hc =>
      cases c with
      | starting | marking | creating => exact .inl hc.2.2
      | storing generation p => exact .inl hc.2.2.1
      | clearing generation p => exact .inl hc.finalizations
      | screening generation todo alive =>
        obtain ⟨p, hcurrent, -⟩ := hc
        exact .inl hcurrent.finalizations
      | counting generation alive =>
        obtain ⟨p, hcurrent, -⟩ := hc
        exact .inl hcurrent.finalizations
      | sending generation unsent => exact hc.elim
      | loadingState generation =>
        obtain ⟨p, hcurrent, -⟩ := hc
        exact .inl hcurrent.finalizations
      | loadingPartials generation p => exact .inl hc.1.finalizations
      | appending generation p ordered | deciding generation p ordered
      | breeding generation p ordered => exact .inl hc.1.finalizations
      | closing | finishing | persisting | clearingPartials | clearingGenetic | clearingKeys =>
        exact .inr hc
  refine ⟨h.sound.bred, h.sound.complete, h.sound.distinct, ?_, ?_, ?_⟩
  · obtain hnil | hclosed := hclosed
    · rw [hnil]
      exact Nat.zero_le _
    · exact hclosed.finalizations.le
  · obtain hnil | hclosed := hclosed
    · rw [hnil]
      intro _ hmem
      cases hmem
    · exact hclosed.after
  · intro hsettled
    obtain hnil | hclosed := hclosed
    · obtain ⟨c, hc⟩ | hpending | hcontrols := hnone hnil
      · rw [hsettled.1] at hc
        cases hc
      · exact (hpending hsettled.2).elim
      · exact (hcontrols hsettled.1).elim
    · exact ⟨hclosed.finalizations, hclosed.bred⟩

/-! ## Frames -/

section Frames

variable {job : GenerationJob Rng} {s s' : Staging Rng}

theorem Sound.frame (h : Sound s) (hpopulations : s'.populations = s.populations)
    (hbred : s'.bred = s.bred) : Sound s' := by
  refine ⟨?_, ?_, ?_⟩
  · rw [hbred]
    exact h.bred
  · rw [hbred, hpopulations]
    exact h.complete
  · rw [Staging.ids, hpopulations]
    exact h.distinct

theorem Current.frame {generation : ℕ} {p : Provider Rng} (h : Current job s generation p)
    (hstored : s'.stored = s.stored) (hpopulations : s'.populations = s.populations)
    (hbred : s'.bred = s.bred) (hfinalizations : s'.finalizations = s.finalizations) :
    Current job s' generation p := by
  refine ⟨hstored.trans h.stored, ?_, ?_, ?_, hfinalizations.trans h.finalizations, h.within, ?_⟩
  · rw [hpopulations]
    exact h.length
  · rw [hpopulations]
    exact h.last
  · rw [hbred]
    exact h.bred
  · rw [Staging.ids, hpopulations]
    exact h.below

theorem Closed.frame (h : Closed job s) (hpopulations : s'.populations = s.populations)
    (hbred : s'.bred = s.bred) (hfinalizations : s'.finalizations = s.finalizations) :
    Closed job s' := by
  refine ⟨?_, ?_, ?_⟩
  · rw [hfinalizations]
    exact h.finalizations
  · rw [hfinalizations, hpopulations]
    exact h.after
  · rw [hbred, hpopulations]
    exact h.bred

end Frames

/-! ## Staged results -/

section StagedResults

variable {keys : JobKeys CandidateResult} {population : List Individual} {i j : ℕ}
  {result : CandidateResult}

theorem stagedFor_stash_self
    (h : ∀ individual, population[i]? = some individual →
      result.candidateId = individual.genomeId) :
    StagedFor (keys.stashPartial i result) population i :=
  ⟨result, by simp [JobKeys.stashPartial], h⟩

theorem StagedFor.stash_of_ne (h : StagedFor keys population j) (hne : j ≠ i) :
    StagedFor (keys.stashPartial i result) population j := by
  obtain ⟨r, hr, hid⟩ := h
  refine ⟨r, ?_, hid⟩
  rw [JobKeys.stashPartial]
  exact List.mem_append_left _ (List.mem_filter.mpr ⟨hr, by simpa using hne⟩)

/-- Where every genome has its result staged, the list that is bred from answers the population. -/
theorem Collected.answers (h : Collected keys population) :
    Answers keys population (orderedResults population keys.loadPartials) := by
  obtain hall | hcancelled := h
  · left
    have hfound : ∀ individual ∈ population, ∃ r,
        (keys.loadPartials.reverse.find? fun r => r.candidateId = individual.genomeId) = some r ∧
          r.candidateId = individual.genomeId := by
      intro individual hmem
      obtain ⟨i, hi, hget⟩ := List.mem_iff_getElem.mp hmem
      obtain ⟨r, hr, hid⟩ := hall i hi
      have hr' : r ∈ keys.loadPartials.reverse :=
        List.mem_reverse.mpr (List.mem_map.mpr ⟨(i, r), hr, rfl⟩)
      have hrid := hid individual (by rw [List.getElem?_eq_getElem hi, hget])
      cases hfind : keys.loadPartials.reverse.find?
          (fun r => r.candidateId = individual.genomeId) with
      | none =>
        have := List.find?_eq_none.mp hfind r hr'
        simp [hrid] at this
      | some found => exact ⟨found, rfl, by simpa using List.find?_some hfind⟩
    clear hall
    unfold orderedResults
    induction population with
    | nil => rfl
    | cons individual population ih =>
      obtain ⟨r, hr, hid⟩ := hfound individual List.mem_cons_self
      have hrest := ih fun other hother => hfound other (List.mem_cons_of_mem _ hother)
      rw [List.filterMap_cons, hr, List.map_cons, List.map_cons, hid, hrest]
  · exact .inr hcancelled

end StagedResults

/-! ## The commands of the only control -/

section ControlSteps

variable {job : GenerationJob Rng} {s : Staging Rng}

/-- Between two commands the results stay staged, and the flag of a cancelled run stays set. -/
theorem ControlInvariant.frame {s' : Staging Rng} {c : Control Rng} (h : ControlInvariant job s c)
    (hstored : s'.stored = s.stored) (hpopulations : s'.populations = s.populations)
    (hbred : s'.bred = s.bred) (hfinalizations : s'.finalizations = s.finalizations)
    (hpartials : s'.keys.partials = s.keys.partials)
    (hcancelled : s.keys.cancelled = true → s'.keys.cancelled = true) :
    ControlInvariant job s' c := by
  have hcurrent : ∀ {generation p}, Current job s generation p → Current job s' generation p :=
    fun h => h.frame hstored hpopulations hbred hfinalizations
  have hstaged : ∀ {population i}, StagedFor s.keys population i → StagedFor s'.keys population i :=
    fun ⟨result, hmem, hid⟩ => ⟨result, hpartials ▸ hmem, hid⟩
  cases c with
  | starting | marking | creating | storing generation p =>
    simpa only [ControlInvariant, Staging.ids, hpopulations, hbred, hfinalizations] using h
  | clearing generation p => exact hcurrent h
  | screening generation todo alive =>
    obtain ⟨p, hp, hall, hrest⟩ := h
    exact ⟨p, hcurrent hp, fun i hi => (hall i hi).imp_left hstaged, hrest⟩
  | counting generation alive =>
    obtain ⟨p, hp, hall, hrest⟩ := h
    exact ⟨p, hcurrent hp, fun i hi => (hall i hi).imp_left hstaged, hrest⟩
  | sending generation unsent => exact h
  | loadingState generation =>
    obtain ⟨p, hp, hcollected⟩ := h
    exact ⟨p, hcurrent hp, hcollected.imp (fun hall i hi => hstaged (hall i hi)) hcancelled⟩
  | loadingPartials generation p =>
    exact ⟨hcurrent h.1, h.2.imp (fun hall i hi => hstaged (hall i hi)) hcancelled⟩
  | appending generation p ordered | deciding generation p ordered =>
    exact ⟨hcurrent h.1, h.2.imp_right hcancelled⟩
  | breeding generation p ordered => exact ⟨hcurrent h.1, h.2⟩
  | closing | finishing | persisting | clearingPartials | clearingGenetic | clearingKeys =>
    exact Closed.frame h hpopulations hbred hfinalizations

theorem StagingInvariant.of_control {s' : Staging Rng} {c : Control Rng} (hsound : Sound s')
    (hworkers : NoPending s'.workers) (h : ControlInvariant job s' c) :
    StagingInvariant job { s' with controls := [c] } :=
  ⟨hsound.frame rfl rfl, .control c rfl hworkers (h.frame rfl rfl rfl rfl rfl id)⟩

theorem current_store {generation : ℕ} {p : Provider Rng}
    (h : ControlInvariant job s (.storing generation p)) :
    Current job (s.store p) generation p.restored := by
  obtain ⟨hlength, hbred, hfinalizations, hwithin, -, hbelow⟩ := h
  refine ⟨rfl, by simp [Staging.store, hlength], by simp [Staging.store, Provider.restored], hbred,
    hfinalizations, hwithin, ?_⟩
  simpa [Staging.store, Staging.ids, Provider.restored] using hbelow

theorem sound_store {generation : ℕ} {p : Provider Rng} (hsound : Sound s)
    (h : ControlInvariant job s (.storing generation p)) :
    Sound (s.store p) := by
  obtain ⟨-, -, -, -, hnodup, -⟩ := h
  refine ⟨hsound.bred, ?_, ?_⟩
  · intro entry hentry
    obtain ⟨population, hpopulation, hids⟩ := hsound.complete entry hentry
    refine ⟨population, ?_, hids⟩
    obtain ⟨hlt, -⟩ := List.getElem?_eq_some_iff.mp hpopulation
    rw [Staging.store, List.getElem?_append_left hlt]
    exact hpopulation
  · simpa [Staging.store, Staging.ids] using hnodup

theorem fresh_report {generation : ℕ} {p p' : Provider Rng} {ordered : List CandidateResult}
    (hsound : Sound s) (hcurrent : Current job s generation p)
    (hreport : p.report job.setting ordered = .ok p') :
    (s.ids ++ p'.population.map Individual.genomeId).Nodup ∧
      IdsBelow job (s.ids ++ p'.population.map Individual.genomeId) p'.nextIndividual := by
  obtain ⟨hids, hnext, -⟩ := ids_report hreport
  have hnumber : ∀ id ∈ p'.population.map Individual.genomeId, ∃ n, p.nextIndividual ≤ n ∧
      n < p'.nextIndividual ∧ id = newGenomeId p.generation n := by
    intro id hid
    rw [hids] at hid
    obtain ⟨n, hn, rfl⟩ := List.mem_map.mp hid
    rw [List.mem_range'_1] at hn
    exact ⟨n, hn.1, by omega, rfl⟩
  constructor
  · rw [List.nodup_append]
    refine ⟨hsound.distinct, nodup_ids_report hreport, ?_⟩
    intro a ha b hb heq
    subst heq
    obtain ⟨n, hle, -, rfl⟩ := hnumber a hb
    obtain hinitial | ⟨g, m, hlt, heq⟩ := hcurrent.below _ ha
    · exact not_mem_initialGenomeIds _ _ _ _ hinitial
    · have := newGenomeId_number heq
      omega
  · intro id hid
    obtain hold | hnew := List.mem_append.mp hid
    · obtain hinitial | ⟨g, m, hlt, heq⟩ := hcurrent.below id hold
      · exact .inl hinitial
      · exact .inr ⟨g, m, by omega, heq⟩
    · obtain ⟨n, -, hlt, rfl⟩ := hnumber id hnew
      exact .inr ⟨p.generation, n, hlt, rfl⟩

theorem closed_finalize {generation : ℕ} {p : Provider Rng} {cancelled : Bool}
    (hcurrent : Current job s generation p)
    (h : cancelled = true ∨ generation + 1 = job.setting.genetic.generations) :
    Closed job (s.finalize (some generation) cancelled) := by
  refine ⟨by simp [Staging.finalize, hcurrent.finalizations], ?_, ?_⟩
  · intro finalization hmem
    simp only [Staging.finalize, hcurrent.finalizations, List.nil_append,
      List.mem_singleton] at hmem
    subst hmem
    refine ⟨by simp [Staging.finalize, hcurrent.length], ?_⟩
    obtain h | h := h
    · exact .inl h
    · right
      simp only [Staging.finalize, hcurrent.length, h]
  · simp [Staging.finalize, hcurrent.bred, hcurrent.length]

theorem storing_initial (hpopulations : s.populations = []) (hbred : s.bred = [])
    (hfinalizations : s.finalizations = []) :
    ControlInvariant job s (.storing 0 job.provider) := by
  have hgenerations := job.setting.genetic.generations_ge
  have hids : s.ids ++ job.provider.population.map Individual.genomeId =
      initialGenomeIds job.initial.hypotheses job.setting.genetic.populationSize := by
    rw [Staging.ids, hpopulations]
    exact job.initial.ids
  refine ⟨by rw [hpopulations]; rfl, by rw [hbred]; rfl, hfinalizations, by omega, ?_, ?_⟩
  · rw [hids]
    exact nodup_initialGenomeIds _ _
  · rw [hids]
    intro id hid
    exact .inl hid

theorem moveControl_some {c c' : Control Rng} (h : s.controls = [c]) :
    s.moveControl 0 (some c') = { s with controls := [c'] } := by
  simp [Staging.moveControl, h]

theorem moveControl_none {c : Control Rng} (h : s.controls = [c]) :
    s.moveControl 0 none = { s with controls := [] } := by
  simp [Staging.moveControl, h]

theorem screening_step {generation index : ℕ} {individual : Individual}
    {todo : List (Individual × ℕ)} {alive : List ℕ}
    (h : ControlInvariant job s (.screening generation ((individual, index) :: todo) alive)) :
    ControlInvariant job s (.screening generation todo (alive ++ [index])) ∧
      ControlInvariant job
        { s with keys := s.keys.stashPartial index (prescreenResult individual.genomeId) }
        (.screening generation todo alive) := by
  obtain ⟨p, hcurrent, hcovered, htodo, halive⟩ := h
  have hindex : p.population[index]? = some individual := htodo _ List.mem_cons_self
  have htodo' : ∀ x ∈ todo, p.population[x.2]? = some x.1 :=
    fun x hx => htodo x (List.mem_cons_of_mem _ hx)
  constructor
  · refine ⟨p, hcurrent, ?_, htodo', ?_⟩
    · intro i hi
      obtain hstaged | ⟨x, hx, rfl⟩ | halive := hcovered i hi
      · exact .inl hstaged
      · obtain rfl | hx := List.mem_cons.mp hx
        · exact .inr (.inr (by simp))
        · exact .inr (.inl ⟨x, hx, rfl⟩)
      · exact .inr (.inr (List.mem_append_left _ halive))
    · intro i hi
      obtain hi | hi := List.mem_append.mp hi
      · exact halive i hi
      · obtain rfl := List.mem_singleton.mp hi
        exact (List.getElem?_eq_some_iff.mp hindex).1
  · refine ⟨p, hcurrent.frame rfl rfl rfl rfl, ?_, htodo', halive⟩
    intro i hi
    by_cases heq : i = index
    · subst heq
      left
      apply stagedFor_stash_self
      intro other hother
      rw [hindex] at hother
      cases hother
      rfl
    · obtain hstaged | ⟨x, hx, rfl⟩ | halive := hcovered i hi
      · exact .inl (hstaged.stash_of_ne heq)
      · obtain rfl | hx := List.mem_cons.mp hx
        · exact (heq rfl).elim
        · exact .inr (.inl ⟨x, hx, rfl⟩)
      · exact .inr (.inr halive)

theorem running_of_counting {generation : ℕ} {p : Provider Rng} {alive : List ℕ}
    (hworkers : NoPending s.workers) (hcurrent : Current job s generation p)
    (hcovered : ∀ i < p.population.length, StagedFor s.keys p.population i ∨ i ∈ alive)
    (halive : ∀ i ∈ alive, i < p.population.length) (hne : alive ≠ []) :
    Running job
      { s with keys := s.keys.initCounter alive.length, controls := [.sending generation alive] }
      generation p alive := by
  have hzero : pendingCount s.workers = 0 := by
    rw [pendingCount, List.countP_eq_zero]
    intro worker hworker
    simp [hworkers worker hworker]
  refine ⟨hcurrent.frame rfl rfl rfl rfl, by rw [if_neg hne], ?_, ?_, ?_, halive, ?_⟩
  · simp [JobKeys.initCounter, hzero]
  · have := List.length_pos_iff.mpr hne
    omega
  · intro i hi
    obtain hstaged | hmem := hcovered i hi
    · exact .inl hstaged
    · exact .inr (.inl hmem)
  · intro worker hworker hpending
    rw [hworkers worker hworker] at hpending
    cases hpending

/-- The commands of a control that lead to another one. -/
inductive Command (job : GenerationJob Rng) (s : Staging Rng) :
    Control Rng → Staging Rng → Control Rng → Prop where
  | cancel (h : s.keys.isCancelled = true) :
      Command job s .starting (s.finalize none true) (.closing true)
  | start (h : ¬ s.keys.isCancelled = true) : Command job s .starting s .marking
  | mark : Command job s .marking { s with status := .running } .creating
  | create : Command job s .creating s (.storing 0 job.provider)
  | store {generation p} : Command job s (.storing generation p) (s.store p) (.clearing generation p)
  | clear {generation p} : Command job s (.clearing generation p)
      { s with keys := s.keys.clearPartials } (.screening generation p.population.zipIdx [])
  | keep {generation individual index todo alive} (h : job.isTradeable individual.genome = true) :
      Command job s (.screening generation ((individual, index) :: todo) alive) s
        (.screening generation todo (alive ++ [index]))
  | prescreen {generation individual index todo alive}
      (h : ¬ job.isTradeable individual.genome = true) :
      Command job s (.screening generation ((individual, index) :: todo) alive)
        { s with keys := s.keys.stashPartial index (prescreenResult individual.genomeId) }
        (.screening generation todo alive)
  | screened {generation alive} :
      Command job s (.screening generation [] alive) s (.counting generation alive)
  | countNone {generation} : Command job s (.counting generation [])
      { s with keys := s.keys.initCounter 0 } (.loadingState generation)
  | count {generation index alive} : Command job s (.counting generation (index :: alive))
      { s with keys := s.keys.initCounter (index :: alive).length }
      (.sending generation (index :: alive))
  | loadState {generation p} (h : s.stored = some p) :
      Command job s (.loadingState generation) s (.loadingPartials generation p)
  | loadPartials {generation p} : Command job s (.loadingPartials generation p) s
      (.appending generation p (orderedResults p.population s.keys.loadPartials))
  | append {generation p ordered} : Command job s (.appending generation p ordered)
      { s with generationResults :=
        s.generationResults.filter (fun entry => entry.1 ≠ generation) ++ [(generation, ordered)] }
      (.deciding generation p ordered)
  | stop {generation p ordered} (h : s.keys.isCancelled = true) :
      Command job s (.deciding generation p ordered) (s.finalize (some generation) true)
        (.closing true)
  | goOn {generation p ordered} (h : ¬ s.keys.isCancelled = true)
      (hlt : generation + 1 < job.setting.genetic.generations) :
      Command job s (.deciding generation p ordered) s (.breeding generation p ordered)
  | complete {generation p ordered} (h : ¬ s.keys.isCancelled = true)
      (hlast : ¬ generation + 1 < job.setting.genetic.generations) :
      Command job s (.deciding generation p ordered) (s.finalize (some generation) false)
        (.closing false)
  | breed {generation p ordered p'} (h : p.report job.setting ordered = .ok p') :
      Command job s (.breeding generation p ordered)
        { s with bred := s.bred ++ [(generation, ordered)] } (.storing (generation + 1) p')
  | close {cancelled} : Command job s (.closing cancelled) s (.finishing cancelled)
  | finish {cancelled} : Command job s (.finishing cancelled) s
      (.persisting (if cancelled then .cancelled else .completed))
  | persist {status} : Command job s (.persisting status) { s with status } .clearingPartials
  | clearPartials : Command job s .clearingPartials { s with keys := s.keys.clearPartials }
      .clearingGenetic
  | clearGenetic : Command job s .clearingGenetic { s with stored := none, generationResults := [] }
      .clearingKeys

theorem Command.controls {s' : Staging Rng} {c c' : Control Rng} (h : Command job s c s' c') :
    s'.controls = s.controls := by
  cases h <;> rfl

theorem Command.workers {s' : Staging Rng} {c c' : Control Rng} (h : Command job s c s' c') :
    s'.workers = s.workers := by
  cases h <;> rfl

/-- A control whose report succeeds gives one of these commands, or clears the keys of the job. -/
theorem stepControl_cases {c : Control Rng} (hc : ControlInvariant job s c)
    (hbreeds : ∀ generation p ordered, c = .breeding generation p ordered →
      ∃ p', p.report job.setting ordered = .ok p') :
    (∃ s' c', Command job s c s' c' ∧ stepControl job s c = (s', some c')) ∨ c = .clearingKeys := by
  cases c with
  | starting =>
    by_cases hcancelled : s.keys.isCancelled = true
    · exact .inl ⟨_, _, .cancel hcancelled, if_pos hcancelled⟩
    · exact .inl ⟨_, _, .start hcancelled, if_neg hcancelled⟩
  | marking => exact .inl ⟨_, _, .mark, rfl⟩
  | creating => exact .inl ⟨_, _, .create, rfl⟩
  | storing generation p => exact .inl ⟨_, _, .store, rfl⟩
  | clearing generation p => exact .inl ⟨_, _, .clear, rfl⟩
  | screening generation todo alive =>
    cases todo with
    | nil => exact .inl ⟨_, _, .screened, rfl⟩
    | cons x todo =>
      by_cases htradeable : job.isTradeable x.1.genome = true
      · exact .inl ⟨_, _, .keep htradeable, if_pos htradeable⟩
      · exact .inl ⟨_, _, .prescreen htradeable, if_neg htradeable⟩
  | counting generation alive =>
    cases alive with
    | nil => exact .inl ⟨_, _, .countNone, rfl⟩
    | cons index alive => exact .inl ⟨_, _, .count, rfl⟩
  | sending generation unsent => exact hc.elim
  | loadingState generation =>
    obtain ⟨p, hcurrent, -⟩ := hc
    refine .inl ⟨_, _, .loadState hcurrent.stored, ?_⟩
    simp only [stepControl, hcurrent.stored, Option.map_some]
  | loadingPartials generation p => exact .inl ⟨_, _, .loadPartials, rfl⟩
  | appending generation p ordered => exact .inl ⟨_, _, .append, rfl⟩
  | deciding generation p ordered =>
    by_cases hcancelled : s.keys.isCancelled = true
    · exact .inl ⟨_, _, .stop hcancelled, if_pos hcancelled⟩
    · by_cases hlt : generation + 1 < job.setting.genetic.generations
      · exact .inl ⟨_, _, .goOn hcancelled hlt, (if_neg hcancelled).trans (if_pos hlt)⟩
      · exact .inl ⟨_, _, .complete hcancelled hlt, (if_neg hcancelled).trans (if_neg hlt)⟩
  | breeding generation p ordered =>
    obtain ⟨p', hreport⟩ := hbreeds generation p ordered rfl
    exact .inl ⟨_, _, .breed hreport, by simp only [stepControl, hreport]⟩
  | closing cancelled => exact .inl ⟨_, _, .close, rfl⟩
  | finishing cancelled => exact .inl ⟨_, _, .finish, rfl⟩
  | persisting status => exact .inl ⟨_, _, .persist, rfl⟩
  | clearingPartials => exact .inl ⟨_, _, .clearPartials, rfl⟩
  | clearingGenetic => exact .inl ⟨_, _, .clearGenetic, rfl⟩
  | clearingKeys => exact .inr rfl

theorem moveControl_cases {c : Control Rng} (hcontrols : s.controls = [c])
    (hc : ControlInvariant job s c)
    (hbreeds : ∀ generation p ordered, c = .breeding generation p ordered →
      ∃ p', p.report job.setting ordered = .ok p') :
    (∃ s' c', Command job s c s' c' ∧
      (stepControl job s c).1.moveControl 0 (stepControl job s c).2 =
        { s' with controls := [c'] }) ∨
    c = .clearingKeys ∧ (stepControl job s c).1.moveControl 0 (stepControl job s c).2 =
      { s with keys := s.keys.clearJobKeys, controls := [] } := by
  obtain ⟨s', c', hcommand, hstep⟩ | rfl := stepControl_cases hc hbreeds
  · refine .inl ⟨s', c', hcommand, ?_⟩
    rw [hstep]
    exact moveControl_some (hcommand.controls.trans hcontrols)
  · exact .inr ⟨rfl, moveControl_none hcontrols⟩

theorem closed_cancel (h : s.populations = [] ∧ s.bred = [] ∧ s.finalizations = []) :
    Closed job (s.finalize none true) := by
  obtain ⟨hpopulations, hbred, hfinalizations⟩ := h
  refine ⟨?_, ?_, ?_⟩
  · simp [Staging.finalize, hfinalizations]
  · intro finalization hmem
    simp only [Staging.finalize, hfinalizations, List.nil_append, List.mem_singleton] at hmem
    subst hmem
    exact ⟨by simp [Staging.finalize, hpopulations], .inl rfl⟩
  · simp [Staging.finalize, hbred, hpopulations]

theorem screening_all {generation : ℕ} {p : Provider Rng}
    (hcurrent : Current job s generation p.restored) :
    ControlInvariant job { s with keys := s.keys.clearPartials }
      (.screening generation p.population.zipIdx []) := by
  refine ⟨p.restored, hcurrent.frame rfl rfl rfl rfl, ?_, ?_, by simp⟩
  · intro i hi
    right; left
    have hi' : i < p.population.length := hi
    exact ⟨(p.population[i], i), by simp [List.mem_zipIdx_iff_getElem?, hi'], rfl⟩
  · intro x hx
    exact List.mem_zipIdx_iff_getElem?.mp hx

theorem sound_breed {generation : ℕ} {p : Provider Rng} {ordered : List CandidateResult}
    (hsound : Sound s) (hcurrent : Current job s generation p)
    (hids : ordered.map CandidateResult.candidateId = p.population.map Individual.genomeId) :
    Sound { s with bred := s.bred ++ [(generation, ordered)] } := by
  refine ⟨?_, ?_, hsound.distinct⟩
  · simp [hsound.bred, hcurrent.bred, List.range_succ]
  · intro entry hentry
    obtain hold | hnew := List.mem_append.mp hentry
    · exact hsound.complete entry hold
    · obtain rfl := List.mem_singleton.mp hnew
      refine ⟨p.population, ?_, hids⟩
      have hlast := hcurrent.last
      rw [List.getLast?_eq_getElem?, hcurrent.length] at hlast
      exact hlast

theorem StagingInvariant.command {s' : Staging Rng} {c c' : Control Rng} (hsound : Sound s)
    (hworkers : NoPending s.workers) (hc : ControlInvariant job s c)
    (h : Command job s c s' c') : StagingInvariant job { s' with controls := [c'] } := by
  cases h with
  | cancel h => exact .of_control (hsound.frame rfl rfl) hworkers (closed_cancel hc)
  | start h => exact .of_control hsound hworkers hc
  | mark => exact .of_control (hsound.frame rfl rfl) hworkers hc
  | create => exact .of_control hsound hworkers (storing_initial hc.1 hc.2.1 hc.2.2)
  | store => exact .of_control (sound_store hsound hc) hworkers (current_store hc)
  | clear => exact .of_control (hsound.frame rfl rfl) hworkers (screening_all hc)
  | keep h => exact .of_control hsound hworkers (screening_step hc).1
  | prescreen h => exact .of_control (hsound.frame rfl rfl) hworkers (screening_step hc).2
  | screened =>
    obtain ⟨p, hcurrent, hcovered, -, halive⟩ := hc
    refine .of_control hsound hworkers ⟨p, hcurrent, ?_, halive⟩
    intro i hi
    obtain hstaged | ⟨x, hx, -⟩ | hmem := hcovered i hi
    · exact .inl hstaged
    · cases hx
    · exact .inr hmem
  | countNone =>
    obtain ⟨p, hcurrent, hcovered, -⟩ := hc
    refine .of_control (hsound.frame rfl rfl) hworkers
      ⟨p, hcurrent.frame rfl rfl rfl rfl, .inl fun i hi => ?_⟩
    obtain hstaged | hmem := hcovered i hi
    · exact hstaged
    · cases hmem
  | @count generation index alive =>
    obtain ⟨p, hcurrent, hcovered, halive⟩ := hc
    exact ⟨hsound.frame rfl rfl, .running generation p (index :: alive)
      (running_of_counting hworkers hcurrent hcovered halive (by simp))⟩
  | loadState h =>
    obtain ⟨p, hcurrent, hcollected⟩ := hc
    rw [hcurrent.stored] at h
    cases h
    exact .of_control hsound hworkers ⟨hcurrent, hcollected⟩
  | loadPartials => exact .of_control hsound hworkers ⟨hc.1, hc.2.answers⟩
  | append =>
    exact .of_control (hsound.frame rfl rfl) hworkers ⟨hc.1.frame rfl rfl rfl rfl, hc.2⟩
  | stop h => exact .of_control (hsound.frame rfl rfl) hworkers (closed_finalize hc.1 (.inl rfl))
  | goOn h hlt =>
    refine .of_control hsound hworkers ⟨hc.1, hlt, ?_⟩
    obtain hids | hcancelled := hc.2
    · exact hids
    · exact (h hcancelled).elim
  | complete h hlast =>
    have hwithin := hc.1.within
    exact .of_control (hsound.frame rfl rfl) hworkers (closed_finalize hc.1 (.inr (by omega)))
  | breed h =>
    obtain ⟨hcurrent, hlt, hids⟩ := hc
    obtain ⟨hnodup, hbelow⟩ := fresh_report hsound hcurrent h
    exact .of_control (sound_breed hsound hcurrent hids) hworkers
      ⟨hcurrent.length, by simp [hcurrent.bred], hcurrent.finalizations, hlt, hnodup, hbelow⟩
  | close | finish => exact .of_control hsound hworkers hc
  | persist | clearPartials | clearGenetic =>
    exact .of_control (hsound.frame rfl rfl) hworkers (Closed.frame hc rfl rfl rfl)

theorem control_step {c : Control Rng} (hsound : Sound s) (hcontrols : s.controls = [c])
    (hworkers : NoPending s.workers) (hc : ControlInvariant job s c)
    (hbreeds : ∀ generation p ordered, c = .breeding generation p ordered →
      ∃ p', p.report job.setting ordered = .ok p') :
    StagingInvariant job
      ((stepControl job s c).1.moveControl 0 (stepControl job s c).2) := by
  obtain ⟨s', c', hcommand, hmoved⟩ | ⟨rfl, hmoved⟩ := moveControl_cases hcontrols hc hbreeds
  · rw [hmoved]
    exact .command hsound hworkers hc hcommand
  · rw [hmoved]
    exact ⟨hsound.frame rfl rfl, .ended rfl hworkers (Closed.frame hc rfl rfl rfl)⟩

end ControlSteps

/-! ## The commands of the workers -/

section WorkerSteps

variable {job : GenerationJob Rng} {s : Staging Rng} {generation : ℕ} {p : Provider Rng}
  {unsent : List ℕ} {k : ℕ} {w w' : Worker}

theorem pendingCount_set (w' : Worker) (hk : s.workers[k]? = some w)
    (hw : w.point.isPending = true) :
    pendingCount (s.workers.set k w') + 1 =
      pendingCount s.workers + if w'.point.isPending then 1 else 0 := by
  obtain ⟨hlt, hget⟩ := List.getElem?_eq_some_iff.mp hk
  have hpos : 0 < pendingCount s.workers := by
    rw [pendingCount, List.countP_pos_iff]
    exact ⟨w, List.mem_of_getElem? hk, hw⟩
  simp only [pendingCount] at hpos ⊢
  rw [List.countP_set hlt, hget]
  simp only [hw, if_true]
  omega

theorem mem_set_of_ne {worker : Worker} (hk : s.workers[k]? = some w) (hmem : worker ∈ s.workers)
    (hne : worker ≠ w) : worker ∈ s.workers.set k w' := by
  obtain ⟨j, hj⟩ := List.mem_iff_getElem?.mp hmem
  have hjk : k ≠ j := by
    rintro rfl
    rw [hk] at hj
    exact hne (Option.some.inj hj).symm
  exact List.mem_of_getElem? (i := j) (by rw [List.getElem?_set_ne hjk]; exact hj)

theorem mem_set_self (hk : s.workers[k]? = some w) : w' ∈ s.workers.set k w' := by
  obtain ⟨hlt, -⟩ := List.getElem?_eq_some_iff.mp hk
  exact List.mem_of_getElem? (i := k) (List.getElem?_set_self hlt)

theorem covered_set (w' : Worker) (keys : JobKeys CandidateResult)
    (hk : s.workers[k]? = some w)
    (hindex : w'.index = w.index)
    (hstaged : ∀ i, StagedFor s.keys p.population i → StagedFor keys p.population i)
    (hcancelled : s.keys.cancelled = true → keys.cancelled = true)
    (hself : w.point.isUnstaged = true → w'.point.isUnstaged = true ∨
      StagedFor keys p.population w.index ∨ keys.cancelled = true)
    (hrunning : Running job s generation p unsent) (i : ℕ) (hi : i < p.population.length) :
    StagedFor keys p.population i ∨ i ∈ unsent ∨
      (∃ worker ∈ s.workers.set k w', worker.index = i ∧ worker.point.isUnstaged = true) ∨
        keys.cancelled = true := by
  obtain h | h | ⟨worker, hmem, rfl, hunstaged⟩ | h := hrunning.covered i hi
  · exact .inl (hstaged i h)
  · exact .inr (.inl h)
  · by_cases heq : worker = w
    · subst heq
      obtain h | h | h := hself hunstaged
      · exact .inr (.inr (.inl ⟨w', mem_set_self hk, hindex, h⟩))
      · exact .inl h
      · exact .inr (.inr (.inr h))
    · exact .inr (.inr (.inl ⟨worker, mem_set_of_ne hk hmem heq, rfl, hunstaged⟩))
  · exact .inr (.inr (.inr (hcancelled h)))

theorem WorksFor.to_plain (h : WorksFor p.population generation w) {point : WorkerPoint}
    (hpoint : point.isPlain = true) : WorksFor p.population generation { w with point } := by
  refine ⟨h.generation, h.index, ?_, ?_⟩
  · rintro individual rfl
    cases hpoint
  · rintro result rfl
    cases hpoint

theorem Running.move (hrunning : Running job s generation p unsent)
    (hk : s.workers[k]? = some w) (hw : w.point.isPending = true) (point : WorkerPoint)
    (keys : JobKeys CandidateResult) (hpoint : point.isPending = true)
    (hworks : WorksFor p.population generation { w with point })
    (hcounter : keys.counter = s.keys.counter)
    (hstaged : ∀ i, StagedFor s.keys p.population i → StagedFor keys p.population i)
    (hcancelled : s.keys.cancelled = true → keys.cancelled = true)
    (hself : w.point.isUnstaged = true → point.isUnstaged = true ∨
      StagedFor keys p.population w.index ∨ keys.cancelled = true) :
    Running job ({ s with keys }.moveWorker k w point) generation p unsent := by
  have hcount : pendingCount (s.workers.set k { w with point }) = pendingCount s.workers := by
    have hset := pendingCount_set { w with point } hk hw
    simp only [hpoint, if_true] at hset
    omega
  have hcovered := covered_set { w with point } keys hk rfl hstaged hcancelled hself hrunning
  refine ⟨hrunning.current.frame rfl rfl rfl rfl, hrunning.controls, ?_, ?_, hcovered,
    hrunning.unsent, ?_⟩
  · simp only [Staging.moveWorker, hcount, hcounter, hrunning.counter]
  · simp only [Staging.moveWorker, hcount]
    exact hrunning.open_
  · intro worker hmem hpending
    obtain hmem | rfl := List.mem_or_eq_of_mem_set hmem
    · exact hrunning.workers worker hmem hpending
    · exact hworks

theorem Running.move_self (hrunning : Running job s generation p unsent)
    (hk : s.workers[k]? = some w) (hw : w.point.isPending = true) (point : WorkerPoint)
    (hpoint : point.isPending = true)
    (hworks : WorksFor p.population generation { w with point })
    (hself : point.isUnstaged = true ∨ s.keys.cancelled = true) :
    Running job (s.moveWorker k w point) generation p unsent :=
  hrunning.move hk hw point s.keys hpoint hworks rfl (fun _ h => h) (fun h => h)
    (fun _ => hself.imp_right .inr)

theorem Running.count (hsound : Sound s) (hrunning : Running job s generation p unsent)
    (hk : s.workers[k]? = some w) (hpoint : w.point = .decrementing) (outcome) :
    StagingInvariant job
      ((stepWorker s w outcome).1.moveWorker k w (stepWorker s w outcome).2) := by
  have hpending : w.point.isPending = true := by rw [hpoint]; rfl
  have hworks := hrunning.workers w (List.mem_of_getElem? hk) hpending
  have hcount : pendingCount (s.workers.set k { w with point := .returned }) + 1 =
      pendingCount s.workers := pendingCount_set _ hk hpending
  have hremaining : s.keys.decrement.1 = ((unsent.length +
      pendingCount (s.workers.set k { w with point := .returned }) : ℕ) : ℤ) := by
    simp only [JobKeys.decrement, hrunning.counter, Option.getD_some]
    omega
  have hmoved : (stepWorker s w outcome).1.moveWorker k w (stepWorker s w outcome).2 =
      { s with
        keys := s.keys.decrement.2
        workers := s.workers.set k { w with point := .returned }
        controls := if s.keys.decrement.1 ≤ 0 then s.controls ++ [.loadingState w.generation]
          else s.controls } := by
    simp only [stepWorker, hpoint, Staging.moveWorker]
  have hcovered := covered_set { w with point := .returned } s.keys.decrement.2 hk rfl (fun _ h => h) (fun h => h)
    (fun h => by rw [hpoint] at h; cases h) hrunning
  have hold : ∀ worker ∈ s.workers.set k { w with point := .returned },
      worker.point.isPending = true → WorksFor p.population generation worker := by
    intro worker hmem hworker
    obtain hmem | rfl := List.mem_or_eq_of_mem_set hmem
    · exact hrunning.workers worker hmem hworker
    · cases hworker
  rw [hmoved]
  by_cases hlast : s.keys.decrement.1 ≤ 0
  · -- nobody else has to count, and every message is out
    have hzero : unsent.length = 0 ∧
        pendingCount (s.workers.set k { w with point := .returned }) = 0 := by omega
    have hunsent : unsent = [] := List.length_eq_zero_iff.mp hzero.1
    have hnone : NoPending (s.workers.set k { w with point := .returned }) := by
      intro worker hmem
      have := List.countP_eq_zero.mp hzero.2 worker hmem
      simpa using this
    have hcontrols : s.controls = [] := by rw [hrunning.controls, if_pos hunsent]
    rw [if_pos hlast, hcontrols]
    obtain rfl := hworks.generation
    refine ⟨hsound.frame rfl rfl, .control (.loadingState w.generation) rfl hnone
      ⟨p, hrunning.current.frame rfl rfl rfl rfl, ?_⟩⟩
    by_cases hcancelled : s.keys.cancelled = true
    · exact .inr hcancelled
    · left
      intro i hi
      obtain h | h | ⟨worker, hmem, -, hunstaged⟩ | h := hcovered i hi
      · exact h
      · rw [hunsent] at h
        cases h
      · have hreturned := hnone worker hmem
        rw [isPending_of_isUnstaged hunstaged] at hreturned
        cases hreturned
      · exact (hcancelled h).elim
  · have hopen : 0 < unsent.length +
        pendingCount (s.workers.set k { w with point := .returned }) := by omega
    rw [if_neg hlast]
    refine ⟨hsound.frame rfl rfl, .running generation p unsent
      ⟨hrunning.current.frame rfl rfl rfl rfl, hrunning.controls, ?_, hopen, hcovered,
        hrunning.unsent, hold⟩⟩
    rw [← hremaining]
    rfl

theorem WorksFor.to_stashing {individual : Individual} {result : CandidateResult}
    (h : WorksFor p.population generation w)
    (hget : p.population[w.index]? = some individual)
    (hid : result.candidateId = individual.genomeId) :
    WorksFor p.population generation { w with point := .stashing result } := by
  refine ⟨h.generation, h.index, fun _ heq => (by cases heq), ?_⟩
  intro other heq individual' hget'
  cases heq
  have hsame : individual = individual' := Option.some.inj (hget.symm.trans hget')
  rw [hid, hsame]

theorem Running.work (hrunning : Running job s generation p unsent) (hk : s.workers[k]? = some w)
    (hpending : w.point.isPending = true) (hne : w.point ≠ .decrementing) (outcome) :
    Running job ((stepWorker s w outcome).1.moveWorker k w (stepWorker s w outcome).2)
      generation p unsent := by
  have hworks := hrunning.workers w (List.mem_of_getElem? hk) hpending
  cases hpoint : w.point with
  | queued =>
    simp only [stepWorker, hpoint]
    exact hrunning.move_self hk hpending .queued rfl (hworks.to_plain rfl) (.inl rfl)
  | checking =>
    simp only [stepWorker, hpoint]
    by_cases hcancelled : s.keys.isCancelled = true
    · rw [if_pos hcancelled]
      exact hrunning.move_self hk hpending .decrementing rfl (hworks.to_plain rfl)
        (.inr hcancelled)
    · rw [if_neg hcancelled]
      exact hrunning.move_self hk hpending .fetching rfl (hworks.to_plain rfl) (.inl rfl)
  | fetching =>
    have hget : p.population[w.index]? = some (p.population.get ⟨w.index, hworks.index⟩) :=
      List.getElem?_eq_getElem hworks.index
    simp only [stepWorker, hpoint, hrunning.current.stored, Option.bind_some, hget]
    refine hrunning.move_self hk hpending (.evaluating _) rfl
      ⟨hworks.generation, hworks.index, ?_, fun _ heq => (by cases heq)⟩ (.inl rfl)
    intro individual heq
    cases heq
    exact hget
  | evaluating individual =>
    have hget := hworks.evaluating individual hpoint
    cases outcome with
    | ok result =>
      simp only [stepWorker, hpoint]
      exact hrunning.move_self hk hpending _ rfl (hworks.to_stashing hget rfl) (.inl rfl)
    | error text =>
      simp only [stepWorker, hpoint]
      exact hrunning.move_self hk hpending _ rfl (hworks.to_stashing hget rfl) (.inl rfl)
  | stashing result =>
    have hself : StagedFor (s.keys.stashPartial w.index result) p.population w.index :=
      stagedFor_stash_self (hworks.stashing result hpoint)
    simp only [stepWorker, hpoint]
    refine hrunning.move hk hpending .decrementing (s.keys.stashPartial w.index result) rfl
      (hworks.to_plain rfl) rfl ?_ (fun h => h) (fun _ => .inr (.inl hself))
    intro i hi
    by_cases heq : i = w.index
    · rw [heq]
      exact hself
    · exact hi.stash_of_ne heq
  | decrementing => exact (hne hpoint).elim
  | returned =>
    rw [hpoint] at hpending
    cases hpending

theorem Running.handle (hrunning : Running job s generation p unsent) (hk : s.workers[k]? = some w)
    (hpending : w.point.isPending = true)
    (hguarded : w.point.handler.isPending = w.point.isPending) :
    Running job (s.moveWorker k w w.point.handler) generation p unsent := by
  have hworks := hrunning.workers w (List.mem_of_getElem? hk) hpending
  cases hpoint : w.point with
  | queued =>
    exact hrunning.move_self hk hpending .queued rfl (hworks.to_plain rfl) (.inl rfl)
  | evaluating individual =>
    exact hrunning.move_self hk hpending _ rfl
      (hworks.to_stashing (hworks.evaluating individual hpoint) rfl) (.inl rfl)
  | checking | fetching | stashing result | decrementing | returned =>
    rw [hpending, hpoint] at hguarded
    cases hguarded

theorem Running.send {index : ℕ} (hrunning : Running job s generation p (index :: unsent)) :
    Running job
      { s with
        workers := s.workers ++ [⟨generation, index, .queued⟩]
        controls := if unsent = [] then [] else [.sending generation unsent] }
      generation p unsent := by
  have hcount : pendingCount (s.workers ++ [⟨generation, index, .queued⟩]) =
      pendingCount s.workers + 1 := by
    simp [pendingCount, WorkerPoint.isPending]
  have hopen := hrunning.open_
  have hcounter := hrunning.counter
  rw [List.length_cons] at hopen hcounter
  have hsum : unsent.length + pendingCount (s.workers ++ [⟨generation, index, .queued⟩]) =
      unsent.length + 1 + pendingCount s.workers := by omega
  refine ⟨hrunning.current.frame rfl rfl rfl rfl, rfl, ?_, ?_, ?_, ?_, ?_⟩
  · simp only [hsum]
    exact hcounter
  · simp only [hsum]
    exact hopen
  · intro i hi
    obtain h | h | ⟨worker, hmem, hworker⟩ | h := hrunning.covered i hi
    · exact .inl h
    · obtain rfl | h := List.mem_cons.mp h
      · exact .inr (.inr (.inl ⟨_, List.mem_append_right _ (List.mem_singleton.mpr rfl), rfl, rfl⟩))
      · exact .inr (.inl h)
    · exact .inr (.inr (.inl ⟨worker, List.mem_append_left _ hmem, hworker⟩))
    · exact .inr (.inr (.inr h))
  · intro i hi
    exact hrunning.unsent i (List.mem_cons_of_mem _ hi)
  · intro worker hmem hpending
    obtain hmem | hmem := List.mem_append.mp hmem
    · exact hrunning.workers worker hmem hpending
    · obtain rfl := List.mem_singleton.mp hmem
      exact ⟨rfl, hrunning.unsent index List.mem_cons_self, fun _ heq => (by cases heq),
        fun _ heq => (by cases heq)⟩

end WorkerSteps

/-! ## Every step -/

section Steps

variable {job : GenerationJob Rng} {s : Staging Rng}

theorem stagingInvariant_init (job : GenerationJob Rng) :
    StagingInvariant job ({} : Staging Rng) := by
  refine ⟨⟨rfl, ?_, List.nodup_nil⟩, .control .starting rfl ?_ ⟨rfl, rfl, rfl⟩⟩
  · intro entry hentry
    cases hentry
  · intro worker hworker
    cases hworker

theorem moveWorker_self {k : ℕ} {worker : Worker} (hk : s.workers[k]? = some worker) :
    s.moveWorker k worker worker.point = s := by
  obtain ⟨hlt, hget⟩ := List.getElem?_eq_some_iff.mp hk
  have hset : s.workers.set k { worker with point := worker.point } = s.workers := by
    rw [← hget]
    exact List.set_getElem_self hlt
  simp only [Staging.moveWorker, hset]

theorem history_stepWorker (s : Staging Rng) (worker : Worker) (outcome) :
    (stepWorker s worker outcome).1.populations = s.populations ∧
      (stepWorker s worker outcome).1.bred = s.bred := by
  cases hpoint : worker.point with
  | fetching =>
    simp only [stepWorker, hpoint]
    cases s.stored.bind fun p => p.population[worker.index]? with
    | none => exact ⟨rfl, rfl⟩
    | some individual => exact ⟨rfl, rfl⟩
  | queued | checking | evaluating | stashing | decrementing | returned =>
    simp [stepWorker, hpoint]

theorem returned_of_not_pending {worker : Worker} (h : ¬ worker.point.isPending = true) :
    worker.point = .returned := by
  cases hpoint : worker.point with
  | returned => rfl
  | queued | checking | fetching | evaluating | stashing | decrementing =>
    rw [hpoint] at h
    exact (h rfl).elim

theorem StagingInvariant.running_of_pending (h : StagingInvariant job s) {k : ℕ} {worker : Worker}
    (hk : s.workers[k]? = some worker) (hpending : worker.point.isPending = true) :
    ∃ generation p unsent, Running job s generation p unsent := by
  have hnone : ¬ NoPending s.workers := by
    intro hnone
    rw [hnone worker (List.mem_of_getElem? hk)] at hpending
    cases hpending
  cases h.phase with
  | control c hcontrols hworkers hc => exact (hnone hworkers).elim
  | running generation p unsent hrunning => exact ⟨generation, p, unsent, hrunning⟩
  | ended hcontrols hworkers hclosed => exact (hnone hworkers).elim

theorem StagingInvariant.work (h : StagingInvariant job s) (k : ℕ) (outcome) :
    StagingInvariant job (s.step job (.work k outcome)) := by
  cases hk : s.workers[k]? with
  | none =>
    simp only [Staging.step, hk]
    exact h
  | some worker =>
    simp only [Staging.step, hk]
    by_cases hpending : worker.point.isPending = true
    · obtain ⟨generation, p, unsent, hrunning⟩ := h.running_of_pending hk hpending
      by_cases hpoint : worker.point = .decrementing
      · exact hrunning.count h.sound hk hpoint outcome
      · obtain ⟨hpopulations, hbred⟩ := history_stepWorker s worker outcome
        exact ⟨h.sound.frame hpopulations hbred, .running generation p unsent
          (hrunning.work hk hpending hpoint outcome)⟩
    · have hreturned := returned_of_not_pending hpending
      have hstep : stepWorker s worker outcome = (s, worker.point) := by
        simp only [stepWorker, hreturned]
      rw [hstep, moveWorker_self hk]
      exact h

theorem StagingInvariant.deliver (h : StagingInvariant job s) (k : ℕ) :
    StagingInvariant job (s.step job (.deliver k)) := by
  cases hk : s.workers[k]? with
  | none =>
    simp only [Staging.step, hk]
    exact h
  | some worker =>
    obtain ⟨g, index, point⟩ := worker
    cases point with
    | queued =>
      obtain ⟨generation, p, unsent, hrunning⟩ := h.running_of_pending hk rfl
      have hworks := hrunning.workers _ (List.mem_of_getElem? hk) rfl
      simp only [Staging.step, hk]
      exact ⟨h.sound.frame rfl rfl, .running generation p unsent
        (hrunning.move_self hk rfl .checking rfl (hworks.to_plain rfl) (.inl rfl))⟩
    | checking | fetching | evaluating | stashing | decrementing | returned =>
      simp only [Staging.step, hk]
      exact h

theorem StagingInvariant.workerRaises (h : StagingInvariant job s) {k : ℕ}
    (hguarded : s.Guarded job (.workerRaises k)) :
    StagingInvariant job (s.step job (.workerRaises k)) := by
  cases hk : s.workers[k]? with
  | none =>
    simp only [Staging.step, hk]
    exact h
  | some worker =>
    simp only [Staging.step, hk]
    by_cases hpending : worker.point.isPending = true
    · obtain ⟨generation, p, unsent, hrunning⟩ := h.running_of_pending hk hpending
      exact ⟨h.sound.frame rfl rfl, .running generation p unsent
        (hrunning.handle hk hpending (hguarded worker hk))⟩
    · have hhandler : worker.point.handler = worker.point := by
        rw [returned_of_not_pending hpending]
        rfl
      rw [hhandler, moveWorker_self hk]
      exact h

/-! ### Cancelling -/

theorem Running.cancel {generation : ℕ} {p : Provider Rng} {unsent : List ℕ}
    (h : Running job s generation p unsent) :
    Running job { s with keys := s.keys.setCancelled, status := s.status.cancel } generation p
      unsent :=
  ⟨h.current.frame rfl rfl rfl rfl, h.controls, h.counter, h.open_,
    fun _ _ => .inr (.inr (.inr rfl)), h.unsent, h.workers⟩

theorem StagingInvariant.requestCancel (h : StagingInvariant job s) :
    StagingInvariant job (s.step job .requestCancel) := by
  refine ⟨h.sound.frame rfl rfl, ?_⟩
  cases h.phase with
  | control c hcontrols hworkers hc =>
    exact .control c hcontrols hworkers (hc.frame rfl rfl rfl rfl rfl fun _ => rfl)
  | running generation p unsent hrunning => exact .running generation p unsent hrunning.cancel
  | ended hcontrols hworkers hclosed =>
    exact .ended hcontrols hworkers (hclosed.frame rfl rfl rfl)

/-! ### Controls -/

theorem eq_zero_of_singleton {k : ℕ} {c c' : Control Rng} (h : s.controls = [c])
    (hk : s.controls[k]? = some c') : k = 0 ∧ c = c' := by
  rw [h, List.getElem?_singleton] at hk
  split at hk
  · exact ⟨‹_›, Option.some.inj hk⟩
  · cases hk

theorem StagingInvariant.send {generation : ℕ} {p : Provider Rng} {unsent : List ℕ} {k : ℕ}
    {c : Control Rng} (hsound : Sound s) (hrunning : Running job s generation p unsent)
    (hk : s.controls[k]? = some c) :
    StagingInvariant job
      ((stepControl job s c).1.moveControl k (stepControl job s c).2) := by
  have hcontrols := hrunning.controls
  cases unsent with
  | nil =>
    rw [if_pos rfl] at hcontrols
    rw [hcontrols] at hk
    cases hk
  | cons index unsent =>
    rw [if_neg (List.cons_ne_nil _ _)] at hcontrols
    obtain ⟨rfl, rfl⟩ := eq_zero_of_singleton hcontrols hk
    have hsent := hrunning.send
    cases unsent with
    | nil =>
      simp only [stepControl, Staging.moveControl, hcontrols]
      exact ⟨hsound.frame rfl rfl, .running generation p [] hsent⟩
    | cons index' unsent =>
      simp only [stepControl, Staging.moveControl, hcontrols]
      exact ⟨hsound.frame rfl rfl, .running generation p (index' :: unsent) hsent⟩

theorem StagingInvariant.control (h : StagingInvariant job s) {k : ℕ}
    (hguarded : s.Guarded job (.control k)) : StagingInvariant job (s.step job (.control k)) := by
  cases hk : s.controls[k]? with
  | none =>
    simp only [Staging.step, hk]
    exact h
  | some c =>
    simp only [Staging.step, hk]
    cases h.phase with
    | control c' hcontrols hworkers hc =>
      obtain ⟨rfl, rfl⟩ := eq_zero_of_singleton hcontrols hk
      refine control_step h.sound hcontrols hworkers hc ?_
      rintro generation p ordered rfl
      exact hguarded generation p ordered hk
    | running generation p unsent hrunning => exact .send h.sound hrunning hk
    | ended hcontrols hworkers hclosed =>
      rw [hcontrols] at hk
      cases hk

theorem ControlInvariant.handle {c : Control Rng} (h : ControlInvariant job s c)
    (hguarded : (c.handler.isSome || c.isClearing) = true) :
    (∃ c', c.handler = some c' ∧ ControlInvariant job s c') ∨ c.handler = none ∧ Closed job s := by
  cases c with
  | marking => exact .inl ⟨.creating, rfl, h⟩
  | finishing cancelled => exact .inl ⟨.persisting .failed, rfl, h⟩
  | persisting status => exact .inl ⟨.clearingPartials, rfl, h⟩
  | clearingPartials | clearingGenetic | clearingKeys => exact .inr ⟨rfl, h⟩
  | starting | creating | storing | clearing | screening | counting | sending | loadingState
  | loadingPartials | appending | deciding | breeding | closing => cases hguarded

theorem StagingInvariant.controlRaises (h : StagingInvariant job s) {k : ℕ}
    (hguarded : s.Guarded job (.controlRaises k)) :
    StagingInvariant job (s.step job (.controlRaises k)) := by
  cases hk : s.controls[k]? with
  | none =>
    simp only [Staging.step, hk]
    exact h
  | some c =>
    have hhandler := hguarded c hk
    simp only [Staging.step, hk]
    cases h.phase with
    | control c' hcontrols hworkers hc =>
      obtain ⟨rfl, rfl⟩ := eq_zero_of_singleton hcontrols hk
      obtain ⟨c', heq, hc'⟩ | ⟨heq, hclosed⟩ := hc.handle hhandler
      · rw [heq, moveControl_some hcontrols]
        exact .of_control h.sound hworkers hc'
      · rw [heq, moveControl_none hcontrols]
        exact ⟨h.sound.frame rfl rfl, .ended rfl hworkers (hclosed.frame rfl rfl rfl)⟩
    | running generation p unsent hrunning =>
      have hcontrols := hrunning.controls
      split at hcontrols
      · rw [hcontrols] at hk
        cases hk
      · obtain ⟨-, rfl⟩ := eq_zero_of_singleton hcontrols hk
        cases hhandler
    | ended hcontrols hworkers hclosed =>
      rw [hcontrols] at hk
      cases hk

theorem StagingInvariant.step (event : StagingEvent) (hguarded : s.Guarded job event)
    (h : StagingInvariant job s) : StagingInvariant job (s.step job event) := by
  cases event with
  | control k => exact h.control hguarded
  | deliver k => exact h.deliver k
  | work k outcome => exact h.work k outcome
  | controlRaises k => exact h.controlRaises hguarded
  | workerRaises k => exact h.workerRaises hguarded
  | requestCancel => exact h.requestCancel

end Steps

/-- In every run of a staged search in which nothing raises outside its guarded section, the
generations come one after the other. -/
theorem generations_oneByOne (job : GenerationJob Rng) (events : List StagingEvent)
    (h : Admissible (Staging.step job) (Staging.Guarded job) {} events) :
    (run (Staging.step job) {} events).OneByOne job :=
  (invariant_of_admissible (StagingInvariant job) h (stagingInvariant_init job)
    fun _ event hguarded hinv => hinv.step event hguarded).oneByOne

/-! ## A search that is cancelled in its second generation -/

/-- Only the strong genome survives the pre-screen. -/
def strongJob : GenerationJob Unit where
  setting := smallSetting
  rng := ()
  initial := oneStrong
  isTradeable genome := genome.entryLong = "strong"

/-- The message of a genome is delivered, and its worker runs to its end. -/
def workerEvents (k : ℕ) : List StagingEvent :=
  .deliver k :: List.replicate 5 (.work k (.ok (passing "" 2)))

/-- The first generation has one message and the second ten. Of the second one, an evaluation raises
and the cancel request comes before the others are delivered. -/
def cancelledEvents : List StagingEvent :=
  List.replicate 18 (.control 0) ++ workerEvents 0 ++ List.replicate 35 (.control 0) ++
    [.deliver 1, .work 1 (.error ""), .work 1 (.error ""), .workerRaises 1, .requestCancel,
      .work 1 (.error ""), .work 1 (.error "")] ++
    (List.range' 2 9).flatMap workerEvents ++ List.replicate 15 (.control 0)

theorem generations_oneByOne_cancelled :
    (run (Staging.step strongJob) {} cancelledEvents).OneByOne strongJob ∧
      (run (Staging.step strongJob) {} cancelledEvents).bred.length = 1 ∧
      (run (Staging.step strongJob) {} cancelledEvents).status = .cancelled := by
  have hguards : Admissible (Staging.step strongJob)
      (fun s event => s.guards strongJob event = true) {} cancelledEvents := by
    decide +kernel
  refine ⟨generations_oneByOne strongJob cancelledEvents
    (hguards.mono fun _ _ => Staging.guarded_of_guards), ?_, ?_⟩
  · decide +kernel
  · decide +kernel

end QBackend.GeneticSearch
