import QBackend.GenerationRuns

/-!
# The staged search and the in-process search

The candidate of a genome, `search_candidate_for_genome`, as the orchestrator and as a worker of the
staged path build it, and the generations of the orchestrator one by one. A worker leaves out the
hash of the latent model. Where there is none and `evaluate_candidate` raises nothing, every run of
the staged search goes through the populations and results of the in-process one, although the
fitness of the champion is lost from one generation to the next.
-/

namespace QBackend.GeneticSearch

open RunInvariants FallibleSteps
open Tasks (JobKeys)

variable {Rng Space : Type}

/-! ## Candidates -/

/-- A dict; the hash of the latent model is a key of it only if there is one. -/
structure FixedParams where
  genome : Individual
  latentModelHash : Option String
  timeframe : String

structure SearchCandidate (Space : Type) where
  candidateId : String
  strategy : String
  searchSpace : Space
  fixedParams : FixedParams

/-- The part of a configuration that its candidates are built from. -/
structure SearchRequest (Space : Type) where
  timeframe : String
  searchSpaceForGenome : GenomeDsl.Genome → Space

def searchCandidateForGenome (individual : Individual) (request : SearchRequest Space)
    (latentModelHash : Option String) : SearchCandidate Space where
  candidateId := individual.genomeId
  strategy := "CompositeStrategy"
  searchSpace := request.searchSpaceForGenome individual.genome
  fixedParams := { genome := individual, latentModelHash, timeframe := request.timeframe }

/-- A search with the latent model of its universe and its `evaluate_candidate`: what building the
study of a candidate raises, and the outcome of its walk-forward analysis. -/
structure Search (Space : Type) where
  request : SearchRequest Space
  latentModelHash : Option String
  minimizeDrawdown : Bool
  gates : GateConfig
  raises : SearchCandidate Space → Option String
  walkForward : SearchCandidate Space → Except String WalkForwardOutcome

namespace Search

variable (search : Search Space)

def evaluate (candidate : SearchCandidate Space) : Except String CandidateResult :=
  match search.raises candidate with
  | some text => .error text
  | none => .ok (evaluateCandidate search.minimizeDrawdown search.gates candidate.candidateId
      candidate.strategy (search.walkForward candidate))

/-- The candidate of `GeneticCandidateProvider.candidates`. -/
def providerCandidate (individual : Individual) : SearchCandidate Space :=
  searchCandidateForGenome individual search.request search.latentModelHash

/-- The candidate of `run_genetic_candidate`. -/
def workerCandidate (individual : Individual) : SearchCandidate Space :=
  searchCandidateForGenome individual search.request none

theorem workerCandidate_eq_iff (individual : Individual) :
    search.workerCandidate individual = search.providerCandidate individual ↔
      search.latentModelHash = none := by
  constructor
  · intro h
    have hparams := congrArg SearchCandidate.fixedParams h
    exact (congrArg FixedParams.latentModelHash hparams).symm
  · intro h
    rw [workerCandidate, providerCandidate, h]

theorem candidateId_evaluate {candidate : SearchCandidate Space} {result : CandidateResult}
    (h : search.evaluate candidate = .ok result) : result.candidateId = candidate.candidateId := by
  unfold evaluate at h
  split at h
  · cases h
  · cases h
    unfold evaluateCandidate
    split
    · rfl
    · simp only
      split
      · rfl
      · split
        · rfl
        · rfl

end Search

/-! ## The generations of the orchestrator -/

inductive SearchFailure where
  | evaluation (text : String)
  | breeding (error : BreedError)

section InProcess

variable (job : GenerationJob Rng) (search : Search Space)

/-- The result of one genome in `_evaluate_generation`. -/
def inProcessResult (individual : Individual) : Except SearchFailure CandidateResult :=
  if job.isTradeable individual.genome then
    (search.evaluate (search.providerCandidate individual)).mapError .evaluation
  else .ok (prescreenResult individual.genomeId)

def inProcessResults : List Individual → Except SearchFailure (List CandidateResult)
  | [] => .ok []
  | individual :: rest =>
    match inProcessResult job search individual with
    | .error failure => .error failure
    | .ok result =>
      match inProcessResults rest with
      | .error failure => .error failure
      | .ok results => .ok (result :: results)

/-- The provider of the orchestrator before the generation. -/
def inProcessProvider : ℕ → Except SearchFailure (Provider Rng)
  | 0 => .ok job.provider
  | generation + 1 =>
    match inProcessProvider generation with
    | .error failure => .error failure
    | .ok p =>
      match inProcessResults job search p.population with
      | .error failure => .error failure
      | .ok results => (p.report job.setting results).mapError .breeding

/-- The results of one generation of the orchestrator. -/
def inProcessGeneration (generation : ℕ) : Except SearchFailure (List CandidateResult) :=
  match inProcessProvider job search generation with
  | .error failure => .error failure
  | .ok p => inProcessResults job search p.population

/-- The results of the first generations of the orchestrator. -/
def inProcessGenerations : ℕ → Except SearchFailure (List (List CandidateResult))
  | 0 => .ok []
  | generation + 1 =>
    match inProcessGenerations generation with
    | .error failure => .error failure
    | .ok earlier =>
      match inProcessGeneration job search generation with
      | .error failure => .error failure
      | .ok results => .ok (earlier ++ [results])

/-- The staged search goes through the populations and results of the orchestrator. -/
structure Staging.Agrees (s : Staging Rng) : Prop where
  candidates : ∀ population ∈ s.populations, ∀ individual ∈ population,
    search.workerCandidate individual = search.providerCandidate individual
  populations : ∀ generation population, s.populations[generation]? = some population →
    ∃ p, inProcessProvider job search generation = .ok p ∧ p.population = population
  bred : ∀ entry ∈ s.bred, inProcessGeneration job search entry.1 = .ok entry.2
  results : ∀ entry ∈ s.generationResults, inProcessGeneration job search entry.1 = .ok entry.2
  /-- The finalizer ranks the results of all generations of the orchestrator. -/
  ranking : ∀ cancelled, .finishing cancelled ∈ s.controls → cancelled = false ∧
    inProcessGenerations job search job.setting.genetic.generations =
      .ok (s.generationResults.map Prod.snd)

/-- Nothing raises or cancels the search, and the outcome of an evaluation is the result of
`evaluate_candidate` on the candidate of the worker. -/
def Staging.Deterministic (s : Staging Rng) : StagingEvent → Prop
  | .control k => s.Guarded job (.control k)
  | .deliver _ => True
  | .work k outcome => ∀ worker individual, s.workers[k]? = some worker →
      worker.point = .evaluating individual →
      outcome = search.evaluate (search.workerCandidate individual) ∧
        ∃ result, outcome = .ok result
  | .controlRaises _ | .workerRaises _ | .requestCancel => False

end InProcess

/-! ## The champion does not breed -/

/-- A provider without its champion. -/
def Provider.breeding (p : Provider Rng) : Provider Rng :=
  { p with champion := none, championFitness := ⊥ }

/-- Two scores that differ in their champions only. -/
structure SameScores (a b : Scores) : Prop where
  bestFitness : a.bestFitness = b.bestFitness
  mutationOperatorWeights : a.mutationOperatorWeights = b.mutationOperatorWeights
  scored : a.scored = b.scored

theorem SameScores.score {a b : Scores} (h : SameScores a b) (setting : Setting Rng)
    (population : List Individual) (parentFitnessById : List (String × ℚ))
    (result : CandidateResult) :
    SameScores (score setting population parentFitnessById a result)
      (score setting population parentFitnessById b result) := by
  unfold GeneticSearch.score
  cases genomeById population result.candidateId with
  | none => exact h
  | some individual =>
    exact ⟨by simp only [h.bestFitness], by simp only [h.mutationOperatorWeights],
      by simp only [h.scored]⟩

theorem SameScores.foldl {a b : Scores} (h : SameScores a b) (setting : Setting Rng)
    (population : List Individual) (parentFitnessById : List (String × ℚ))
    (results : List CandidateResult) :
    SameScores (results.foldl (GeneticSearch.score setting population parentFitnessById) a)
      (results.foldl (GeneticSearch.score setting population parentFitnessById) b) := by
  induction results generalizing a b with
  | nil => exact h
  | cons result results ih => exact ih (h.score setting population parentFitnessById result)

theorem breedChild_breeding (setting : Setting Rng) (p : Provider Rng) (weights : OperatorWeights)
    (mutationRate : ℚ) (reproducers : List (ℚ × Individual)) (s : BreedState Rng) :
    breedChild setting p.breeding weights mutationRate reproducers s =
      breedChild setting p weights mutationRate reproducers s := by
  have hchild : ∀ a b, vary setting p.breeding weights mutationRate a b =
      vary setting p weights mutationRate a b := by
    intro a b
    have hbuild : buildChild setting p.breeding weights mutationRate a b =
        buildChild setting p weights mutationRate a b := rfl
    rw [vary, vary, hbuild]
  have hpopulation : p.breeding.population = p.population := rfl
  simp only [breedChild, hchild, hpopulation]

theorem breedChildren_breeding (setting : Setting Rng) (p : Provider Rng)
    (weights : OperatorWeights) (mutationRate : ℚ) (reproducers : List (ℚ × Individual)) (n : ℕ)
    (s : BreedState Rng) :
    breedChildren setting p.breeding weights mutationRate reproducers n s =
      breedChildren setting p weights mutationRate reproducers n s := by
  induction n generalizing s with
  | zero => rfl
  | succ n ih => simp only [breedChildren, breedChild_breeding, ih]

theorem elites_breeding (p : Provider Rng) (kept : List (ℚ × Individual)) (next : ℕ) :
    elites p.breeding kept next = elites p kept next := by
  induction kept generalizing next with
  | nil => rfl
  | cons entry kept ih => exact congrArg _ (ih (next + 1))

theorem report_breeding (setting : Setting Rng) (p : Provider Rng)
    (results : List CandidateResult) :
    (p.report setting results).map Provider.breeding =
      (p.breeding.report setting results).map Provider.breeding := by
  have hscores : SameScores (p.scores setting results) (p.breeding.scores setting results) := by
    have hstart : SameScores
        ⟨p.champion, p.championFitness, p.bestFitness, p.mutationOperatorWeights, []⟩
        ⟨none, ⊥, p.bestFitness, p.mutationOperatorWeights, []⟩ := ⟨rfl, rfl, rfl⟩
    exact hstart.foldl setting p.population p.parentFitnessById results
  have hbest : p.breeding.bestFitness = p.bestFitness := rfl
  have hstagnation : p.breeding.stagnationGenerations = p.stagnationGenerations := rfl
  have hpopulation : p.breeding.population = p.population := rfl
  have hnext : p.breeding.nextIndividual = p.nextIndividual := rfl
  have hrng : p.breeding.rng = p.rng := rfl
  simp only [Provider.report, breedChildren_breeding, elites_breeding, hbest, hstagnation,
    hpopulation, hnext, hrng, hscores.bestFitness, hscores.mutationOperatorWeights, hscores.scored]
  split
  · rfl
  · rfl

theorem report_of_breeding_eq {setting : Setting Rng} {p q p' : Provider Rng}
    {results : List CandidateResult} (h : p.breeding = q.breeding)
    (hreport : p.report setting results = .ok p') :
    ∃ q', q.report setting results = .ok q' ∧ p'.breeding = q'.breeding := by
  have hsame : (q.report setting results).map Provider.breeding = .ok p'.breeding := by
    rw [report_breeding, ← h, ← report_breeding, hreport]
    rfl
  cases hq : q.report setting results with
  | error e =>
    rw [hq] at hsame
    cases hsame
  | ok q' =>
    rw [hq] at hsame
    exact ⟨q', rfl, (Except.ok.inj hsame).symm⟩

/-! ## Invariants -/

section Invariants

variable (job : GenerationJob Rng) (search : Search Space)

/-- The provider of the orchestrator before the generation breeds as this one does. -/
def Follows (generation : ℕ) (q : Provider Rng) : Prop :=
  ∃ p, inProcessProvider job search generation = .ok p ∧ q.breeding = p.breeding

/-- The result is the one of the genome at the index of the last population. -/
def ResultAt (s : Staging Rng) (index : ℕ) (result : CandidateResult) : Prop :=
  ∃ population individual, s.populations.getLast? = some population ∧
    population[index]? = some individual ∧ inProcessResult job search individual = .ok result

def AliveAt (s : Staging Rng) (index : ℕ) : Prop :=
  ∀ population individual, s.populations.getLast? = some population →
    population[index]? = some individual → job.isTradeable individual.genome = true

def StagedResults (s : Staging Rng) : Prop :=
  ∀ entry ∈ s.keys.partials, ResultAt job search s entry.1 entry.2

/-- The results of the first generations are appended. -/
def Gathered (s : Staging Rng) (generations : ℕ) : Prop :=
  s.generationResults.map Prod.fst = List.range generations

def ControlFaithful (s : Staging Rng) : Control Rng → Prop
  | .starting | .marking | .creating => Gathered s 0
  | .storing generation p => Gathered s generation ∧ Follows job search generation p
  | .clearing generation _ => Gathered s generation
  | .screening generation _ alive | .counting generation alive | .sending generation alive =>
    Gathered s generation ∧ StagedResults job search s ∧ ∀ i ∈ alive, AliveAt job s i
  | .loadingState generation | .loadingPartials generation _ =>
    Gathered s generation ∧ StagedResults job search s
  | .appending generation _ ordered =>
    Gathered s generation ∧ inProcessGeneration job search generation = .ok ordered
  | .deciding generation _ ordered | .breeding generation _ ordered =>
    Gathered s (generation + 1) ∧ inProcessGeneration job search generation = .ok ordered
  | .closing cancelled | .finishing cancelled =>
    cancelled = false ∧ Gathered s job.setting.genetic.generations
  | .persisting _ | .clearingPartials | .clearingGenetic | .clearingKeys => True

/-- What a worker that has still to count has seen. -/
structure WorkerFaithful (s : Staging Rng) (worker : Worker) : Prop where
  gathered : Gathered s worker.generation
  staged : StagedResults job search s
  alive : AliveAt job s worker.index
  stashing : ∀ result, worker.point = .stashing result →
    ResultAt job search s worker.index result

/-- The history of the run is one of the orchestrator. -/
structure History (s : Staging Rng) : Prop where
  populations : ∀ generation population, s.populations[generation]? = some population →
    ∃ p, inProcessProvider job search generation = .ok p ∧ p.population = population
  bred : ∀ entry ∈ s.bred, inProcessGeneration job search entry.1 = .ok entry.2
  results : ∀ entry ∈ s.generationResults, inProcessGeneration job search entry.1 = .ok entry.2
  stored : ∀ generation q, s.stored = some q → s.populations.length = generation + 1 →
    Follows job search generation q

structure Faithful (s : Staging Rng) : Prop where
  cancelled : s.keys.cancelled = false
  history : History job search s
  controls : ∀ c ∈ s.controls, ControlFaithful job search s c
  workers : ∀ worker ∈ s.workers, worker.point.isPending = true →
    WorkerFaithful job search s worker

end Invariants

/-! ## Results of a generation -/

section Results

variable {job : GenerationJob Rng} {search : Search Space} {s s' : Staging Rng}

theorem candidateId_inProcessResult {individual : Individual} {result : CandidateResult}
    (h : inProcessResult job search individual = .ok result) :
    result.candidateId = individual.genomeId := by
  unfold inProcessResult at h
  split at h
  · cases heval : search.evaluate (search.providerCandidate individual) with
    | error text =>
      rw [heval] at h
      cases h
    | ok evaluated =>
      rw [heval] at h
      cases h
      exact search.candidateId_evaluate heval
  · cases h
    rfl

theorem inProcessResults_filterMap {population : List Individual}
    {find : Individual → Option CandidateResult}
    (h : ∀ individual ∈ population, ∃ result, find individual = some result ∧
      inProcessResult job search individual = .ok result) :
    inProcessResults job search population = .ok (population.filterMap find) := by
  induction population with
  | nil => rfl
  | cons individual population ih =>
    obtain ⟨result, hfind, hresult⟩ := h individual List.mem_cons_self
    have hrest := ih fun other hother => h other (List.mem_cons_of_mem _ hother)
    simp only [inProcessResults, hresult, hrest, List.filterMap_cons, hfind]

/-- Where all results are staged, the list that is bred from is the one of the orchestrator. -/
theorem orderedResults_eq {keys : JobKeys CandidateResult} {population : List Individual}
    (hids : (population.map Individual.genomeId).Nodup)
    (hall : ∀ i < population.length, StagedFor keys population i)
    (hstaged : ∀ entry ∈ keys.partials, ∃ individual, population[entry.1]? = some individual ∧
      inProcessResult job search individual = .ok entry.2) :
    inProcessResults job search population =
      .ok (orderedResults population keys.loadPartials) := by
  apply inProcessResults_filterMap
  intro individual hmem
  obtain ⟨i, hi, hget⟩ := List.mem_iff_getElem.mp hmem
  obtain ⟨r, hr, hid⟩ := hall i hi
  have hrid := hid individual (by rw [List.getElem?_eq_getElem hi, hget])
  have hr' : r ∈ keys.loadPartials.reverse :=
    List.mem_reverse.mpr (List.mem_map.mpr ⟨(i, r), hr, rfl⟩)
  cases hfind : keys.loadPartials.reverse.find? (fun r => r.candidateId = individual.genomeId) with
  | none =>
    have hnot := List.find?_eq_none.mp hfind r hr'
    simp [hrid] at hnot
  | some found =>
    refine ⟨found, rfl, ?_⟩
    have hfound : found.candidateId = individual.genomeId := by
      simpa using List.find?_some hfind
    obtain ⟨entry, hentry, rfl⟩ :=
      List.mem_map.mp (List.mem_reverse.mp (List.mem_of_find?_eq_some hfind))
    obtain ⟨other, hother, hresult⟩ := hstaged entry hentry
    -- ids are distinct: a result with the id of the genome is a result of the genome
    have hsame : other = individual :=
      List.inj_on_of_nodup_map hids (List.mem_of_getElem? hother) hmem
        ((candidateId_inProcessResult hresult).symm.trans hfound)
    rw [← hsame]
    exact hresult

theorem inProcessGenerations_of_entries {n : ℕ} {entries : List (ℕ × List CandidateResult)}
    (hfst : entries.map Prod.fst = List.range n)
    (h : ∀ entry ∈ entries, inProcessGeneration job search entry.1 = .ok entry.2) :
    inProcessGenerations job search n = .ok (entries.map Prod.snd) := by
  induction n generalizing entries with
  | zero =>
    have hnil : entries = [] := by simpa using hfst
    rw [hnil]
    rfl
  | succ n ih =>
    rw [List.range_succ] at hfst
    obtain ⟨earlier, last, rfl, hearlier, hlast⟩ := List.map_eq_append_iff.mp hfst
    obtain ⟨entry, rfl, hn⟩ := List.map_eq_singleton_iff.mp hlast
    have hbefore := ih hearlier fun e he => h e (List.mem_append_left _ he)
    have hresults := h entry (List.mem_append_right _ (List.mem_singleton.mpr rfl))
    rw [hn] at hresults
    simp only [inProcessGenerations, hbefore, hresults, List.map_append, List.map_cons,
      List.map_nil]

theorem Faithful.agrees (h : Faithful job search s) (hhash : search.latentModelHash = none) :
    s.Agrees job search where
  candidates := fun _ _ individual _ => (search.workerCandidate_eq_iff individual).mpr hhash
  populations := h.history.populations
  bred := h.history.bred
  results := h.history.results
  ranking := fun _ hmem =>
    have hfinishing := h.controls _ hmem
    ⟨hfinishing.1, inProcessGenerations_of_entries hfinishing.2 h.history.results⟩

end Results

/-! ## The commands of the only control -/

section ControlSteps

variable {job : GenerationJob Rng} {search : Search Space} {s s' : Staging Rng}

theorem History.frame (h : History job search s) (hpopulations : s'.populations = s.populations)
    (hbred : s'.bred = s.bred) (hresults : s'.generationResults = s.generationResults)
    (hstored : s'.stored = s.stored) : History job search s' := by
  refine ⟨?_, ?_, ?_, ?_⟩
  · rw [hpopulations]
    exact h.populations
  · rw [hbred]
    exact h.bred
  · rw [hresults]
    exact h.results
  · rw [hstored, hpopulations]
    exact h.stored

theorem Faithful.of_control {c : Control Rng} (hcancelled : s'.keys.cancelled = false)
    (hhistory : History job search s') (hworkers : NoPending s'.workers)
    (h : ControlFaithful job search s' c) : Faithful job search { s' with controls := [c] } := by
  refine ⟨hcancelled, hhistory.frame rfl rfl rfl rfl, ?_, ?_⟩
  · intro c hc
    obtain rfl := List.mem_singleton.mp hc
    cases c <;> exact h
  · intro worker hmem hpending
    rw [hworkers worker hmem] at hpending
    cases hpending

theorem History.store {generation : ℕ} {p : Provider Rng} (h : History job search s)
    (hlength : s.populations.length = generation) (hfollows : Follows job search generation p) :
    History job search (s.store p) := by
  refine ⟨?_, h.bred, h.results, ?_⟩
  · intro g population hpopulation
    obtain ⟨q, hq, hbreeding⟩ := hfollows
    rw [Staging.store, List.getElem?_append] at hpopulation
    split at hpopulation
    · exact h.populations g population hpopulation
    · rename_i hge
      rw [List.getElem?_singleton] at hpopulation
      split at hpopulation
      · cases hpopulation
        have hg : g = generation := by omega
        rw [hg]
        exact ⟨q, hq, (congrArg Provider.population hbreeding).symm⟩
      · cases hpopulation
  · intro g q hq hg
    cases hq
    have hg : g = generation := by
      simp only [Staging.store, List.length_append, List.length_singleton] at hg
      omega
    rw [hg]
    exact hfollows

theorem nodup_last {population : List Individual} (hsound : Sound s)
    (hlast : s.populations.getLast? = some population) :
    (population.map Individual.genomeId).Nodup := by
  have hmem : population ∈ s.populations := List.mem_of_getLast? hlast
  exact hsound.distinct.sublist ((List.sublist_flatten_of_mem hmem).map _)

theorem inProcessGeneration_current {generation : ℕ} {p : Provider Rng} (hsound : Sound s)
    (hcancelled : s.keys.cancelled = false) (hhistory : History job search s)
    (hstaged : StagedResults job search s) (hcurrent : Current job s generation p)
    (hcollected : Collected s.keys p.population) :
    inProcessGeneration job search generation =
      .ok (orderedResults p.population s.keys.loadPartials) := by
  obtain ⟨q, hq, hbreeding⟩ := hhistory.stored generation p hcurrent.stored hcurrent.length
  have hpopulation : q.population = p.population :=
    (congrArg Provider.population hbreeding).symm
  have hall : ∀ i < p.population.length, StagedFor s.keys p.population i := by
    obtain hall | hcancel := hcollected
    · exact hall
    · rw [hcancelled] at hcancel
      cases hcancel
  simp only [inProcessGeneration, hq, hpopulation]
  refine orderedResults_eq (nodup_last hsound hcurrent.last) hall ?_
  intro entry hentry
  obtain ⟨population, individual, hlast, hget, hresult⟩ := hstaged entry hentry
  rw [hcurrent.last] at hlast
  cases hlast
  exact ⟨individual, hget, hresult⟩

theorem follows_report {generation : ℕ} {p p' : Provider Rng} {ordered : List CandidateResult}
    (hfollows : Follows job search generation p)
    (hordered : inProcessGeneration job search generation = .ok ordered)
    (hreport : p.report job.setting ordered = .ok p') : Follows job search (generation + 1) p' := by
  obtain ⟨q, hq, hbreeding⟩ := hfollows
  obtain ⟨q', hq', hbreeding'⟩ := report_of_breeding_eq hbreeding hreport
  refine ⟨q', ?_, hbreeding'⟩
  simp only [inProcessGeneration, hq] at hordered
  simp only [inProcessProvider, hq, hordered, hq']
  rfl

theorem gathered_append {generation : ℕ} {ordered : List CandidateResult}
    (h : Gathered s generation) :
    (s.generationResults.filter (fun entry => entry.1 ≠ generation) ++
      [(generation, ordered)]).map Prod.fst = List.range (generation + 1) := by
  have hkept : s.generationResults.filter (fun entry => entry.1 ≠ generation) =
      s.generationResults := by
    apply List.filter_eq_self.mpr
    intro entry hentry
    have hlt : entry.1 ∈ List.range generation := h ▸ List.mem_map_of_mem hentry
    have := List.mem_range.mp hlt
    simp only [ne_eq, decide_not, Bool.not_eq_eq_eq_not, Bool.not_true, decide_eq_false_iff_not]
    omega
  rw [hkept, List.map_append, h, List.range_succ]
  rfl

theorem screening_faithful {generation index : ℕ} {individual : Individual}
    {todo : List (Individual × ℕ)} {alive : List ℕ}
    (hc : ControlInvariant job s (.screening generation ((individual, index) :: todo) alive))
    (h : ControlFaithful job search s (.screening generation ((individual, index) :: todo) alive)) :
    (job.isTradeable individual.genome = true →
      ControlFaithful job search s (.screening generation todo (alive ++ [index]))) ∧
    (¬ job.isTradeable individual.genome = true →
      ControlFaithful job search
        { s with keys := s.keys.stashPartial index (prescreenResult individual.genomeId) }
        (.screening generation todo alive)) := by
  obtain ⟨p, hcurrent, -, htodo, -⟩ := hc
  have hindex : p.population[index]? = some individual := htodo _ List.mem_cons_self
  obtain ⟨hgathered, hstaged, halive⟩ := h
  constructor
  · intro htradeable
    refine ⟨hgathered, hstaged, ?_⟩
    intro i hi
    obtain hi | hi := List.mem_append.mp hi
    · exact halive i hi
    · obtain rfl := List.mem_singleton.mp hi
      intro population other hlast hother
      rw [hcurrent.last] at hlast
      cases hlast
      rw [hindex] at hother
      cases hother
      exact htradeable
  · intro hdead
    refine ⟨hgathered, ?_, halive⟩
    intro entry hentry
    obtain hold | hnew := List.mem_append.mp hentry
    · exact hstaged entry (List.mem_filter.mp hold).1
    · obtain rfl := List.mem_singleton.mp hnew
      refine ⟨p.population, individual, hcurrent.last, hindex, ?_⟩
      rw [inProcessResult, if_neg hdead]

theorem Faithful.command {c c' : Control Rng} (hsound : Sound s) (hworkers : NoPending s.workers)
    (hc : ControlInvariant job s c) (hcancelled : s.keys.cancelled = false)
    (hhistory : History job search s) (h : ControlFaithful job search s c)
    (hcommand : Command job s c s' c') : Faithful job search { s' with controls := [c'] } := by
  have hlive : ¬ s.keys.isCancelled = true := by
    rw [JobKeys.isCancelled, hcancelled]
    exact Bool.false_ne_true
  cases hcommand with
  | cancel hstop | stop hstop => exact (hlive hstop).elim
  | start _ | screened | loadState _ | goOn _ _ | close =>
    exact .of_control hcancelled hhistory hworkers h
  | mark => exact .of_control hcancelled (hhistory.frame rfl rfl rfl rfl) hworkers h
  | create => exact .of_control hcancelled hhistory hworkers ⟨h, job.provider, rfl, rfl⟩
  | store => exact .of_control hcancelled (hhistory.store hc.1 h.2) hworkers h.1
  | clear =>
    exact .of_control hcancelled (hhistory.frame rfl rfl rfl rfl) hworkers
      ⟨h, List.forall_mem_nil _, List.forall_mem_nil _⟩
  | keep htradeable =>
    exact .of_control hcancelled hhistory hworkers ((screening_faithful hc h).1 htradeable)
  | prescreen hdead =>
    exact .of_control hcancelled (hhistory.frame rfl rfl rfl rfl) hworkers
      ((screening_faithful hc h).2 hdead)
  | countNone =>
    exact .of_control hcancelled (hhistory.frame rfl rfl rfl rfl) hworkers ⟨h.1, h.2.1⟩
  | count => exact .of_control hcancelled (hhistory.frame rfl rfl rfl rfl) hworkers h
  | loadPartials =>
    exact .of_control hcancelled hhistory hworkers
      ⟨h.1, inProcessGeneration_current hsound hcancelled hhistory h.2 hc.1 hc.2⟩
  | append =>
    refine .of_control hcancelled ⟨hhistory.populations, hhistory.bred, ?_, hhistory.stored⟩ hworkers
      ⟨gathered_append h.1, h.2⟩
    intro entry hentry
    obtain hold | hnew := List.mem_append.mp hentry
    · exact hhistory.results entry (List.mem_filter.mp hold).1
    · obtain rfl := List.mem_singleton.mp hnew
      exact h.2
  | @complete generation _ _ _ hlt =>
    have hwithin := hc.1.within
    have hlast : generation + 1 = job.setting.genetic.generations := by omega
    exact .of_control hcancelled (hhistory.frame rfl rfl rfl rfl) hworkers ⟨rfl, hlast ▸ h.1⟩
  | breed hreport =>
    have hfollows := hhistory.stored _ _ hc.1.stored hc.1.length
    refine .of_control hcancelled ⟨hhistory.populations, ?_, hhistory.results, hhistory.stored⟩
      hworkers ⟨h.1, follows_report hfollows h.2 hreport⟩
    intro entry hentry
    obtain hold | hnew := List.mem_append.mp hentry
    · exact hhistory.bred entry hold
    · obtain rfl := List.mem_singleton.mp hnew
      exact h.2
  | finish => exact .of_control hcancelled hhistory hworkers trivial
  | persist | clearPartials =>
    exact .of_control hcancelled (hhistory.frame rfl rfl rfl rfl) hworkers trivial
  | clearGenetic =>
    exact .of_control hcancelled ⟨hhistory.populations, hhistory.bred, List.forall_mem_nil _, nofun⟩
      hworkers trivial

theorem control_faithful {c : Control Rng} (hsound : Sound s) (hcontrols : s.controls = [c])
    (hworkers : NoPending s.workers) (hc : ControlInvariant job s c)
    (hfaithful : Faithful job search s)
    (hbreeds : ∀ generation p ordered, c = .breeding generation p ordered →
      ∃ p', p.report job.setting ordered = .ok p') :
    Faithful job search ((stepControl job s c).1.moveControl 0 (stepControl job s c).2) := by
  have h : ControlFaithful job search s c :=
    hfaithful.controls c (by rw [hcontrols]; exact List.mem_singleton.mpr rfl)
  obtain ⟨s', c', hcommand, hmoved⟩ | ⟨rfl, hmoved⟩ := moveControl_cases hcontrols hc hbreeds
  · rw [hmoved]
    exact .command hsound hworkers hc hfaithful.cancelled hfaithful.history h hcommand
  · rw [hmoved]
    refine ⟨rfl, hfaithful.history.frame rfl rfl rfl rfl, List.forall_mem_nil _, ?_⟩
    intro worker hmem hpending
    rw [hworkers worker hmem] at hpending
    cases hpending

end ControlSteps

/-! ## The commands of the workers -/

section WorkerSteps

variable {job : GenerationJob Rng} {search : Search Space} {s s' : Staging Rng} {k : ℕ}
  {w : Worker}

theorem ResultAt.frame (hpopulations : s'.populations = s.populations) {index : ℕ}
    {result : CandidateResult} (h : ResultAt job search s index result) :
    ResultAt job search s' index result := by
  rw [ResultAt, hpopulations]
  exact h

theorem AliveAt.frame (hpopulations : s'.populations = s.populations) {index : ℕ}
    (h : AliveAt job s index) : AliveAt job s' index := by
  rw [AliveAt, hpopulations]
  exact h

theorem Gathered.frame (hresults : s'.generationResults = s.generationResults) {n : ℕ}
    (h : Gathered s n) : Gathered s' n := by
  rw [Gathered, hresults]
  exact h

theorem ControlFaithful.frame (hpopulations : s'.populations = s.populations)
    (hresults : s'.generationResults = s.generationResults)
    (hstaged : StagedResults job search s → StagedResults job search s') {c : Control Rng}
    (h : ControlFaithful job search s c) : ControlFaithful job search s' c := by
  cases c with
  | starting | marking | creating | clearing => exact Gathered.frame hresults h
  | storing => exact ⟨h.1.frame hresults, h.2⟩
  | screening | counting | sending =>
    exact ⟨h.1.frame hresults, hstaged h.2.1, fun i hi => (h.2.2 i hi).frame hpopulations⟩
  | loadingState | loadingPartials => exact ⟨h.1.frame hresults, hstaged h.2⟩
  | appending | deciding | breeding => exact ⟨h.1.frame hresults, h.2⟩
  | closing | finishing => exact ⟨h.1, h.2.frame hresults⟩
  | persisting | clearingPartials | clearingGenetic | clearingKeys => trivial

theorem WorkerFaithful.frame (hpopulations : s'.populations = s.populations)
    (hresults : s'.generationResults = s.generationResults)
    (hstaged : StagedResults job search s → StagedResults job search s') {worker : Worker}
    (h : WorkerFaithful job search s worker) : WorkerFaithful job search s' worker :=
  ⟨h.gathered.frame hresults, hstaged h.staged, h.alive.frame hpopulations,
    fun result heq => (h.stashing result heq).frame hpopulations⟩

theorem Faithful.move (h : Faithful job search s) (hk : s.workers[k]? = some w)
    (hpending : w.point.isPending = true) (point : WorkerPoint) (keys : JobKeys CandidateResult)
    (controls : List (Control Rng)) (hcancelled : keys.cancelled = false)
    (hstaged : StagedResults job search s →
      StagedResults job search { s with keys, controls })
    (hpoint : ∀ result, point = .stashing result → ResultAt job search s w.index result)
    (hcontrols : ∀ c ∈ controls, c ∈ s.controls ∨ c = .loadingState w.generation) :
    Faithful job search ({ s with keys, controls }.moveWorker k w point) := by
  have hw := h.workers w (List.mem_of_getElem? hk) hpending
  have hmoved : StagedResults job search s →
      StagedResults job search ({ s with keys, controls }.moveWorker k w point) := hstaged
  refine ⟨hcancelled, h.history.frame rfl rfl rfl rfl, ?_, ?_⟩
  · intro c hc
    obtain hold | rfl := hcontrols c hc
    · refine ControlFaithful.frame ?_ ?_ hmoved (h.controls c hold)
      · rfl
      · rfl
    · exact ⟨hw.gathered, hstaged hw.staged⟩
  · intro worker hmem hworker
    obtain hold | rfl := List.mem_or_eq_of_mem_set hmem
    · refine WorkerFaithful.frame ?_ ?_ hmoved (h.workers worker hold hworker)
      · rfl
      · rfl
    · exact ⟨hw.gathered, hstaged hw.staged, hw.alive, hpoint⟩

theorem Faithful.move_self (h : Faithful job search s) (hk : s.workers[k]? = some w)
    (hpending : w.point.isPending = true) (point : WorkerPoint)
    (hpoint : ∀ result, point = .stashing result → ResultAt job search s w.index result) :
    Faithful job search (s.moveWorker k w point) :=
  h.move hk hpending point s.keys s.controls h.cancelled (fun hstaged => hstaged) hpoint
    (fun _ hc => .inl hc)

theorem Faithful.work (h : Faithful job search s) (hinv : StagingInvariant job s)
    (hhash : search.latentModelHash = none) {outcome}
    (hdet : s.Deterministic job search (.work k outcome)) (hk : s.workers[k]? = some w)
    (hpending : w.point.isPending = true) :
    Faithful job search ((stepWorker s w outcome).1.moveWorker k w (stepWorker s w outcome).2) := by
  obtain ⟨generation, p, unsent, hrunning⟩ := hinv.running_of_pending hk hpending
  have hworks := hrunning.workers w (List.mem_of_getElem? hk) hpending
  have hw := h.workers w (List.mem_of_getElem? hk) hpending
  have hlive : ¬ s.keys.isCancelled = true := by
    rw [JobKeys.isCancelled, h.cancelled]
    exact Bool.false_ne_true
  cases hpoint : w.point with
  | queued =>
    simp only [stepWorker, hpoint]
    exact h.move_self hk hpending .queued (fun _ heq => by cases heq)
  | checking =>
    simp only [stepWorker, hpoint, if_neg hlive]
    exact h.move_self hk hpending .fetching (fun _ heq => by cases heq)
  | fetching =>
    have hget : p.population[w.index]? = some (p.population.get ⟨w.index, hworks.index⟩) :=
      List.getElem?_eq_getElem hworks.index
    simp only [stepWorker, hpoint, hrunning.current.stored, Option.bind_some, hget]
    exact h.move_self hk hpending (.evaluating _) (fun _ heq => by cases heq)
  | evaluating individual =>
    have hget := hworks.evaluating individual hpoint
    obtain ⟨heval, result, rfl⟩ := hdet w individual hk hpoint
    simp only [stepWorker, hpoint]
    refine h.move_self hk hpending _ ?_
    intro stashed heq
    cases heq
    refine ⟨p.population, individual, hrunning.current.last, hget, ?_⟩
    have hcandidate := (search.workerCandidate_eq_iff individual).mpr hhash
    have hid : result.candidateId = individual.genomeId := search.candidateId_evaluate heval.symm
    rw [inProcessResult, if_pos (hw.alive _ _ hrunning.current.last hget), ← hcandidate, ← heval,
      ← hid]
    rfl
  | stashing result =>
    simp only [stepWorker, hpoint]
    refine h.move hk hpending .decrementing (s.keys.stashPartial w.index result) s.controls
      h.cancelled ?_ (fun _ heq => by cases heq) (fun _ hc => .inl hc)
    intro hstaged entry hentry
    obtain hold | hnew := List.mem_append.mp hentry
    · exact hstaged entry (List.mem_filter.mp hold).1
    · obtain rfl := List.mem_singleton.mp hnew
      exact hw.stashing result hpoint
  | decrementing =>
    simp only [stepWorker, hpoint]
    refine h.move hk hpending .returned s.keys.decrement.2 _ h.cancelled (fun hstaged => hstaged)
      (fun _ heq => by cases heq) ?_
    intro c hc
    split at hc
    · obtain hold | hnew := List.mem_append.mp hc
      · exact .inl hold
      · exact .inr (List.mem_singleton.mp hnew)
    · exact .inl hc
  | returned =>
    rw [hpoint] at hpending
    cases hpending

theorem Faithful.send {generation : ℕ} {p : Provider Rng} {unsent : List ℕ} {c : Control Rng}
    (h : Faithful job search s) (hrunning : Running job s generation p unsent)
    (hk : s.controls[k]? = some c) :
    Faithful job search ((stepControl job s c).1.moveControl k (stepControl job s c).2) := by
  have hcontrols := hrunning.controls
  cases unsent with
  | nil =>
    rw [if_pos rfl] at hcontrols
    rw [hcontrols] at hk
    cases hk
  | cons index unsent =>
    rw [if_neg (List.cons_ne_nil _ _)] at hcontrols
    obtain ⟨rfl, rfl⟩ := eq_zero_of_singleton hcontrols hk
    obtain ⟨hgathered, hstaged, halive⟩ := h.controls _ (List.mem_of_getElem? hk)
    have hworkers : ∀ worker ∈ s.workers ++ [⟨generation, index, .queued⟩],
        worker.point.isPending = true → WorkerFaithful job search s worker := by
      intro worker hmem hpending
      obtain hold | hnew := List.mem_append.mp hmem
      · exact h.workers worker hold hpending
      · obtain rfl := List.mem_singleton.mp hnew
        exact ⟨hgathered, hstaged, halive index List.mem_cons_self, fun _ heq => (by cases heq)⟩
    have hframe : ∀ worker, WorkerFaithful job search s worker →
        ∀ s' : Staging Rng, s'.populations = s.populations →
          s'.generationResults = s.generationResults → s'.keys = s.keys →
          WorkerFaithful job search s' worker := by
      intro worker hworker s' hpopulations hresults hkeys
      refine hworker.frame hpopulations hresults fun hstaged entry hentry => ?_
      rw [hkeys] at hentry
      exact (hstaged entry hentry).frame hpopulations
    cases unsent with
    | nil =>
      simp only [stepControl, Staging.moveControl, hcontrols]
      refine ⟨h.cancelled, h.history.frame rfl rfl rfl rfl, fun c hc => (by cases hc), ?_⟩
      exact fun worker hmem hpending => hframe worker (hworkers worker hmem hpending) _ rfl rfl rfl
    | cons index' unsent =>
      simp only [stepControl, Staging.moveControl, hcontrols]
      refine ⟨h.cancelled, h.history.frame rfl rfl rfl rfl, ?_, ?_⟩
      · intro c hc
        obtain rfl := List.mem_singleton.mp hc
        exact ⟨hgathered, hstaged, fun i hi => halive i (List.mem_cons_of_mem _ hi)⟩
      · exact fun worker hmem hpending =>
          hframe worker (hworkers worker hmem hpending) _ rfl rfl rfl

end WorkerSteps

/-! ## Every step -/

section Steps

variable {job : GenerationJob Rng} {search : Search Space} {s : Staging Rng}

theorem Staging.Deterministic.guarded {event : StagingEvent}
    (h : s.Deterministic job search event) : s.Guarded job event := by
  cases event with
  | control k => exact h
  | deliver | work => trivial
  | controlRaises | workerRaises | requestCancel => exact h.elim

theorem Faithful.step (hhash : search.latentModelHash = none) (event : StagingEvent)
    (hdet : s.Deterministic job search event) (hinv : StagingInvariant job s)
    (h : Faithful job search s) : Faithful job search (s.step job event) := by
  cases event with
  | control k =>
    cases hk : s.controls[k]? with
    | none =>
      simp only [Staging.step, hk]
      exact h
    | some c =>
      simp only [Staging.step, hk]
      cases hinv.phase with
      | control c' hcontrols hworkers hc =>
        obtain ⟨rfl, rfl⟩ := eq_zero_of_singleton hcontrols hk
        refine control_faithful hinv.sound hcontrols hworkers hc h ?_
        rintro generation p ordered rfl
        exact hdet generation p ordered hk
      | running generation p unsent hrunning => exact h.send hrunning hk
      | ended hcontrols hworkers hclosed =>
        rw [hcontrols] at hk
        cases hk
  | deliver k =>
    cases hk : s.workers[k]? with
    | none =>
      simp only [Staging.step, hk]
      exact h
    | some worker =>
      obtain ⟨g, index, point⟩ := worker
      cases point with
      | queued =>
        simp only [Staging.step, hk]
        exact h.move_self hk rfl .checking (fun _ heq => by cases heq)
      | checking | fetching | evaluating | stashing | decrementing | returned =>
        simp only [Staging.step, hk]
        exact h
  | work k outcome =>
    cases hk : s.workers[k]? with
    | none =>
      simp only [Staging.step, hk]
      exact h
    | some worker =>
      simp only [Staging.step, hk]
      by_cases hpending : worker.point.isPending = true
      · exact h.work hinv hhash hdet hk hpending
      · have hreturned := returned_of_not_pending hpending
        have hstep : stepWorker s worker outcome = (s, worker.point) := by
          simp only [stepWorker, hreturned]
        rw [hstep, moveWorker_self hk]
        exact h
  | controlRaises | workerRaises | requestCancel => exact hdet.elim

theorem faithful_init (job : GenerationJob Rng) (search : Search Space) :
    Faithful job search ({} : Staging Rng) := by
  refine ⟨rfl, ⟨?_, ?_, ?_, ?_⟩, ?_, ?_⟩
  · intro g population hpopulation
    cases hpopulation
  · intro entry hentry
    cases hentry
  · intro entry hentry
    cases hentry
  · intro g q hq
    cases hq
  · intro c hc
    obtain rfl := List.mem_singleton.mp hc
    exact rfl
  · intro worker hworker
    cases hworker

end Steps

/-- Without a latent model, every run of the staged search in which nothing raises goes through the
populations, the results and the ranking of the in-process search. -/
theorem staged_agrees (job : GenerationJob Rng) (search : Search Space)
    (events : List StagingEvent) (hhash : search.latentModelHash = none)
    (h : Admissible (Staging.step job) (Staging.Deterministic job search) {} events) :
    (run (Staging.step job) {} events).Agrees job search := by
  have hboth := invariant_of_admissible
    (fun s => StagingInvariant job s ∧ Faithful job search s) h
    ⟨stagingInvariant_init job, faithful_init job search⟩
    (fun s event hdet hinv => ⟨hinv.1.step event hdet.guarded,
      hinv.2.step hhash event hdet hinv.1⟩)
  exact hboth.2.agrees hhash

/-! ## A search with a latent model -/

/-- A candidate trades only with the latent model that its genome reads. -/
def latentSearch (latentModelHash : Option String) : Search Unit where
  request := { timeframe := "M5", searchSpaceForGenome := fun _ => () }
  latentModelHash
  minimizeDrawdown := false
  gates := {}
  raises _ := none
  walkForward candidate :=
    let trades : ℤ := if candidate.fixedParams.latentModelHash.isSome then 20 else 0
    .ok { windowCount := 4, completedWindows := 4, oosMetrics := some { totalTrades := trades },
          objective := 2 }

/-- What `evaluate_candidate` returns for the candidate of the worker. -/
def untraded (genomeId : String) : CandidateResult :=
  evaluateCandidate false {} genomeId "CompositeStrategy"
    (.ok { windowCount := 4, completedWindows := 4, oosMetrics := some { totalTrades := 0 },
           objective := 2 })

theorem evaluate_workerCandidate (latentModelHash : Option String) (individual : Individual) :
    (latentSearch latentModelHash).evaluate
      ((latentSearch latentModelHash).workerCandidate individual) =
        .ok (untraded individual.genomeId) := rfl

/-- Only the genome of the id is evaluated, and a control that breeds succeeds. -/
def Staging.evaluatesOnly (job : GenerationJob Rng) (genomeId : String) (s : Staging Rng) :
    StagingEvent → Bool
  | .control k => s.guards job (.control k)
  | .deliver _ => true
  | .work k _ => s.workers[k]?.all fun worker =>
      match worker.point with
      | .evaluating individual => individual.genomeId = genomeId
      | _ => true
  | .controlRaises _ | .workerRaises _ | .requestCancel => false

/-- The first generation up to its appended results. -/
def firstGenerationEvents : List StagingEvent :=
  List.replicate 18 (.control 0) ++
    .deliver 0 :: List.replicate 5 (.work 0 (.ok (untraded "gen0-seed-0"))) ++
    List.replicate 3 (.control 0)

theorem firstGenerationEvents_deterministic (latentModelHash : Option String) :
    Admissible (Staging.step strongJob)
      (Staging.Deterministic strongJob (latentSearch latentModelHash)) {}
      firstGenerationEvents := by
  have hevaluates : Admissible (Staging.step strongJob)
      (fun s event => s.evaluatesOnly strongJob "gen0-seed-0" event = true) {}
      firstGenerationEvents := by
    decide +kernel
  have houtcome : Admissible (Staging.step strongJob)
      (fun _ event => ∀ k outcome, event = .work k outcome →
        outcome = .ok (untraded "gen0-seed-0")) {} firstGenerationEvents := by
    apply Admissible.of_forall
    intro event hevent k outcome hwork
    subst hwork
    have hsame : k = 0 ∧ outcome = .ok (untraded "gen0-seed-0") := by
      simpa [firstGenerationEvents] using hevent
    exact hsame.2
  refine (hevaluates.and houtcome).mono ?_
  rintro s event ⟨honly, hresult⟩
  cases event with
  | control k =>
    have hguards : s.guards strongJob (.control k) = true := honly
    exact Staging.guarded_of_guards hguards
  | deliver k => trivial
  | work k outcome =>
    intro worker individual hk hpoint
    have hid : individual.genomeId = "gen0-seed-0" := by
      simpa [Staging.evaluatesOnly, hk, hpoint] using honly
    rw [evaluate_workerCandidate, hid]
    exact ⟨hresult k outcome rfl, _, hresult k outcome rfl⟩
  | controlRaises | workerRaises | requestCancel => cases honly

theorem staged_agrees_without_latent :
    (run (Staging.step strongJob) {} firstGenerationEvents).Agrees strongJob (latentSearch none) ∧
      (run (Staging.step strongJob) {} firstGenerationEvents).generationResults.length = 1 :=
  ⟨staged_agrees strongJob (latentSearch none) firstGenerationEvents rfl
    (firstGenerationEvents_deterministic none), by decide +kernel⟩

/-- The first genome passes in process; its worker evaluates it without the latent model and finds no
trades. -/
theorem staged_drops_latent_model :
    Admissible (Staging.step strongJob)
        (Staging.Deterministic strongJob (latentSearch (some "latent"))) {}
        firstGenerationEvents ∧
      ¬ (run (Staging.step strongJob) {} firstGenerationEvents).Agrees strongJob
        (latentSearch (some "latent")) := by
  refine ⟨firstGenerationEvents_deterministic (some "latent"), fun hagrees => ?_⟩
  have hstaged : ∃ entry ∈ (run (Staging.step strongJob) {} firstGenerationEvents).generationResults,
      entry.1 = 0 ∧ ∀ result ∈ entry.2, result.passedGates = false := by
    decide +kernel
  obtain ⟨entry, hentry, hzero, hfailed⟩ := hstaged
  have hsame := hagrees.results entry hentry
  rw [hzero] at hsame
  have hpassed : ∃ result ∈ ((inProcessGeneration strongJob (latentSearch (some "latent"))
      0).toOption.getD []), result.passedGates = true := by
    decide +kernel
  obtain ⟨result, hresult, htrue⟩ := hpassed
  rw [hsame] at hresult
  rw [hfailed result hresult] at htrue
  cases htrue

end QBackend.GeneticSearch
