import QBackend.GeneticProvider

/-!
# The exported state of a provider

`export_state` leaves the fitness of the champion out. A provider that loads the state cannot be
told from the one that exported it exactly as long as no champion has been crowned: from then on the
loaded provider takes the next candidate that passes, however weak, for its champion.
-/

namespace QBackend.GeneticSearch

open FallibleSteps

variable {Rng Document : Type} (setting : Setting Rng)

/-- What is seen of a provider. -/
structure Observation where
  population : List Individual
  champion : Option Individual
  championFitness : WithBot ℚ
  effectiveMutationRate : ℚ
  mutationOperatorWeights : OperatorWeights
  generation : ℕ

def Provider.observe (p : Provider Rng) : Observation where
  population := p.population
  champion := p.champion
  championFitness := p.championFitness
  effectiveMutationRate := p.effectiveMutationRate
  mutationOperatorWeights := p.mutationOperatorWeights
  generation := p.generation

/-- All later reports show the same, and end with the same error where they end with one. -/
def Indistinguishable (p q : Provider Rng) : Prop :=
  ∀ later, (p.reports setting later).map Provider.observe =
    (q.reports setting later).map Provider.observe

/-- The result makes a champion where there is none. -/
def Crowns (population : List Individual) (result : CandidateResult) : Prop :=
  result.status = .completed ∧ result.passedGates = true ∧
    (genomeById population result.candidateId).isSome

/-- No reported result of a genome of its generation has completed and passed its gates. -/
def NeverCrowned : Provider Rng → List (List CandidateResult) → Prop
  | _, [] => True
  | p, results :: later => (∀ result ∈ results, ¬ Crowns p.population result) ∧
      ∀ p', p.report setting results = .ok p' → NeverCrowned p' later

/-! ## The fitness of the champion -/

variable {setting}

theorem championFitness_score (population : List Individual)
    (parentFitnessById : List (String × ℚ)) (scores : Scores) (result : CandidateResult) :
    (score setting population parentFitnessById scores result).championFitness = ⊥ ↔
      scores.championFitness = ⊥ ∧ ¬ Crowns population result := by
  unfold score
  cases hgenome : genomeById population result.candidateId with
  | none => simp [Crowns, hgenome]
  | some individual =>
    by_cases hpass : result.status = .completed ∧ result.passedGates = true
    · have hcrowns : Crowns population result := ⟨hpass.1, hpass.2, by simp [hgenome]⟩
      by_cases hbetter :
          scores.championFitness < (setting.fitness result individual.genome : WithBot ℚ)
      · simp [hpass, hbetter, hcrowns]
      · have hne : scores.championFitness ≠ ⊥ := by
          intro hbot
          rw [hbot] at hbetter
          exact hbetter (WithBot.bot_lt_coe _)
        simp [hpass, hbetter, hcrowns, hne]
    · have hcrowns : ¬ Crowns population result := fun h => hpass ⟨h.1, h.2.1⟩
      have hfalse : (decide (result.status = .completed) && result.passedGates) = false := by
        by_contra h
        simp only [Bool.not_eq_false, Bool.and_eq_true, decide_eq_true_eq] at h
        exact hpass h
      simp [hfalse, hcrowns]

theorem championFitness_foldl (population : List Individual)
    (parentFitnessById : List (String × ℚ)) (results : List CandidateResult) (scores : Scores) :
    (results.foldl (score setting population parentFitnessById) scores).championFitness = ⊥ ↔
      scores.championFitness = ⊥ ∧ ∀ result ∈ results, ¬ Crowns population result := by
  induction results generalizing scores with
  | nil => simp
  | cons result results ih =>
    rw [List.foldl_cons, ih, championFitness_score]
    simp only [List.mem_cons, forall_eq_or_imp, and_assoc]

theorem championFitness_report {p p' : Provider Rng} {results : List CandidateResult}
    (h : p.report setting results = .ok p') :
    p'.championFitness = ⊥ ↔
      p.championFitness = ⊥ ∧ ∀ result ∈ results, ¬ Crowns p.population result := by
  have hscores : p'.championFitness = (p.scores setting results).championFitness := by
    unfold Provider.report at h
    simp only at h
    split at h
    · cases h
    · cases h
      rfl
  rw [hscores]
  exact championFitness_foldl p.population p.parentFitnessById results _

theorem championFitness_reports {p p' : Provider Rng} {history : List (List CandidateResult)}
    (h : p.reports setting history = .ok p') :
    p'.championFitness = ⊥ ↔ p.championFitness = ⊥ ∧ NeverCrowned setting p history := by
  induction history generalizing p with
  | nil =>
    cases h
    simp [NeverCrowned]
  | cons results later ih =>
    unfold Provider.reports at h
    cases hreport : p.report setting results with
    | error e => simp [hreport] at h
    | ok q =>
      simp only [hreport] at h
      rw [ih h, championFitness_report hreport]
      simp [NeverCrowned, hreport, and_assoc]

/-- A provider that loads the exported state of one that a search has reached behaves as that one
in every continuation exactly where the search has crowned no champion yet. -/
theorem loaded_indistinguishable_iff {codec : GenomeCodec Document} (hcodec : codec.Faithful)
    {rng rng' : Rng} {population population' : List Individual}
    {history : List (List CandidateResult)} {p : Provider Rng}
    (hreach : (Provider.init setting rng population).reports setting history = .ok p) :
    (∃ q, (Provider.init setting rng' population').loadState codec (p.exportState codec) = .ok q ∧
      Indistinguishable setting p q) ↔
    NeverCrowned setting (Provider.init setting rng population) history := by
  have hcrown := championFitness_reports hreach
  rw [loadState_exportState hcodec]
  constructor
  · rintro ⟨q, hq, hsame⟩
    cases hq
    have hnow : p.observe = Provider.observe { p with championFitness := ⊥ } :=
      Except.ok.inj (hsame [])
    have hbot : p.championFitness = ⊥ := congrArg Observation.championFitness hnow
    exact (hcrown.mp hbot).2
  · intro hnever
    have hbot : p.championFitness = ⊥ := hcrown.mpr ⟨rfl, hnever⟩
    refine ⟨_, rfl, ?_⟩
    have hloaded : { p with championFitness := (⊥ : WithBot ℚ) } = p := by
      rw [← hbot]
    intro later
    show _ = Except.map _ (Provider.reports setting { p with championFitness := ⊥ } later)
    rw [hloaded]

/-! ## A search of two generations -/

/-- A generator that always draws the first; a child is its first parent. -/
def firstOperators : Operators Unit where
  random _ := (0, ())
  choice _ _ := (0, ())
  sample _ _ k := (List.range k, ())
  crossoverGenomes _ a _ := (.ok a, ())
  mutateGenome _ a _ := (.ok { a with lastMutationOp := some "rewire" }, ())

theorem smallPopulation_ge : 10 ≤ 10 := le_rfl

theorem smallElite_lt : 1 < 10 := by decide

theorem smallTournament_ge : 2 ≤ 3 := by decide

def smallSetting : Setting Unit where
  genetic := { populationSize := 10, generations := 3, eliteCount := 1
               population_ge := smallPopulation_ge, elite_lt := smallElite_lt
               generations_ge := smallTournament_ge, tournament_ge := smallTournament_ge }
  gates := {}
  log := id
  operators := firstOperators

def smallPopulation : List Individual :=
  (List.range 10).map fun i =>
    { genomeId := "gen0-rand-" ++ toString i
      genome := { nodes := [], entryLong := "", entryShort := "", exitLong := "", exitShort := "" } }

/-- A result with ten trades that passes with the robustness. -/
def passing (candidateId : String) (robustness : ℚ) : CandidateResult :=
  { candidateId, strategy := "CompositeStrategy", status := .completed
    objectiveValue := some robustness, robustnessScore := some robustness, passedGates := true
    oosMetrics := some { totalTrades := 10 }, windowCount := 4, completedWindows := 4 }

/-- The documents are the genomes themselves. -/
def plainCodec : GenomeCodec Individual := ⟨id, .ok⟩

theorem plainCodec_faithful : plainCodec.Faithful := fun _ => rfl

def uncrowned : Provider Unit :=
  ((Provider.init smallSetting () smallPopulation).reports smallSetting
    [[{ passing "gen0-rand-0" 2 with passedGates := false }]]).toOption.getD
      (Provider.init smallSetting () smallPopulation)

/-- After a generation in which no candidate passes, the loaded provider is the exported one. -/
theorem loaded_indistinguishable_uncrowned :
    ∃ q, (Provider.init smallSetting () []).loadState plainCodec
        (uncrowned.exportState plainCodec) = .ok q ∧
      Indistinguishable smallSetting uncrowned q := by
  have hreach : (Provider.init smallSetting () smallPopulation).reports smallSetting
      [[{ passing "gen0-rand-0" 2 with passedGates := false }]] = .ok uncrowned := by
    obtain ⟨p, hp⟩ := exists_ok_of_isSome
      (x := (Provider.init smallSetting () smallPopulation).reports smallSetting
        [[{ passing "gen0-rand-0" 2 with passedGates := false }]]) (by decide +kernel)
    rw [uncrowned, hp]
    rfl
  refine (loaded_indistinguishable_iff plainCodec_faithful hreach).mpr ⟨?_, fun _ _ => trivial⟩
  intro result hresult hcrowns
  rw [List.mem_singleton.mp hresult] at hcrowns
  exact absurd hcrowns.2.1 (by decide)

/-- The provider after a first generation whose champion has fitness two. -/
def crowned : Provider Unit :=
  ((Provider.init smallSetting () smallPopulation).reports smallSetting
    [[passing "gen0-rand-0" 2]]).toOption.getD (Provider.init smallSetting () smallPopulation)

theorem reports_crowned :
    (Provider.init smallSetting () smallPopulation).reports smallSetting
      [[passing "gen0-rand-0" 2]] = .ok crowned := by
  obtain ⟨p, hp⟩ := exists_ok_of_isSome
    (x := (Provider.init smallSetting () smallPopulation).reports smallSetting
      [[passing "gen0-rand-0" 2]]) (by decide +kernel)
  rw [crowned, hp]
  rfl

/-- The loaded provider crowns a candidate of fitness one that the exporting provider, with a
champion of fitness two, passes over. -/
theorem loaded_provider_crowns_weaker :
    (Provider.init smallSetting () smallPopulation).reports smallSetting
        [[passing "gen0-rand-0" 2]] = .ok crowned ∧
      ∃ q, (Provider.init smallSetting () smallPopulation).loadState plainCodec
          (crowned.exportState plainCodec) = .ok q ∧
        ¬ Indistinguishable smallSetting crowned q := by
  refine ⟨reports_crowned, _, loadState_exportState plainCodec_faithful _ _, fun hsame => ?_⟩
  have hlater := congrArg (fun out => out.toOption.map fun seen =>
    seen.champion.map Individual.genomeId) (hsame [[passing "gen0-ind1" 1]])
  exact absurd hlater (by decide +kernel)

end QBackend.GeneticSearch
