import QBackend.GeneticOrchestrator
import QBackend.OrderedSeries
import QBackend.ProviderRoundTrip

/-!
# The champion of a genetic search

The elites of a generation are its fittest candidates, whether or not they passed their gates, and
the best candidate of a search is the one of the last generation with the highest robustness. The
fittest candidate that passed in any generation is that best candidate as long as a candidate that
passed is among the elites of every generation that has one, and the most robust candidate of the
last generation is its fittest.
-/

namespace QBackend.GeneticSearch

open OrderedSeries FallibleSteps

variable {Rng : Type} (setting : Setting Rng)

/-- The candidate completed and passed all gates. -/
def Entry.Passes (entry : Entry) : Prop :=
  entry.result.status = .completed ∧ entry.result.passedGates = true

instance (entry : Entry) : Decidable entry.Passes :=
  inferInstanceAs (Decidable (_ ∧ _))

/-- The best candidate is there and none that passed in any generation is fitter. -/
def KeepsChampion (generations : List (List Entry)) : Prop :=
  (∃ entries ∈ generations, ∃ entry ∈ entries, entry.Passes) →
    ∃ last ∈ generations.getLast?, ∃ best ∈ last,
      bestOf (generations.map (List.map Entry.result)) =
        some { best.result with rank := some 1 } ∧
      ∀ entries ∈ generations, ∀ entry ∈ entries, entry.Passes →
        setting.entryFitness entry ≤ setting.entryFitness best

/-- One of the fittest `elite_count` candidates passed, if any did. -/
def PassesAmongElites (entries : List Entry) : Prop :=
  (∃ entry ∈ entries, entry.Passes) →
    ∃ entry ∈ (entries.insertionSort fun a b => setting.entryFitness b ≤
      setting.entryFitness a).take setting.genetic.eliteCount, entry.Passes

/-- Of the candidates that passed, the first of those with the highest robustness, a robustness of
zero being the lowest, is a fittest one. -/
def RobustnessLeads (entries : List Entry) : Prop :=
  ∀ before entry after, entries.filter Entry.Passes = before ++ entry :: after →
    (∀ other ∈ before, rankKey other.result < rankKey entry.result) →
    (∀ other ∈ after, rankKey other.result ≤ rankKey entry.result) →
    ∀ other ∈ entries, other.Passes → setting.entryFitness other ≤ setting.entryFitness entry

/-! ## Results of an evaluation -/

variable {setting} {evaluator : Evaluator}

theorem result_of_genome_eq {a b : Individual} (h : a.genome = b.genome) (gates : GateConfig) :
    evaluator.result gates a =
      { evaluator.result gates b with candidateId := a.genomeId } := by
  unfold Evaluator.result
  rw [h]
  split
  · unfold evaluateCandidate
    split
    · rfl
    · simp only
      split
      · rfl
      · split
        · rfl
        · rfl
  · rfl

theorem candidateId_result (gates : GateConfig) (individual : Individual) :
    (evaluator.result gates individual).candidateId = individual.genomeId := by
  rw [result_of_genome_eq rfl gates]

theorem passedGates_result {gates : GateConfig} {individual : Individual}
    (h : (evaluator.result gates individual).passedGates = true) :
    (evaluator.result gates individual).status = .completed ∧
      (evaluator.result gates individual).objectiveValue.isSome := by
  unfold Evaluator.result at *
  split at h
  · next htradeable =>
    rw [if_pos htradeable]
    unfold evaluateCandidate at *
    split at h
    · cases h
    · simp only at h ⊢
      split at h
      · cases h
      · split at h
        · cases h
        · next hmetrics htrades =>
          simp [*]
  · cases h

theorem entry_of_genome_eq {a b : Individual} (h : a.genome = b.genome)
    (hpasses : (Entry.mk b (evaluator.result setting.gates b)).Passes) :
    (Entry.mk a (evaluator.result setting.gates a)).Passes ∧
      setting.entryFitness ⟨a, evaluator.result setting.gates a⟩ =
        setting.entryFitness ⟨b, evaluator.result setting.gates b⟩ := by
  have hresult := @result_of_genome_eq evaluator a b h setting.gates
  constructor
  · unfold Entry.Passes at *
    simp only [hresult]
    exact hpasses
  · unfold Setting.entryFitness Setting.fitness
    simp only [hresult, h]
    rfl

/-! ## The elites carry the champion on -/

theorem champion_carried {p p' : Provider Rng}
    (hids : (p.population.map Individual.genomeId).Nodup)
    (hreport : p.report setting ((p.generationEntries setting evaluator).map Entry.result) = .ok p')
    (helites : PassesAmongElites setting (p.generationEntries setting evaluator)) {entry : Entry}
    (hentry : entry ∈ p.generationEntries setting evaluator) (hpasses : entry.Passes) :
    ∃ kept ∈ p'.generationEntries setting evaluator, kept.Passes ∧
      setting.entryFitness entry ≤ setting.entryFitness kept := by
  obtain ⟨elite, helite, helitePasses⟩ := helites ⟨entry, hentry, hpasses⟩
  have hsorted : ((p.generationEntries setting evaluator).insertionSort fun a b =>
      setting.entryFitness b ≤ setting.entryFitness a).Pairwise
        fun a b => setting.entryFitness b ≤ setting.entryFitness a := by
    have : Std.Total fun a b : Entry => setting.entryFitness b ≤ setting.entryFitness a :=
      ⟨fun a b => le_total _ _⟩
    have : IsTrans Entry fun a b => setting.entryFitness b ≤ setting.entryFitness a :=
      ⟨fun a b c hab hbc => hbc.trans hab⟩
    exact List.pairwise_insertionSort _ _
  obtain ⟨best, hbest, hbestPasses, hbestMax⟩ := exists_best_in_take hsorted helite helitePasses
  -- the same sort, of the pairs that the provider makes
  have hscored : sortByFitness (p.scores setting
      ((p.generationEntries setting evaluator).map Entry.result)).scored =
      ((p.generationEntries setting evaluator).insertionSort fun a b =>
        setting.entryFitness b ≤ setting.entryFitness a).map
          fun entry => (setting.entryFitness entry, entry.individual) := by
    have hpairs : ((p.generationEntries setting evaluator).insertionSort fun a b =>
        setting.entryFitness b ≤ setting.entryFitness a).map
          (fun entry => (setting.entryFitness entry, entry.individual)) =
        sortByFitness ((p.generationEntries setting evaluator).map
          fun entry => (setting.entryFitness entry, entry.individual)) := by
      apply List.map_insertionSort
      intro a _ b _
      exact Iff.rfl
    rw [hpairs, Provider.generationEntries, List.map_map, List.map_map]
    exact congrArg sortByFitness
      (scored_of_nodup hids fun individual => candidateId_result setting.gates individual)
  have hmem : (setting.entryFitness best, best.individual) ∈ (sortByFitness (p.scores setting
      ((p.generationEntries setting evaluator).map Entry.result)).scored).take
        setting.genetic.eliteCount := by
    rw [hscored, ← List.map_take]
    exact List.mem_map_of_mem hbest
  obtain ⟨clone, hclone, hgenome⟩ := mem_population_report hreport hmem
  have hbestEntry : best ∈ p.generationEntries setting evaluator :=
    (List.mem_insertionSort _).mp (List.mem_of_mem_take hbest)
  obtain ⟨individual, -, rfl⟩ := List.mem_map.mp hbestEntry
  obtain ⟨hclonePasses, hcloneFitness⟩ := entry_of_genome_eq hgenome hbestPasses
  refine ⟨_, List.mem_map_of_mem hclone, hclonePasses, ?_⟩
  rw [hcloneFitness]
  exact hbestMax entry ((List.mem_insertionSort _).mpr hentry) hpasses

theorem evolve_succ {n : ℕ} {p : Provider Rng} {generations : List (List Entry)}
    (h : evolve setting evaluator (n + 1) p = .ok generations) :
    ∃ p' later, p.report setting ((p.generationEntries setting evaluator).map Entry.result) =
        .ok p' ∧ evolve setting evaluator n p' = .ok later ∧
      generations = p.generationEntries setting evaluator :: later := by
  unfold evolve at h
  simp only at h
  split at h
  · cases h
  · next p' hreport =>
    split at h
    · cases h
    · next later hlater =>
      cases h
      exact ⟨p', later, hreport, hlater, rfl⟩

theorem evolve_entries {n : ℕ} {p : Provider Rng} {generations : List (List Entry)}
    (h : evolve setting evaluator n p = .ok generations) :
    ∀ entries ∈ generations, ∃ q : Provider Rng,
      entries = q.generationEntries setting evaluator := by
  induction n generalizing p generations with
  | zero =>
    cases h
    intro entries hentries
    cases hentries
  | succ n ih =>
    obtain ⟨p', later, -, hlater, rfl⟩ := evolve_succ h
    intro entries hentries
    obtain rfl | hentries := List.mem_cons.mp hentries
    · exact ⟨p, rfl⟩
    · exact ih hlater entries hentries

theorem champion_reaches_last {n : ℕ} {p : Provider Rng}
    (hids : (p.population.map Individual.genomeId).Nodup) {generations : List (List Entry)}
    (h : evolve setting evaluator n p = .ok generations)
    (helites : ∀ entries ∈ generations.dropLast, PassesAmongElites setting entries)
    {entries : List Entry} (hentries : entries ∈ generations) {entry : Entry}
    (hentry : entry ∈ entries) (hpasses : entry.Passes) :
    ∃ last ∈ generations.getLast?, ∃ kept ∈ last, kept.Passes ∧
      setting.entryFitness entry ≤ setting.entryFitness kept := by
  -- along the run; the generation of the entry is the first one, or one of the later ones
  induction n generalizing p generations entries entry with
  | zero =>
    cases h
    cases hentries
  | succ n ih =>
    obtain ⟨p', later, hreport, hlater, rfl⟩ := evolve_succ h
    cases later with
    | nil =>
      obtain rfl := List.mem_singleton.mp hentries
      exact ⟨_, rfl, entry, hentry, hpasses, le_rfl⟩
    | cons next rest =>
      have helites' : ∀ entries ∈ (next :: rest).dropLast, PassesAmongElites setting entries :=
        fun entries hmem => helites entries (List.mem_cons_of_mem _ hmem)
      have hids' := nodup_ids_report hreport
      rw [List.getLast?_cons_cons]
      obtain rfl | hentries := List.mem_cons.mp hentries
      · obtain ⟨kept, hkept, hkeptPasses, hle⟩ := champion_carried hids hreport
          (helites _ List.mem_cons_self) hentry hpasses
        have hnext : next = p'.generationEntries setting evaluator := by
          cases n with
          | zero => cases hlater
          | succ n =>
            obtain ⟨_, _, -, -, hcons⟩ := evolve_succ hlater
            exact (List.cons.inj hcons).1
        obtain ⟨last, hlast, best, hbest, hbestPasses, hle'⟩ :=
          ih hids' hlater helites' List.mem_cons_self (hnext ▸ hkept) hkeptPasses
        exact ⟨last, hlast, best, hbest, hbestPasses, hle.trans hle'⟩
      · exact ih hids' hlater helites' hentries hentry hpasses

/-! ## The ranking of the last generation -/

theorem passes_iff_isRanked {p : Provider Rng} {entry : Entry}
    (h : entry ∈ p.generationEntries setting evaluator) :
    decide entry.Passes = isRanked entry.result := by
  obtain ⟨individual, -, rfl⟩ := List.mem_map.mp h
  by_cases hpassed : (evaluator.result setting.gates individual).passedGates = true
  · obtain ⟨hstatus, hobjective⟩ := passedGates_result hpassed
    simp [Entry.Passes, isRanked, hpassed, hstatus, hobjective]
  · simp [Entry.Passes, isRanked, hpassed]

/-- Where some candidate of the last generation passed, the best one of the search is the first of
the most robust ones. -/
theorem bestOf_last {p : Provider Rng} {generations : List (List Entry)}
    (hlast : generations.getLast? = some (p.generationEntries setting evaluator))
    {entry : Entry} (hentry : entry ∈ p.generationEntries setting evaluator)
    (hpasses : entry.Passes) :
    ∃ before best after,
      (p.generationEntries setting evaluator).filter Entry.Passes = before ++ best :: after ∧
      (∀ other ∈ before, rankKey other.result < rankKey best.result) ∧
      (∀ other ∈ after, rankKey other.result ≤ rankKey best.result) ∧
      bestOf (generations.map (List.map Entry.result)) =
        some { best.result with rank := some 1 } := by
  have hfilter : ((p.generationEntries setting evaluator).map Entry.result).filter isRanked =
      ((p.generationEntries setting evaluator).filter Entry.Passes).map Entry.result := by
    rw [List.filter_map]
    congr 1
    apply List.filter_congr
    intro e he
    exact (passes_iff_isRanked he).symm
  have hsort : (((p.generationEntries setting evaluator).filter Entry.Passes).map
      Entry.result).insertionSort (fun a b => rankKey b ≤ rankKey a) =
      (((p.generationEntries setting evaluator).filter Entry.Passes).insertionSort
        fun a b => rankKey b.result ≤ rankKey a.result).map Entry.result := by
    symm
    apply List.map_insertionSort
    intro a _ b _
    exact Iff.rfl
  cases hsorted : ((p.generationEntries setting evaluator).filter Entry.Passes).insertionSort
      fun a b => rankKey b.result ≤ rankKey a.result with
  | nil =>
    have hmem : entry ∈ ((p.generationEntries setting evaluator).filter
        Entry.Passes).insertionSort fun a b => rankKey b.result ≤ rankKey a.result :=
      (List.mem_insertionSort _).mpr (List.mem_filter.mpr ⟨hentry, decide_eq_true hpasses⟩)
    rw [hsorted] at hmem
    cases hmem
  | cons best rest =>
    have hhead := @head_insertionSort Entry _ _ (fun e => rankKey e.result) _ _ _ hsorted
    obtain ⟨before, after, hsplit, hbefore, hafter⟩ := hhead
    refine ⟨before, best, after, hsplit, hbefore, hafter, ?_⟩
    have hlast' : (generations.map (List.map Entry.result)).getLast? =
        some ((p.generationEntries setting evaluator).map Entry.result) := by
      rw [List.getLast?_map, hlast, Option.map_some]
    unfold bestOf
    rw [hlast']
    simp only [rankResults, hfilter, hsort, hsorted]
    simp

/-- In every run of a search whose elites include a candidate that passed wherever there is one, and
whose last generation has its fittest candidate that passed for its most robust one, the best
candidate is as fit as every candidate that passed in any generation. -/
theorem search_keeps_champion (setting : Setting Rng) (evaluator : Evaluator) (rng : Rng)
    (initial : InitialPopulation setting.genetic) (n : ℕ) (generations : List (List Entry))
    (h : evolve setting evaluator n (Provider.init setting rng initial.individuals) =
      .ok generations)
    (helites : ∀ entries ∈ generations.dropLast, PassesAmongElites setting entries)
    (hleads : ∀ entries ∈ generations.getLast?, RobustnessLeads setting entries) :
    KeepsChampion setting generations := by
  rintro ⟨entries, hentries, entry, hentry, hpasses⟩
  have hids : ((Provider.init setting rng initial.individuals).population.map
      Individual.genomeId).Nodup := by
    show (initial.individuals.map Individual.genomeId).Nodup
    rw [initial.ids]
    exact nodup_initialGenomeIds _ _
  obtain ⟨last, hlast, kept, hkept, hkeptPasses, -⟩ :=
    champion_reaches_last hids h helites hentries hentry hpasses
  obtain ⟨q, rfl⟩ := evolve_entries h last (List.mem_of_getLast? hlast)
  obtain ⟨before, best, after, hsplit, hbefore, hafter, hbest⟩ :=
    bestOf_last hlast hkept hkeptPasses
  have hmem : best ∈ (q.generationEntries setting evaluator).filter Entry.Passes := by
    rw [hsplit]
    simp
  refine ⟨_, hlast, best, (List.mem_filter.mp hmem).1, hbest, ?_⟩
  intro entries' hentries' entry' hentry' hpasses'
  obtain ⟨last', hlast', kept', hkept', hkeptPasses', hle⟩ :=
    champion_reaches_last hids h helites hentries' hentry' hpasses'
  obtain rfl : last' = q.generationEntries setting evaluator :=
    Option.some.inj (hlast'.symm.trans hlast)
  exact hle.trans (hleads _ hlast before best after hsplit hbefore hafter kept' hkept' hkeptPasses')

/-! ## Searches with one strong genome -/

/-- A genome that is known by its mark. -/
def markedGenome (mark : String) : GenomeDsl.Genome where
  nodes := []
  entryLong := mark
  entryShort := ""
  exitLong := ""
  exitShort := ""

/-- Ten genomes, of which the first is strong. -/
def oneStrong : InitialPopulation smallSetting.genetic where
  individuals := (initialGenomeIds 0 10).mapIdx fun i genomeId =>
    { genomeId, genome := markedGenome (if i = 0 then "strong" else "weak") }
  hypotheses := 0
  ids := by decide +kernel

/-- All windows complete; the strong genome makes the given trades and has the higher objective. -/
def strongEvaluator (strongTrades : ℤ) : Evaluator where
  walkForward genome :=
    let strong := genome.entryLong = "strong"
    let metrics : OosMetrics := { totalTrades := if strong then strongTrades else 10 }
    .ok { windowCount := 4, completedWindows := 4, oosMetrics := some metrics,
          objective := if strong then 2 else 1 }

def strongGenerations (strongTrades : ℤ) : List (List Entry) :=
  (evolve smallSetting (strongEvaluator strongTrades) 2
    (Provider.init smallSetting () oneStrong.individuals)).toOption.getD []

/-- The strong genome passes and is the elite of the first generation. -/
theorem search_keeps_strong_champion : KeepsChampion smallSetting (strongGenerations 10) := by
  have hrun : evolve smallSetting (strongEvaluator 10) 2
      (Provider.init smallSetting () oneStrong.individuals) = .ok (strongGenerations 10) := by
    obtain ⟨generations, hgenerations⟩ := exists_ok_of_isSome
      (x := evolve smallSetting (strongEvaluator 10) 2
        (Provider.init smallSetting () oneStrong.individuals)) (by decide +kernel)
    rw [strongGenerations, hgenerations]
    rfl
  refine search_keeps_champion smallSetting (strongEvaluator 10) () oneStrong 2 _ hrun ?_ ?_
  · have helites : ∀ entries ∈ (strongGenerations 10).dropLast,
        ∃ entry ∈ (entries.insertionSort fun a b => smallSetting.entryFitness b ≤
          smallSetting.entryFitness a).take smallSetting.genetic.eliteCount, entry.Passes := by
      decide +kernel
    exact fun entries hentries _ => helites entries hentries
  · have hequal : ∀ entries ∈ (strongGenerations 10).getLast?.toList, ∀ entry ∈ entries,
        smallSetting.entryFitness entry = 2 := by
      decide +kernel
    intro entries hentries before entry after hsplit _ _ other hother _
    have hentry : entry ∈ entries.filter Entry.Passes := by
      rw [hsplit]
      simp
    have hlast : entries ∈ (strongGenerations 10).getLast?.toList := Option.mem_toList.mpr hentries
    rw [hequal entries hlast entry (List.mem_filter.mp hentry).1, hequal entries hlast other hother]

/-- With five trades the strong genome fails a gate and is the only elite all the same; no genome
that passed is left in the second generation. -/
theorem search_loses_champion :
    evolve smallSetting (strongEvaluator 5) 2 (Provider.init smallSetting () oneStrong.individuals) =
        .ok (strongGenerations 5) ∧
      ¬ KeepsChampion smallSetting (strongGenerations 5) := by
  constructor
  · obtain ⟨generations, hgenerations⟩ := exists_ok_of_isSome
      (x := evolve smallSetting (strongEvaluator 5) 2
        (Provider.init smallSetting () oneStrong.individuals)) (by decide +kernel)
    rw [strongGenerations, hgenerations]
    rfl
  · intro hkeeps
    obtain ⟨_, _, best, _, hbest, _⟩ := hkeeps (by decide +kernel)
    have hnone : (bestOf ((strongGenerations 5).map (List.map Entry.result))).isSome = false := by
      decide +kernel
    rw [hbest] at hnone
    cases hnone

end QBackend.GeneticSearch
