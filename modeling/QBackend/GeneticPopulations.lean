import Std.Data.String.ToNat
import QBackend.GeneticProvider

/-!
# The populations of a genetic search

The ids of the genomes: `build_initial_population` numbers its seeds and its random genomes, and
every later genome, elites included, takes the next number of the provider. No id is given twice in
a search, so a result is always that of its own genome. The elites are in the next population.
-/

namespace QBackend.GeneticSearch

variable {Rng : Type} {setting : Setting Rng}

/-! ## Ids -/

/-- The ids of `build_initial_population`, for the given number of admitted hypotheses. -/
def initialGenomeIds (hypotheses populationSize : ℕ) : List String :=
  let seedCount := populationSize / 2
  let hypothesisSeeds := min hypotheses seedCount
  (List.range hypothesisSeeds).map (fun i => "gen0-seed-hyp-" ++ toString i) ++
    (List.range (seedCount - hypothesisSeeds)).map (fun i => "gen0-seed-" ++ toString i) ++
    (List.range (populationSize - seedCount)).map (fun i => "gen0-rand-" ++ toString i)

/-- What `build_initial_population` draws: mutation, repair and exit policies keep the id. -/
structure InitialPopulation (genetic : GeneticSearchConfig) where
  individuals : List Individual
  hypotheses : ℕ
  ids : individuals.map Individual.genomeId = initialGenomeIds hypotheses genetic.populationSize

theorem append_toString_injective (text : String) :
    Function.Injective fun i : ℕ => text ++ toString i := by
  intro i j h
  have hrepr : toString i = toString j := by
    have := congrArg String.toList h
    simp only [String.toList_append, List.append_cancel_left_eq] at this
    exact String.toList_inj.mp this
  exact Nat.repr_injective hrepr

theorem isDigit_of_mem_toString {n : ℕ} {c : Char} (h : c ∈ (toString n).toList) : c.isDigit := by
  have hrepr : (toString n).toList = Nat.toDigits 10 n := by
    show (Nat.repr n).toList = _
    rw [Nat.repr, String.toList_ofList]
  rw [hrepr] at h
  exact Nat.isDigit_of_mem_toDigits (by decide) (by decide) h

/-- An id from its first hyphen on, where the numbers of the generations do not matter. -/
def idTail (id : String) : List Char := id.toList.dropWhile (· ≠ '-')

theorem idTail_newGenomeId (generation n : ℕ) :
    idTail (newGenomeId generation n) = '-' :: 'i' :: 'n' :: 'd' :: (toString n).toList := by
  have hlist : (newGenomeId generation n).toList =
      ("gen".toList ++ (toString generation).toList) ++
        ('-' :: 'i' :: 'n' :: 'd' :: (toString n).toList) := by
    simp [newGenomeId, String.toList_append]
  have hbefore : ∀ c ∈ "gen".toList ++ (toString generation).toList, decide (c ≠ '-') = true := by
    intro c hc
    obtain hc | hc := List.mem_append.mp hc
    · have hletter : c = 'g' ∨ c = 'e' ∨ c = 'n' := by simpa using hc
      obtain rfl | rfl | rfl := hletter
      · rfl
      · rfl
      · rfl
    · have hdigit := isDigit_of_mem_toString hc
      refine decide_eq_true fun h => ?_
      rw [h] at hdigit
      exact absurd hdigit (by decide)
  rw [idTail, hlist, List.dropWhile_append_of_pos hbefore]
  rfl

theorem idTail_seedHyp (n : ℕ) : idTail ("gen0-seed-hyp-" ++ toString n) =
    "-seed-hyp-".toList ++ (toString n).toList := by
  simp [idTail, String.toList_append]

theorem idTail_seed (n : ℕ) : idTail ("gen0-seed-" ++ toString n) =
    "-seed-".toList ++ (toString n).toList := by
  simp [idTail, String.toList_append]

theorem idTail_rand (n : ℕ) : idTail ("gen0-rand-" ++ toString n) =
    "-rand-".toList ++ (toString n).toList := by
  simp [idTail, String.toList_append]

/-- The number of a bred genome is in its id, whatever the generation. -/
theorem newGenomeId_number {g g' n n' : ℕ} (h : newGenomeId g n = newGenomeId g' n') : n = n' := by
  have htail := congrArg idTail h
  rw [idTail_newGenomeId, idTail_newGenomeId] at htail
  have hdigits : (toString n).toList = (toString n').toList := by simpa using htail
  exact Nat.repr_injective (String.toList_inj.mp hdigits)

theorem seed_ne_seedHyp (i j : ℕ) :
    ("gen0-seed-" ++ toString i) ≠ ("gen0-seed-hyp-" ++ toString j) := by
  intro h
  have htail := congrArg idTail h
  rw [idTail_seed, idTail_seedHyp] at htail
  have hdigits : (toString i).toList = 'h' :: 'y' :: 'p' :: '-' :: (toString j).toList := by
    simpa using htail
  have hdigit : 'h'.isDigit = true := isDigit_of_mem_toString (by rw [hdigits]; simp)
  exact absurd hdigit (by decide)

theorem not_mem_initialGenomeIds (hypotheses populationSize g n : ℕ) :
    newGenomeId g n ∉ initialGenomeIds hypotheses populationSize := by
  intro h
  simp only [initialGenomeIds, List.mem_append, List.mem_map] at h
  obtain (⟨i, -, hi⟩ | ⟨i, -, hi⟩) | ⟨i, -, hi⟩ := h
  · have htail := congrArg idTail hi
    rw [idTail_seedHyp, idTail_newGenomeId] at htail
    simp at htail
  · have htail := congrArg idTail hi
    rw [idTail_seed, idTail_newGenomeId] at htail
    simp at htail
  · have htail := congrArg idTail hi
    rw [idTail_rand, idTail_newGenomeId] at htail
    simp at htail

theorem nodup_initialGenomeIds (hypotheses populationSize : ℕ) :
    (initialGenomeIds hypotheses populationSize).Nodup := by
  have hnumbered : ∀ (text : String) (n : ℕ),
      ((List.range n).map fun i => text ++ toString i).Nodup := fun text n =>
    List.Nodup.map (append_toString_injective text) List.nodup_range
  simp only [initialGenomeIds]
  rw [List.nodup_append, List.nodup_append]
  refine ⟨⟨hnumbered _ _, hnumbered _ _, ?_⟩, hnumbered _ _, ?_⟩
  · intro a ha b hb
    obtain ⟨i, -, rfl⟩ := List.mem_map.mp ha
    obtain ⟨j, -, rfl⟩ := List.mem_map.mp hb
    exact (seed_ne_seedHyp j i).symm
  · intro a ha b hb heq
    obtain ⟨j, -, rfl⟩ := List.mem_map.mp hb
    have htail := congrArg idTail heq
    obtain ha | ha := List.mem_append.mp ha
    · obtain ⟨i, -, rfl⟩ := List.mem_map.mp ha
      rw [idTail_seedHyp, idTail_rand] at htail
      simp at htail
    · obtain ⟨i, -, rfl⟩ := List.mem_map.mp ha
      rw [idTail_seed, idTail_rand] at htail
      simp at htail

theorem newGenomeId_injective (generation : ℕ) : Function.Injective (newGenomeId generation) :=
  append_toString_injective ("gen" ++ toString generation ++ "-ind")

/-! ## The genome of a result -/

theorem genomeById_of_mem {population : List Individual}
    (hids : (population.map Individual.genomeId).Nodup) {individual : Individual}
    (hmem : individual ∈ population) :
    genomeById population individual.genomeId = some individual := by
  unfold genomeById
  cases hfind : population.reverse.find? (fun other => other.genomeId = individual.genomeId) with
  | none =>
    have := List.find?_eq_none.mp hfind individual (List.mem_reverse.mpr hmem)
    simp at this
  | some found =>
    have hfound : found ∈ population := List.mem_reverse.mp (List.mem_of_find?_eq_some hfind)
    have hid : found.genomeId = individual.genomeId := by simpa using List.find?_some hfind
    rw [List.inj_on_of_nodup_map hids hfound hmem hid]

theorem scored_foldl (population : List Individual) (parentFitnessById : List (String × ℚ))
    (results : List CandidateResult) (scores : Scores) :
    (results.foldl (score setting population parentFitnessById) scores).scored =
      scores.scored ++ results.filterMap fun result =>
        (genomeById population result.candidateId).map fun individual =>
          (setting.fitness result individual.genome, individual) := by
  induction results generalizing scores with
  | nil => simp
  | cons result results ih =>
    rw [List.foldl_cons, ih]
    cases hgenome : genomeById population result.candidateId with
    | none => simp [score, hgenome]
    | some individual => simp [score, hgenome]

theorem scored_of_nodup {p : Provider Rng} (hids : (p.population.map Individual.genomeId).Nodup)
    {result : Individual → CandidateResult}
    (hresult : ∀ individual, (result individual).candidateId = individual.genomeId) :
    (p.scores setting (p.population.map result)).scored =
      p.population.map fun individual =>
        (setting.fitness (result individual) individual.genome, individual) := by
  rw [Provider.scores, scored_foldl, List.nil_append, List.filterMap_map]
  have hall : ∀ individual ∈ p.population,
      ((fun r => (genomeById p.population r.candidateId).map fun found =>
        (setting.fitness r found.genome, found)) ∘ result) individual =
        some (setting.fitness (result individual) individual.genome, individual) := by
    intro individual hmem
    simp only [Function.comp_apply]
    rw [hresult, genomeById_of_mem hids hmem, Option.map_some]
  rw [List.filterMap_congr hall, List.filterMap_eq_map']

/-! ## Children -/

/-- One number is taken for a genome that is returned, and none where an error is raised. -/
def NumberedAt (generation : ℕ) (s : BreedState Rng) :
    Except BreedError Individual × BreedState Rng → Prop
  | (.ok child, s') => child.genomeId = newGenomeId generation s.nextIndividual ∧
      s'.nextIndividual = s.nextIndividual + 1
  | (.error _, s') => s'.nextIndividual = s.nextIndividual

def Numbered (generation : ℕ)
    (builder : BreedState Rng → Except BreedError Individual × BreedState Rng) : Prop :=
  ∀ s, NumberedAt generation s (builder s)

theorem NumberedAt.of_next_eq {generation : ℕ} {s s' : BreedState Rng}
    {out : Except BreedError Individual × BreedState Rng}
    (h : NumberedAt generation s' out) (hnext : s'.nextIndividual = s.nextIndividual) :
    NumberedAt generation s out := by
  unfold NumberedAt at *
  rwa [hnext] at h

theorem numbered_buildChild (p : Provider Rng) (weights : OperatorWeights) (mutationRate : ℚ)
    (a b : Individual) : Numbered p.generation (buildChild setting p weights mutationRate a b) := by
  intro s
  unfold buildChild
  simp only
  split
  · rfl
  · split
    · rfl
    · exact ⟨rfl, rfl⟩

theorem Numbered.drawValid {generation : ℕ}
    {builder : BreedState Rng → Except BreedError Individual × BreedState Rng}
    (hbuilder : Numbered generation builder) (attempts : ℕ) (last : BreedError) :
    Numbered generation (drawValid builder attempts last) := by
  induction attempts generalizing last with
  | zero =>
    intro s
    rfl
  | succ n ih =>
    intro s
    have hfirst := hbuilder s
    unfold GeneticSearch.drawValid
    split
    · next child s₁ h₁ =>
      rw [h₁] at hfirst
      exact hfirst
    · next message s₁ h₁ =>
      rw [h₁] at hfirst
      exact (ih (.genomeValidation message) s₁).of_next_eq hfirst
    · next message s₁ h₁ =>
      rw [h₁] at hfirst
      exact hfirst

theorem nextIndividual_tournamentSelect (reproducers : List (ℚ × Individual))
    (s : BreedState Rng) :
    (tournamentSelect setting reproducers s).2.nextIndividual = s.nextIndividual := by
  unfold tournamentSelect
  simp only
  split
  · rfl
  · rfl

theorem numbered_breedChild (p : Provider Rng) (weights : OperatorWeights) (mutationRate : ℚ)
    (reproducers : List (ℚ × Individual)) :
    Numbered p.generation (breedChild setting p weights mutationRate reproducers) := by
  have hvary : ∀ a b, Numbered p.generation (vary setting p weights mutationRate a b) :=
    fun a b => (numbered_buildChild p weights mutationRate a b).drawValid 64 _
  intro s
  unfold breedChild
  split
  · simp only
    split
    · rfl
    · next parent hparent => exact (hvary parent parent _).of_next_eq rfl
  · have h₁ := @nextIndividual_tournamentSelect Rng setting reproducers s
    split
    · next e s₁ hselect =>
      rw [hselect] at h₁
      exact h₁
    · next a s₁ hselect =>
      rw [hselect] at h₁
      have h₂ := @nextIndividual_tournamentSelect Rng setting reproducers s₁
      split
      · next e s₂ hselect' =>
        rw [hselect'] at h₂
        exact h₂.trans h₁
      · next b s₂ hselect' =>
        rw [hselect'] at h₂
        exact (hvary a b s₂).of_next_eq (h₂.trans h₁)

theorem ids_breedChildren {p : Provider Rng} {weights : OperatorWeights} {mutationRate : ℚ}
    {reproducers : List (ℚ × Individual)} {n : ℕ} {s s' : BreedState Rng}
    {children : List Individual}
    (h : breedChildren setting p weights mutationRate reproducers n s = .ok (children, s')) :
    children.map Individual.genomeId =
        (List.range' s.nextIndividual n).map (newGenomeId p.generation) ∧
      s'.nextIndividual = s.nextIndividual + n := by
  induction n generalizing s children with
  | zero =>
    cases h
    exact ⟨rfl, rfl⟩
  | succ n ih =>
    unfold breedChildren at h
    split at h
    · cases h
    · next child s₁ hchild =>
      have hnumbered := @numbered_breedChild Rng setting p weights mutationRate reproducers s
      rw [hchild] at hnumbered
      obtain ⟨hid, hnext⟩ := hnumbered
      split at h
      · cases h
      · next rest s₂ hrest =>
        cases h
        obtain ⟨hids, hlast⟩ := ih hrest
        rw [hnext] at hids hlast
        refine ⟨?_, by omega⟩
        rw [List.map_cons, hids, hid, List.range'_succ, List.map_cons]

theorem ids_elites (p : Provider Rng) (kept : List (ℚ × Individual)) (next : ℕ) :
    (elites p kept next).map Individual.genomeId =
      (List.range' next kept.length).map (newGenomeId p.generation) := by
  induction kept generalizing next with
  | nil => rfl
  | cons entry kept ih =>
    rw [elites, List.map_cons, ih, List.length_cons, List.range'_succ, List.map_cons]
    rfl

theorem length_elites (p : Provider Rng) (kept : List (ℚ × Individual)) (next : ℕ) :
    (elites p kept next).length = kept.length := by
  have := congrArg List.length (ids_elites p kept next)
  simpa using this

/-! ## The next population -/

/-- A report numbers the genomes of the next generation one after the other. -/
theorem ids_report {p p' : Provider Rng} {results : List CandidateResult}
    (h : p.report setting results = .ok p') :
    p'.population.map Individual.genomeId =
        (List.range' p.nextIndividual setting.genetic.populationSize).map
          (newGenomeId p.generation) ∧
      p'.nextIndividual = p.nextIndividual + setting.genetic.populationSize ∧
      p'.generation = p.generation + 1 := by
  unfold Provider.report at h
  simp only at h
  split at h
  · cases h
  · next children s hchildren =>
    obtain ⟨hids, hnext⟩ := ids_breedChildren hchildren
    have hlt := setting.genetic.elite_lt
    have hkept : (elites p ((sortByFitness (p.scores setting results).scored).take
        setting.genetic.eliteCount) p.nextIndividual).length ≤ setting.genetic.eliteCount := by
      rw [length_elites]
      exact List.length_take_le _ _
    cases h
    refine ⟨?_, by simp only [hnext]; omega, rfl⟩
    simp only
    rw [List.take_of_length_le, List.map_append, hids, ids_elites, ← List.map_append]
    · simp only [length_elites] at hkept ⊢
      rw [List.range'_append_1]
      congr 2
      omega
    · have hlen := congrArg List.length hids
      simp only [List.length_map, List.length_range'] at hlen
      rw [List.length_append, hlen]
      omega

theorem nodup_ids_report {p p' : Provider Rng} {results : List CandidateResult}
    (h : p.report setting results = .ok p') :
    (p'.population.map Individual.genomeId).Nodup := by
  rw [(ids_report h).1]
  exact List.Nodup.map (newGenomeId_injective p.generation) List.nodup_range'

theorem mem_population_report {p p' : Provider Rng} {results : List CandidateResult}
    (h : p.report setting results = .ok p') {fitness : ℚ} {individual : Individual}
    (helite : (fitness, individual) ∈ (sortByFitness (p.scores setting results).scored).take
      setting.genetic.eliteCount) :
    ∃ elite ∈ p'.population, elite.genome = individual.genome := by
  have hmem : ∀ (kept : List (ℚ × Individual)) (next : ℕ), (fitness, individual) ∈ kept →
      ∃ elite ∈ elites p kept next, elite.genome = individual.genome := by
    intro kept
    induction kept with
    | nil => intro _ h; cases h
    | cons entry kept ih =>
      intro next hentry
      obtain rfl | hentry := List.mem_cons.mp hentry
      · exact ⟨_, List.mem_cons_self, rfl⟩
      · obtain ⟨elite, helite, hgenome⟩ := ih (next + 1) hentry
        exact ⟨elite, List.mem_cons_of_mem _ helite, hgenome⟩
  unfold Provider.report at h
  simp only at h
  split at h
  · cases h
  · next children s hchildren =>
    obtain ⟨elite, helite', hgenome⟩ := hmem _ p.nextIndividual helite
    have hlt := setting.genetic.elite_lt
    have hkept : (elites p ((sortByFitness (p.scores setting results).scored).take
        setting.genetic.eliteCount) p.nextIndividual).length ≤ setting.genetic.eliteCount := by
      rw [length_elites]
      exact List.length_take_le _ _
    cases h
    refine ⟨elite, ?_, hgenome⟩
    rw [List.take_append]
    refine List.mem_append_left _ ?_
    rwa [List.take_of_length_le (by omega)]

end QBackend.GeneticSearch
