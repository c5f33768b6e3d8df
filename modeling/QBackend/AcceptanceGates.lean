import QBackend.ResearchAcceptance

/-!
# When the verdict fails closed

A verdict of readiness means that every row which counts has passed. A gate that adds no row where
its data is missing, or that takes a default which passes, is not among them: the gates on window
returns without window returns, the retention of a plateau without one, and the drawdown of a
lock-box whose metrics have none.
-/

namespace QBackend.Research

open JsonValues FallibleSteps

/-! ## The gates that a configuration switches on -/

/-- The metric is there, is a number, and has the property. -/
def Present (metrics : Dict ℚ) (key : String) (P : ℚ → Prop) : Prop :=
  ∃ value x, metrics.lookup key = some value ∧ value.asFloat = .ok x ∧ P x

structure ChampionGates (config : AcceptanceConfig) (record : SeedRunRecord) (metrics : Dict ℚ) :
    Prop where
  windows : config.minCompletedOosWindows ≤ record.completedWindows
  trades : 0 < config.minStitchedOosTrades →
    Present metrics "total_trades" fun x => (config.minStitchedOosTrades : ℤ) ≤ truncate x
  aggregate : config.requirePositiveAggregateOosReturn = true →
    Present metrics "total_return_pct" fun x => 0 < x
  median : config.requirePositiveMedianWindowReturn = true →
    record.windowReturns ≠ [] ∧ 0 < median record.windowReturns
  worst : ∀ bound, config.worstWindowReturnGate = some bound →
    record.windowReturns ≠ [] ∧ ∀ r ∈ record.windowReturns, bound ≤ r

/-- The seed has a return, and it is positive. -/
def seedPositive (seed : SeedRunRecord) : Bool :=
  match (seed.oosMetrics.getD []).lookup "total_return_pct" with
  | some value => (value.asFloat.toOption.map fun x => decide (0 < x)).getD false
  | none => false

structure SeedGate (config : AcceptanceConfig) (seeds : List SeedRunRecord) : Prop where
  enough : config.optimizationSeeds ≤ seeds.length
  completed : ∀ seed ∈ seeds.take config.optimizationSeeds, seed.status = .completed
  positive : config.minPositiveSeedOutcomes ≤
    (seeds.take config.optimizationSeeds).countP seedPositive

structure PlateauGates (config : AcceptanceConfig) (p : PlateauResult) : Prop where
  evaluated : p.neighborsEvaluated ≠ 0
  profitable : ∃ fraction, p.profitableFraction = some fraction ∧
    config.minPlateauProfitableFraction ≤ fraction
  retention : ∃ retention, p.scoreRetention = some retention ∧
    config.minPlateauScoreRetention ≤ retention

structure LockboxGates (config : AcceptanceConfig) (metrics : Dict ℚ) : Prop where
  trades : 0 < config.lockboxMinTrades →
    Present metrics "total_trades" fun x => (config.lockboxMinTrades : ℤ) ≤ truncate x
  drawdown : ∀ bound, config.lockboxMaxDrawdownPct = some bound →
    Present metrics "max_drawdown_pct" fun x => x ≤ bound
  positiveReturn : config.requirePositiveLockboxReturn = true →
    Present metrics "total_return_pct" fun x => 0 < x
  positiveSharpe : config.requirePositiveLockboxSharpe = true →
    Present metrics "sharpe_ratio" fun x => 0 < x

/-- Every gate that is switched on was evaluated on data that is there, and passed. -/
structure GatesPassed (config : AcceptanceConfig) (evidence : AcceptanceEvidence) : Prop where
  champion : ∃ record metrics, usableChampion evidence.champion = some (record, metrics) ∧
    ChampionGates config record metrics
  seeds : SeedGate config evidence.seeds
  dsr : ∃ value, evidence.dsrValue = some value ∧ config.minDsr ≤ value
  plateau : ∃ p, evidence.plateau = some p ∧ PlateauGates config p
  unblocked : evidence.lockboxBlocked = false
  evaluated : evidence.lockboxEvaluated = true
  lockbox : ∃ metrics, evidence.lockboxMetrics = some metrics ∧ LockboxGates config metrics

/-- The data of the gates that no row stands for when it is missing. -/
structure Covered (config : AcceptanceConfig) (evidence : AcceptanceEvidence) : Prop where
  windows : ∀ record ∈ evidence.champion, record.windowReturns = [] →
    config.requirePositiveMedianWindowReturn = false ∧ config.worstWindowReturnGate = none
  retention : ∀ p ∈ evidence.plateau, p.scoreRetention.isSome = true
  drawdown : ∀ metrics ∈ evidence.lockboxMetrics, config.lockboxMaxDrawdownPct.isSome = true →
    (metrics.lookup "max_drawdown_pct").isSome = true

/-! ## Rows that have passed -/

section Rows

variable {rows rows' : List AcceptanceCriterion} {row : AcceptanceCriterion}

/-- Every row that counts has passed. -/
def Cleared (rows : List AcceptanceCriterion) : Prop :=
  ∀ c ∈ rows, c.name ∉ evidenceOnlyCriteria → c.status = .passed

theorem hasStatus_eq_false {status : CriterionStatus} (h : hasStatus status rows = false)
    (hrow : row ∈ rows) (hname : row.name ∉ evidenceOnlyCriteria) : row.status ≠ status := by
  intro hstatus
  have hnone := List.any_eq_false.mp h row hrow
  simp [hname, hstatus] at hnone

theorem cleared_of_ready (h : resolveVerdict rows = .readyForPaper) : Cleared rows := by
  intro row hrow hname
  have hunavailable : hasStatus .unavailable rows = false := by
    cases hcase : hasStatus .unavailable rows with
    | false => rfl
    | true => simp [resolveVerdict, hcase] at h
  have hfailed : hasStatus .failed rows = false := by
    cases hcase : hasStatus .failed rows with
    | false => rfl
    | true => simp [resolveVerdict, hunavailable, hcase] at h
  cases hstatus : row.status with
  | passed => rfl
  | failed => exact absurd hstatus (hasStatus_eq_false hfailed hrow hname)
  | unavailable => exact absurd hstatus (hasStatus_eq_false hunavailable hrow hname)

theorem cleared_append : Cleared (rows ++ rows') ↔ Cleared rows ∧ Cleared rows' := by
  simp only [Cleared, List.mem_append]
  constructor
  · intro h
    exact ⟨fun c hc => h c (.inl hc), fun c hc => h c (.inr hc)⟩
  · rintro ⟨h, h'⟩ c (hc | hc)
    · exact h c hc
    · exact h' c hc

theorem cleared_cons : Cleared (row :: rows) ↔ Cleared [row] ∧ Cleared rows :=
  @cleared_append [row] rows

theorem cleared_gate {name : CriterionName} {ok : Bool} {observed threshold : Json ℚ}
    {reason : String} (hname : name ∉ evidenceOnlyCriteria) :
    Cleared [gate name ok observed threshold reason] ↔ ok = true := by
  cases ok with
  | false => simp [Cleared, gate, hname]
  | true => simp [Cleared, gate]

theorem not_cleared_unavailable {name : CriterionName} {observed threshold : Json ℚ}
    {reason : String} (hname : name ∉ evidenceOnlyCriteria) :
    ¬ Cleared [unavailable name observed threshold reason] := by
  simp [Cleared, unavailable, hname]

end Rows

/-! ## Numbers that are there -/

section Metrics

variable {metrics : Dict ℚ} {key : String}

/-- A number above zero is not the default of a missing metric. -/
theorem present_of_floatMetric {x : ℚ} (h : floatMetric metrics key = .ok x) {P : ℚ → Prop}
    (hP : P x) (hzero : ¬ P 0) : Present metrics key P := by
  unfold floatMetric at h
  split at h
  next value hvalue => exact ⟨value, x, hvalue, h, hP⟩
  next =>
    rw [← Except.ok.inj h] at hP
    exact absurd hP hzero

theorem present_of_isSome {x : ℚ} (h : floatMetric metrics key = .ok x)
    (hsome : (metrics.lookup key).isSome = true) {P : ℚ → Prop} (hP : P x) :
    Present metrics key P := by
  unfold floatMetric at h
  split at h
  next value hvalue => exact ⟨value, x, hvalue, h, hP⟩
  next hnone => simp [hnone] at hsome

theorem present_of_intMetric {n : ℤ} {bound : ℕ} (h : intMetric metrics key = .ok n)
    (hbound : (bound : ℤ) ≤ n) (hpos : 0 < bound) :
    Present metrics key fun x => (bound : ℤ) ≤ truncate x := by
  unfold intMetric at h
  split at h
  next value hvalue =>
    cases hfloat : value.asFloat with
    | error e => simp [hfloat, Except.map] at h
    | ok x =>
      refine ⟨value, x, hvalue, hfloat, ?_⟩
      have hn : truncate x = n := by simpa [hfloat, Except.map] using h
      simpa only [hn] using hbound
  next =>
    have hn : (0 : ℤ) = n := Except.ok.inj h
    omega

theorem least_le (x : ℚ) (xs : List ℚ) : ∀ r ∈ x :: xs, least x xs ≤ r := by
  induction xs generalizing x with
  | nil =>
    intro r hr
    rw [List.mem_singleton.mp hr]
    exact le_refl x
  | cons y ys ih =>
    have hstart : least (min x y) ys ≤ min x y := ih (min x y) _ (by simp)
    intro r hr
    show least (min x y) ys ≤ r
    rcases List.mem_cons.mp hr with rfl | hr
    · exact hstart.trans (min_le_left _ _)
    · rcases List.mem_cons.mp hr with rfl | hr
      · exact hstart.trans (min_le_right _ _)
      · exact ih (min x y) r (by simp [hr])

end Metrics

/-! ## What cleared rows say -/

section Sections

variable {config : AcceptanceConfig} {evidence : AcceptanceEvidence}
  {rows : List AcceptanceCriterion}

theorem median_of_cleared {windowReturns : List ℚ}
    (h : Cleared (medianCriterion config windowReturns))
    (hon : config.requirePositiveMedianWindowReturn = true) (hne : windowReturns ≠ []) :
    0 < median windowReturns := by
  have hcondition : (!windowReturns.isEmpty && config.requirePositiveMedianWindowReturn) = true := by
    simp [hon, hne]
  rw [medianCriterion, if_pos hcondition, cleared_gate (by decide)] at h
  exact of_decide_eq_true h

theorem worst_of_cleared {windowReturns : List ℚ} {bound : ℚ}
    (h : Cleared (worstCriterion config windowReturns))
    (hon : config.worstWindowReturnGate = some bound) : ∀ r ∈ windowReturns, bound ≤ r := by
  cases windowReturns with
  | nil => simp
  | cons x xs =>
    simp only [worstCriterion, hon] at h
    rw [cleared_gate (by decide)] at h
    exact fun r hr => (of_decide_eq_true h).trans (least_le x xs r hr)

theorem usableChampion_mem {champion : Option SeedRunRecord} {record : SeedRunRecord}
    {metrics : Dict ℚ} (h : usableChampion champion = some (record, metrics)) :
    record ∈ champion := by
  cases champion with
  | none => cases h
  | some r =>
    have hsame : r = record := by
      unfold usableChampion at h
      dsimp only at h
      split at h
      · exact (Prod.mk.inj (Option.some.inj h)).1
      · cases h
    rw [hsame]
    rfl

theorem champion_of_cleared (hrows : championCriteria config evidence.champion = .ok rows)
    (h : Cleared rows)
    (hcovered : ∀ record ∈ evidence.champion, record.windowReturns = [] →
      config.requirePositiveMedianWindowReturn = false ∧ config.worstWindowReturnGate = none) :
    ∃ record metrics, usableChampion evidence.champion = some (record, metrics) ∧
      ChampionGates config record metrics := by
  unfold championCriteria at hrows
  split at hrows
  next =>
    rw [← Except.ok.inj hrows] at h
    exact absurd h (not_cleared_unavailable (by decide))
  next record metrics husable =>
    obtain ⟨oosTrades, htrades, hrows⟩ := bind_eq_ok.mp hrows
    obtain ⟨aggregateReturn, haggregate, hrows⟩ := bind_eq_ok.mp hrows
    rw [← pure_eq_ok.mp hrows] at h
    obtain ⟨hwindows, h⟩ := cleared_cons.mp h
    obtain ⟨htradesOk, h⟩ := cleared_cons.mp h
    rw [cleared_gate (by decide)] at hwindows htradesOk
    rw [cleared_append, cleared_append] at h
    obtain ⟨⟨haggregateOk, hmedian⟩, hworst⟩ := h
    have hreturns := hcovered record (usableChampion_mem husable)
    refine ⟨record, metrics, husable, of_decide_eq_true hwindows, fun hpos => ?_, fun hon => ?_,
      fun hon => ?_, fun bound hon => ?_⟩
    · exact present_of_intMetric htrades (of_decide_eq_true htradesOk) hpos
    · rw [if_pos hon, cleared_gate (by decide)] at haggregateOk
      exact present_of_floatMetric haggregate (of_decide_eq_true haggregateOk) (lt_irrefl 0)
    · have hne : record.windowReturns ≠ [] := by
        intro hnil
        rw [(hreturns hnil).1] at hon
        cases hon
      exact ⟨hne, median_of_cleared hmedian hon hne⟩
    · have hne : record.windowReturns ≠ [] := by
        intro hnil
        rw [(hreturns hnil).2] at hon
        cases hon
      exact ⟨hne, worst_of_cleared hworst hon⟩

theorem seedPositive_of_seedReturn {seed : SeedRunRecord} {x : ℚ} (h : seedReturn seed = .ok x)
    (hx : 0 < x) : seedPositive seed = true := by
  obtain ⟨value, y, hvalue, hfloat, hy⟩ := present_of_floatMetric h hx (lt_irrefl 0)
  simp [seedPositive, hvalue, hfloat, Except.toOption, hy]

theorem countP_seedPositive {seeds : List SeedRunRecord} {returns : List ℚ}
    (h : List.Forall₂ (fun seed x => seedReturn seed = .ok x) seeds returns) :
    returns.countP (fun x => decide (0 < x)) ≤ seeds.countP seedPositive := by
  induction h with
  | nil => exact le_refl 0
  | @cons seed x seeds returns hseed _ ih =>
    rw [List.countP_cons, List.countP_cons]
    by_cases hx : 0 < x
    · simp only [hx, decide_true, if_true, seedPositive_of_seedReturn hseed hx]
      omega
    · simp only [hx, decide_false, Bool.false_eq_true, if_false]
      omega

theorem seeds_of_cleared {row : AcceptanceCriterion}
    (hrow : seedCriterion config evidence.seeds = .ok row) (h : Cleared [row]) :
    SeedGate config evidence.seeds := by
  simp only [seedCriterion] at hrow
  split at hrow
  next =>
    rw [← Except.ok.inj hrow] at h
    exact absurd h (not_cleared_unavailable (by decide))
  next hlength =>
    split at hrow
    next =>
      rw [← Except.ok.inj hrow] at h
      exact absurd h (not_cleared_unavailable (by decide))
    next hincomplete =>
      obtain ⟨returns, hreturns, hrow⟩ := bind_eq_ok.mp hrow
      rw [← pure_eq_ok.mp hrow, cleared_gate (by decide)] at h
      refine ⟨not_lt.mp hlength, fun seed hseed => ?_, ?_⟩
      · have hall : ∀ s ∈ evidence.seeds.take config.optimizationSeeds, s.completed = true := by
          simpa using hincomplete
        exact of_decide_eq_true (hall seed hseed)
      · exact (of_decide_eq_true h).trans (countP_seedPositive (forall₂_of_mapM hreturns))

theorem dsr_of_cleared (h : Cleared [dsrCriterion config evidence.dsrValue]) :
    ∃ value, evidence.dsrValue = some value ∧ config.minDsr ≤ value := by
  cases hvalue : evidence.dsrValue with
  | none =>
    rw [hvalue] at h
    exact absurd h (not_cleared_unavailable (by decide))
  | some value =>
    rw [hvalue, dsrCriterion, cleared_gate (by decide)] at h
    exact ⟨value, rfl, of_decide_eq_true h⟩

theorem plateau_of_cleared (h : Cleared [plateauCriterion config evidence.plateau])
    (hcovered : ∀ p ∈ evidence.plateau, p.scoreRetention.isSome = true) :
    ∃ p, evidence.plateau = some p ∧ PlateauGates config p := by
  cases hplateau : evidence.plateau with
  | none =>
    rw [hplateau] at h
    exact absurd h (not_cleared_unavailable (by decide))
  | some p =>
    rw [hplateau] at h
    simp only [plateauCriterion] at h
    split at h
    next => exact absurd h (not_cleared_unavailable (by decide))
    next hevaluated =>
      rw [cleared_gate (by decide), Bool.and_eq_true] at h
      obtain ⟨retention, hretention⟩ := Option.isSome_iff_exists.mp (hcovered p (by simp [hplateau]))
      refine ⟨p, rfl, hevaluated, ?_, retention, hretention, ?_⟩
      · cases hfraction : p.profitableFraction with
        | none => simp [hfraction] at h
        | some fraction =>
          simp only [hfraction] at h
          exact ⟨fraction, rfl, of_decide_eq_true h.1⟩
      · simp only [hretention] at h
        exact of_decide_eq_true h.2

theorem present_of_positiveRows {on : Bool} {name : CriterionName} {key reason : String}
    {metrics : Dict ℚ} (hname : name ∉ evidenceOnlyCriteria)
    (hrows : positiveRows on name key reason metrics = .ok rows) (h : Cleared rows)
    (hon : on = true) : Present metrics key fun x => 0 < x := by
  rw [positiveRows, if_pos hon] at hrows
  obtain ⟨value, hvalue, hrows⟩ := bind_eq_ok.mp hrows
  rw [← pure_eq_ok.mp hrows, cleared_gate hname] at h
  exact present_of_floatMetric hvalue (of_decide_eq_true h) (lt_irrefl 0)

theorem lockboxRows_of_cleared {metrics : Dict ℚ} (hrows : lockboxRows config metrics = .ok rows)
    (h : Cleared rows)
    (hcovered : config.lockboxMaxDrawdownPct.isSome = true →
      (metrics.lookup "max_drawdown_pct").isSome = true) : LockboxGates config metrics := by
  unfold lockboxRows at hrows
  obtain ⟨trades, htrades, hrows⟩ := bind_eq_ok.mp hrows
  obtain ⟨drawdown, hdrawdown, hrows⟩ := bind_eq_ok.mp hrows
  obtain ⟨lockboxReturn, hreturn, hrows⟩ := bind_eq_ok.mp hrows
  obtain ⟨sharpe, hsharpe, hrows⟩ := bind_eq_ok.mp hrows
  rw [← pure_eq_ok.mp hrows] at h
  obtain ⟨htradesOk, h⟩ := cleared_cons.mp h
  rw [cleared_gate (by decide)] at htradesOk
  rw [cleared_append, cleared_append] at h
  obtain ⟨⟨hdrawdownOk, hreturnOk⟩, hsharpeOk⟩ := h
  refine ⟨fun hpos => ?_, fun bound hon => ?_,
    present_of_positiveRows (by decide) hreturn hreturnOk,
    present_of_positiveRows (by decide) hsharpe hsharpeOk⟩
  · exact present_of_intMetric htrades (of_decide_eq_true htradesOk) hpos
  · simp only [drawdownRows, hon] at hdrawdown
    obtain ⟨value, hvalue, hdrawdown⟩ := bind_eq_ok.mp hdrawdown
    rw [← pure_eq_ok.mp hdrawdown, cleared_gate (by decide)] at hdrawdownOk
    exact present_of_isSome hvalue (hcovered (by simp [hon])) (of_decide_eq_true hdrawdownOk)

theorem lockbox_of_cleared (hrows : lockboxCriteria config evidence = .ok rows) (h : Cleared rows)
    (hcovered : ∀ metrics ∈ evidence.lockboxMetrics, config.lockboxMaxDrawdownPct.isSome = true →
      (metrics.lookup "max_drawdown_pct").isSome = true) :
    evidence.lockboxBlocked = false ∧ evidence.lockboxEvaluated = true ∧
      ∃ metrics, evidence.lockboxMetrics = some metrics ∧ LockboxGates config metrics := by
  unfold lockboxCriteria at hrows
  split at hrows
  next =>
    rw [← Except.ok.inj hrows] at h
    exact absurd h (not_cleared_unavailable (by decide))
  next hblocked =>
    split at hrows
    next =>
      rw [← Except.ok.inj hrows] at h
      exact absurd h (not_cleared_unavailable (by decide))
    next hevaluated =>
      split at hrows
      next =>
        rw [← Except.ok.inj hrows] at h
        exact absurd h (not_cleared_unavailable (by decide))
      next metrics hmetrics =>
        exact ⟨by simpa using hblocked, by simpa using hevaluated, metrics, hmetrics,
          lockboxRows_of_cleared hrows h (hcovered metrics hmetrics)⟩

theorem gatesPassed_of_ready (hready : acceptanceVerdict config evidence = .ok .readyForPaper)
    (hcovered : Covered config evidence) : GatesPassed config evidence := by
  unfold acceptanceVerdict at hready
  cases hbuild : buildAcceptanceCriteria config evidence with
  | error e => simp [hbuild, Except.map] at hready
  | ok rows =>
    rw [hbuild] at hready
    have hcleared := cleared_of_ready (Except.ok.inj hready)
    unfold buildAcceptanceCriteria at hbuild
    obtain ⟨championRows, hchampion, hbuild⟩ := bind_eq_ok.mp hbuild
    obtain ⟨seedRow, hseeds, hbuild⟩ := bind_eq_ok.mp hbuild
    obtain ⟨lockboxRows, hlockbox, hbuild⟩ := bind_eq_ok.mp hbuild
    rw [← pure_eq_ok.mp hbuild] at hcleared
    simp only [cleared_append] at hcleared
    obtain ⟨⟨⟨⟨hchampionOk, hmiddle⟩, hlockboxOk⟩, -⟩, -⟩ := hcleared
    obtain ⟨hseedsOk, hmiddle⟩ := cleared_cons.mp hmiddle
    obtain ⟨hdsrOk, hplateauOk⟩ := cleared_cons.mp hmiddle
    obtain ⟨hblocked, hevaluated, hmetrics⟩ :=
      lockbox_of_cleared hlockbox hlockboxOk hcovered.drawdown
    exact ⟨champion_of_cleared hchampion hchampionOk hcovered.windows,
      seeds_of_cleared hseeds hseedsOk, dsr_of_cleared hdsrOk,
      plateau_of_cleared hplateauOk hcovered.retention, hblocked, hevaluated, hmetrics⟩

theorem covered_of_gatesPassed (h : GatesPassed config evidence) : Covered config evidence := by
  refine ⟨fun record hrecord hnil => ?_, fun p hp => ?_, fun metrics hmetrics hon => ?_⟩
  · obtain ⟨champion, metrics, husable, hgates⟩ := h.champion
    have hsame : champion = record := Option.mem_unique (usableChampion_mem husable) hrecord
    subst hsame
    refine ⟨?_, ?_⟩
    · by_contra hon
      exact (hgates.median (by simpa using hon)).1 hnil
    · by_contra hon
      obtain ⟨bound, hbound⟩ := Option.ne_none_iff_exists'.mp hon
      exact (hgates.worst bound hbound).1 hnil
  · obtain ⟨p', hp', hgates⟩ := h.plateau
    obtain ⟨retention, hretention, -⟩ := hgates.retention
    have hsame : p = p' := Option.mem_unique hp hp'
    simp [hsame, hretention]
  · obtain ⟨metrics', hmetrics', hgates⟩ := h.lockbox
    have hsame : metrics = metrics' := Option.mem_unique hmetrics hmetrics'
    obtain ⟨bound, hbound⟩ := Option.isSome_iff_exists.mp hon
    obtain ⟨value, x, hvalue, -⟩ := hgates.drawdown bound hbound
    simp [hsame, hvalue]

end Sections

/-- On evidence that is found ready for paper, every gate that is switched on has passed on data
that is there exactly when no gate lacks the data whose absence adds no row. -/
theorem ready_gates_iff_covered (config : AcceptanceConfig) (evidence : AcceptanceEvidence)
    (hready : acceptanceVerdict config evidence = .ok .readyForPaper) :
    GatesPassed config evidence ↔ Covered config evidence :=
  ⟨covered_of_gatesPassed, gatesPassed_of_ready hready⟩

/-- Metrics of a seed or a lock-box that earn something. -/
def earningMetrics : Dict ℚ :=
  [("total_trades", .int 40), ("total_return_pct", .float (1 / 10)), ("sharpe_ratio", .float 2),
    ("max_drawdown_pct", .float (1 / 20))]

def earningSeed : SeedRunRecord :=
  { status := .completed, oosMetrics := some earningMetrics, windowReturns := [1 / 100, 1 / 50],
    completedWindows := 6 }

/-- A neighborhood of one profitable neighbor around a champion with some objective. -/
def earningEvidence (championObjective : ℚ) : AcceptanceEvidence where
  champion := some earningSeed
  seeds := List.replicate 5 earningSeed
  plateau := some (evaluatePlateauResult (some championObjective) [⟨some 1, true⟩])
  dsrValue := some (97 / 100)
  lockboxMetrics := some earningMetrics
  lockboxEvaluated := true
  lockboxBlocked := false

/-- The objective of the champion is not positive, so no retention is computed, and the default
configuration finds the evidence ready for paper. -/
theorem ready_without_retention :
    acceptanceVerdict {} (earningEvidence 0) = .ok .readyForPaper ∧
      ¬ GatesPassed {} (earningEvidence 0) := by
  refine ⟨eq_ok_of_toOption (by decide +kernel), fun h => ?_⟩
  obtain ⟨p, hp, hgates⟩ := h.plateau
  obtain ⟨retention, hretention, -⟩ := hgates.retention
  have hnone : (earningEvidence 0).plateau.bind PlateauResult.scoreRetention = none := by
    decide +kernel
  rw [hp, Option.bind_some, hretention] at hnone
  cases hnone

theorem ready_gates_iff_covered_earning :
    acceptanceVerdict {} (earningEvidence 1) = .ok .readyForPaper ∧
      GatesPassed {} (earningEvidence 1) := by
  have hready : acceptanceVerdict {} (earningEvidence 1) = .ok .readyForPaper :=
    eq_ok_of_toOption (by decide +kernel)
  refine ⟨hready, (ready_gates_iff_covered _ _ hready).mpr ⟨?_, ?_, ?_⟩⟩
  · intro record hrecord hnil
    rw [← Option.some.inj hrecord] at hnil
    cases hnil
  · intro p hp
    rw [← Option.some.inj hp]
    decide +kernel
  · intro metrics _ hon
    cases hon

end QBackend.Research
