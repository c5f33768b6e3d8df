import QBackend.TrialEvaluation
import QBackend.ResearchAcceptance

/-!
# The back-test of the lock-box and those of the out-of-sample windows

The run configuration that `WalkForwardRunner._build_backtest_config` gives to the runner of a
candidate, which merges the fixed parameters of the candidate in, and the one that
`evaluate_lockbox` assembles from the parameters of the champion's best window.
-/

namespace QBackend.Optimization

open Execution JsonValues Research

/-! ## Profiles -/

structure SessionRules where
  dayTrade : Bool := false
  dayTradeStartTime : String := "09:00"
  dayTradeEndTime : String := "17:00"
  dayTradeCloseTime : String := "18:00"
  deriving DecidableEq, Repr

structure ResearchProfile where
  profileId : String
  symbol : String
  timeframe : String
  sessionRules : SessionRules

def researchProfiles : List ResearchProfile :=
  [ ⟨"ccm_h1_swing", "CCM$", "H1", ⟨false, "09:00", "17:55", "18:00"⟩⟩,
    ⟨"win_h1_swing", "WIN$", "H1", ⟨false, "09:00", "17:55", "18:00"⟩⟩,
    ⟨"wdo_m15_day", "WDO$", "M15", ⟨true, "09:00", "17:55", "18:00"⟩⟩ ]

/-- Whether the second text occurs in the first. -/
def containsInfix : List Char → List Char → Bool
  | [], infixed => infixed.isEmpty
  | c :: text, infixed => infixed.isPrefixOf (c :: text) || containsInfix text infixed

-- 'ı' is the one character outside ASCII whose upper case can occur in the name of a profile.
def upper (text : String) : List Char :=
  text.toList.map fun c => if c = 'ı' then 'I' else c.toUpper

/-- The first profile whose symbol occurs in the symbol and whose timeframe is the timeframe. -/
def matchProfile (symbol timeframe : String) : Option ResearchProfile :=
  researchProfiles.find? fun profile =>
    containsInfix (upper symbol) (upper profile.symbol) && upper profile.timeframe = upper timeframe

/-! ## Configurations -/

/-- The fields of a back-test that the search configures, besides its range. -/
structure SearchBacktest where
  symbol : String
  timeframe : String
  initialCapital : ℚ
  pointValue : ℚ
  strategy : String
  entries : Option (Json ℚ) := none
  entryManager : Json ℚ := .obj []
  exitParams : Dict ℚ := []
  costs : Option (ℚ × ℚ) := none
  parallelMode : Backtesting.ParallelMode := .sequential
  sessionRules : SessionRules := ⟨false, "09:00", "16:00", "17:00"⟩
  engine : String := "candle"
  displayTimeframe : String := "M1"
  tickFlags : Option String := none

structure SearchCandidate where
  candidateId : String
  strategy : String
  fixedParams : Dict ℚ

/-- The parameters of the best trial of a window, as its result stores them. -/
structure WindowParams where
  strategyParams : Dict ℚ
  nodup_keys : (strategyParams.map Prod.fst).Nodup
  riskParams : Dict ℚ
  managerParams : Dict ℚ

/-- The configuration that reaches the runner, besides its range. -/
structure RunSettings (Sizing : Type) where
  symbol : String
  timeframe : String
  initialCapital : ℚ
  pointValue : ℚ
  strategy : String
  strategyParams : Dict ℚ
  positionSizing : Option Sizing
  entries : Option (Json ℚ) := none
  entryManager : Option (Json ℚ) := none
  managerParams : Option (Dict ℚ) := none
  exitParams : Option (Dict ℚ) := none
  fixedParams : Option (Dict ℚ) := none
  warmupBars : ℤ := 0
  costs : Option (ℚ × ℚ) := none
  parallelMode : Backtesting.ParallelMode := .sequential
  sessionRules : SessionRules := ⟨false, "09:00", "16:00", "17:00"⟩
  engine : String := "candle"
  displayTimeframe : String := "M1"
  tickFlags : Option String := none

/-! ## Warm-up -/

def warmupParamKeys : List String := ["period", "lookback", "window"]

/-- `key.split("__", 1)[-1].lower()` -/
def afterPrefix : List Char → List Char
  | '_' :: '_' :: rest => rest
  | _ :: rest => afterPrefix rest
  | [] => []

-- The Kelvin sign is the one character outside ASCII whose lower case can occur in a fragment.
def baseName (key : String) : List Char :=
  let chars := key.toList
  let rest := if containsInfix chars "__".toList then afterPrefix chars else chars
  rest.map fun c => if c = '\u212A' then 'k' else c.toLower

/-- The length that a parameter asks for, where its name is that of a length and it is a number. -/
def lookbackOf (param : String × Json ℚ) : Option ℤ :=
  if warmupParamKeys.any fun fragment => containsInfix (baseName param.1) fragment.toList then
    match param.2 with
    | .int n => some n
    | .float x => some (truncate x)
    | .null | .bool _ | .str _ | .list _ | .obj _ => none
  else none

def warmupBarsForParams (strategyParams : Dict ℚ) : ℤ :=
  match strategyParams.filterMap lookbackOf with
  | [] => 0
  | n :: ns => ns.foldl max n * 3

/-! ## The two assemblies -/

section Assemblies

variable {Sizing : Type} (buildPositionSizingConfig : Dict ℚ → Option Sizing)

/-- `_build_optimization_config`: the rules of a matching profile replace those of the search. -/
def profileRules (backtest : SearchBacktest) : SessionRules :=
  match matchProfile backtest.symbol backtest.timeframe with
  | some profile => profile.sessionRules
  | none => backtest.sessionRules

def metadataFixedParamKeys : List String := ["_exit_preset_id"]

def strategyFixedParams (fixedParams : Dict ℚ) : Dict ℚ :=
  fixedParams.filter fun field => !metadataFixedParamKeys.contains field.1

/-- The out-of-sample run of a window, as it leaves the runner that merges the fixed parameters. -/
def oosRunSettings (backtest : SearchBacktest) (candidate : SearchCandidate)
    (params : WindowParams) : RunSettings Sizing where
  symbol := backtest.symbol
  timeframe := backtest.timeframe
  initialCapital := backtest.initialCapital
  pointValue := backtest.pointValue
  strategy := candidate.strategy
  strategyParams := mergeFields (strategyFixedParams candidate.fixedParams) params.strategyParams
  positionSizing := buildPositionSizingConfig params.riskParams
  entries := backtest.entries
  entryManager := some backtest.entryManager
  managerParams := some params.managerParams
  exitParams := some backtest.exitParams
  fixedParams := some []
  warmupBars := warmupBarsForParams params.strategyParams
  costs := backtest.costs
  parallelMode := backtest.parallelMode
  sessionRules := profileRules backtest
  engine := backtest.engine
  displayTimeframe := backtest.displayTimeframe
  tickFlags := backtest.tickFlags

/-- The parameters of the champion with the genome of its candidate put in. -/
def lockboxParams (candidate : SearchCandidate) (params : WindowParams) : Dict ℚ :=
  match candidate.fixedParams.lookup "genome" with
  | some genome => setField params.strategyParams "genome" genome
  | none => params.strategyParams

/-- The run of `evaluate_lockbox`. -/
def lockboxRunSettings (backtest : SearchBacktest) (candidate : SearchCandidate)
    (params : WindowParams) : RunSettings Sizing where
  symbol := backtest.symbol
  timeframe := backtest.timeframe
  initialCapital := backtest.initialCapital
  pointValue := backtest.pointValue
  strategy := candidate.strategy
  strategyParams := lockboxParams candidate params
  positionSizing := buildPositionSizingConfig params.riskParams
  costs := backtest.costs
  parallelMode := backtest.parallelMode
  sessionRules := backtest.sessionRules
  engine := backtest.engine
  displayTimeframe := backtest.displayTimeframe
  tickFlags := backtest.tickFlags

/-! ## The lock-box tests what was selected -/

/-- Two runs test the same strategy in the same way, up to their ranges. Parameters are compared as
dictionaries. A warm-up that is not positive is none, and the manager, its parameters and the exits
are read where there are entries. -/
structure RunSettings.SameTest (a b : RunSettings Sizing) : Prop where
  symbol : a.symbol = b.symbol
  timeframe : a.timeframe = b.timeframe
  initialCapital : a.initialCapital = b.initialCapital
  pointValue : a.pointValue = b.pointValue
  strategy : a.strategy = b.strategy
  strategyParams : ∀ key, a.strategyParams.lookup key = b.strategyParams.lookup key
  positionSizing : a.positionSizing = b.positionSizing
  entries : a.entries = b.entries
  entryManager : a.entries ≠ none → a.entryManager = b.entryManager
  managerParams : a.entries ≠ none → a.managerParams = b.managerParams
  exitParams : a.entries ≠ none → a.exitParams = b.exitParams
  fixedParams : a.entries ≠ none → a.fixedParams = b.fixedParams
  warmupBars : max 0 a.warmupBars = max 0 b.warmupBars
  costs : a.costs = b.costs
  parallelMode : a.parallelMode = b.parallelMode
  sessionRules : a.sessionRules = b.sessionRules
  engine : a.engine = b.engine
  displayTimeframe : a.displayTimeframe = b.displayTimeframe
  tickFlags : a.tickFlags = b.tickFlags

/-- What the separate assembly of the lock-box run leaves out changes nothing. -/
structure NothingLost (backtest : SearchBacktest) (candidate : SearchCandidate)
    (params : WindowParams) : Prop where
  /-- The best window names every fixed parameter besides the genome. -/
  fixedParams : ∀ key, (candidate.fixedParams.lookup key).isSome → key ≠ "genome" →
    key ∈ metadataFixedParamKeys ∨ (params.strategyParams.lookup key).isSome
  genome : ∀ stored fixed, params.strategyParams.lookup "genome" = some stored →
    candidate.fixedParams.lookup "genome" = some fixed → stored = fixed
  profile : ∀ profile ∈ matchProfile backtest.symbol backtest.timeframe,
    profile.sessionRules = backtest.sessionRules
  warmup : warmupBarsForParams params.strategyParams ≤ 0
  entries : backtest.entries = none

theorem lookup_strategyFixedParams (fixedParams : Dict ℚ) (key : String) :
    (strategyFixedParams fixedParams).lookup key =
      if key ∈ metadataFixedParamKeys then none else fixedParams.lookup key := by
  have h := lookup_filter_key fixedParams (fun name => !metadataFixedParamKeys.contains name) key
  rw [strategyFixedParams, h]
  by_cases hkey : key ∈ metadataFixedParamKeys <;> simp [hkey]

theorem lookup_lockboxParams (candidate : SearchCandidate) (params : WindowParams)
    (key : String) :
    (lockboxParams candidate params).lookup key =
      if key = "genome" then
        (candidate.fixedParams.lookup "genome").or (params.strategyParams.lookup "genome")
      else params.strategyParams.lookup key := by
  unfold lockboxParams
  cases hgenome : candidate.fixedParams.lookup "genome" with
  | none => by_cases hkey : key = "genome" <;> simp [hkey]
  | some genome => by_cases hkey : key = "genome" <;> simp [hkey]

/-- The parameters of the two runs are the same dictionary exactly where the fixed parameters that
the lock-box drops are in the best window, and the genome is the same one. -/
theorem same_params_iff (candidate : SearchCandidate) (params : WindowParams) :
    (∀ key, (lockboxParams candidate params).lookup key =
      (mergeFields (strategyFixedParams candidate.fixedParams) params.strategyParams).lookup key) ↔
    (∀ key, (candidate.fixedParams.lookup key).isSome → key ≠ "genome" →
      key ∈ metadataFixedParamKeys ∨ (params.strategyParams.lookup key).isSome) ∧
    (∀ stored fixed, params.strategyParams.lookup "genome" = some stored →
      candidate.fixedParams.lookup "genome" = some fixed → stored = fixed) := by
  have hmerged := lookup_mergeFields (strategyFixedParams candidate.fixedParams) params.nodup_keys
  have hmeta : "genome" ∉ metadataFixedParamKeys := by decide
  constructor
  · intro h
    refine ⟨fun key hfixed hkey => ?_, fun stored fixed hstored hfixed => ?_⟩
    · have hlookup := h key
      rw [lookup_lockboxParams, if_neg hkey, hmerged, lookup_strategyFixedParams] at hlookup
      by_cases hmem : key ∈ metadataFixedParamKeys
      · exact .inl hmem
      · right
        rw [if_neg hmem] at hlookup
        cases hstored : params.strategyParams.lookup key with
        | some _ => rfl
        | none =>
          rw [hstored, Option.none_or] at hlookup
          rw [← hlookup] at hfixed
          cases hfixed
    · have hlookup := h "genome"
      rw [lookup_lockboxParams, if_pos rfl, hmerged, hstored, hfixed] at hlookup
      exact (Option.some.inj hlookup).symm
  · rintro ⟨hfixed, hgenome⟩ key
    rw [lookup_lockboxParams, hmerged, lookup_strategyFixedParams]
    by_cases hkey : key = "genome"
    · subst hkey
      rw [if_pos rfl, if_neg hmeta]
      cases hstored : params.strategyParams.lookup "genome" with
      | none => simp
      | some stored =>
        cases hgiven : candidate.fixedParams.lookup "genome" with
        | none => simp
        | some fixed => simp [hgenome stored fixed hstored hgiven]
    · rw [if_neg hkey]
      cases hstored : params.strategyParams.lookup key with
      | some _ => simp
      | none =>
        by_cases hmem : key ∈ metadataFixedParamKeys
        · simp [hmem]
        · cases hgiven : candidate.fixedParams.lookup key with
          | none => simp
          | some value =>
            have h := hfixed key (by simp [hgiven]) hkey
            simp [hmem, hstored] at h

theorem profileRules_eq_iff (backtest : SearchBacktest) :
    backtest.sessionRules = profileRules backtest ↔
      ∀ profile ∈ matchProfile backtest.symbol backtest.timeframe,
        profile.sessionRules = backtest.sessionRules := by
  unfold profileRules
  cases matchProfile backtest.symbol backtest.timeframe with
  | none => simp
  | some profile => simp [eq_comm]

/-- The run on the lock-box tests the candidate as its out-of-sample runs did exactly where the
fields that its assembly leaves out carry nothing. -/
theorem lockbox_sameTest_iff (backtest : SearchBacktest) (candidate : SearchCandidate)
    (params : WindowParams) :
    (lockboxRunSettings buildPositionSizingConfig backtest candidate params).SameTest
      (oosRunSettings buildPositionSizingConfig backtest candidate params) ↔
    NothingLost backtest candidate params := by
  constructor
  · intro h
    have hparams := (same_params_iff candidate params).mp h.strategyParams
    have hwarmup : max 0 0 = max 0 (warmupBarsForParams params.strategyParams) := h.warmupBars
    have hentries : none = backtest.entries := h.entries
    exact {
      fixedParams := hparams.1
      genome := hparams.2
      profile := (profileRules_eq_iff backtest).mp h.sessionRules
      warmup := by omega
      entries := hentries.symm }
  · intro h
    have hwarmup : max 0 0 = max 0 (warmupBarsForParams params.strategyParams) := by
      have := h.warmup
      omega
    exact {
      symbol := rfl
      timeframe := rfl
      initialCapital := rfl
      pointValue := rfl
      strategy := rfl
      strategyParams := (same_params_iff candidate params).mpr ⟨h.fixedParams, h.genome⟩
      positionSizing := rfl
      entries := h.entries.symm
      entryManager := fun hne => (hne rfl).elim
      managerParams := fun hne => (hne rfl).elim
      exitParams := fun hne => (hne rfl).elim
      fixedParams := fun hne => (hne rfl).elim
      warmupBars := hwarmup
      costs := rfl
      parallelMode := rfl
      sessionRules := (profileRules_eq_iff backtest).mpr h.profile
      engine := rfl
      displayTimeframe := rfl
      tickFlags := rfl }

end Assemblies

/-- The champion of a search on the day-trade profile of the dollar future: the out-of-sample runs
close every position at the end of the session, and the run on the lock-box holds it overnight. -/
theorem lockbox_drops_profile_rules :
    let backtest : SearchBacktest :=
      { symbol := "WDO$N", timeframe := "M15", initialCapital := 10000, pointValue := 10,
        strategy := "CompositeStrategy" }
    let candidate : SearchCandidate :=
      ⟨"gen0-ind0", "CompositeStrategy", [("genome", .obj []), ("timeframe", .str "M15")]⟩
    let params : WindowParams := ⟨[("n2__period", .int 14)], by decide, [], []⟩
    ¬ (lockboxRunSettings (fun _ => (none : Option Unit)) backtest candidate params).SameTest
      (oosRunSettings (fun _ => none) backtest candidate params) := by
  intro backtest candidate params h
  have hrules : backtest.sessionRules = profileRules backtest := h.sessionRules
  exact absurd hrules (by decide)

end QBackend.Optimization
