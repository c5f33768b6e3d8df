import QBackend.CacheSoundness
import QBackend.ExitRules
import QBackend.GraphReach
import Mathlib.Data.Fintype.EquivFin

/-!
# The exits of the two sides

`check_exit_conditions` of a composite strategy and `fixed_holding_period_exits`. A plan has one
holding period and one pair of middle-band columns for both sides, and the strategy looks at them
before it looks at the exit of the side.
-/

namespace QBackend.GenomeDsl

open FallibleSteps MemoRuns TopologicalOrder GraphReach
open Execution (Time Trade Signal ExecutionSide)

/-! ## Exit conditions -/

/-- `current_data.get(name, False)` of a signal column. -/
def signalAt (column : Option (List Bool)) (bar : ℕ) : Bool :=
  (column.bind fun signals => signals[bar]?).getD false

/-- The trade is closed when the bar is the holding period or more after that of its entry, which is
looked up by its time. -/
def holdingExit (times : List Time) (symbol : String) (holdingPeriod : ℤ) (bar : ℕ)
    (trade : Trade) : Option Signal :=
  if trade.symbol ≠ symbol then none
  else
    match times.idxOf? trade.entryTime with
    | none => none
    | some entryBar =>
      if holdingPeriod ≤ (bar : ℤ) - entryBar then some { symbol, action := .close } else none

def fixedHoldingPeriodExits (times : List Time) (symbol : String) (holdingPeriod : ℤ) (bar : ℕ)
    (openTrades : List Trade) : List Signal :=
  openTrades.filterMap (holdingExit times symbol holdingPeriod bar)

variable {F : Type}

def signalExit (indicators : Indicators F) (symbol : String) (bar : ℕ) (trade : Trade) :
    Option Signal :=
  if trade.symbol ≠ symbol then none
  else if trade.action = .buy ∧ signalAt indicators.exitLongSignal bar then
    some { symbol, action := .close }
  else if trade.action = .sell ∧ signalAt indicators.exitShortSignal bar then
    some { symbol, action := .close }
  else none

def checkExitConditions (plan : ExecutionPlan) (indicators : Indicators F) (times : List Time)
    (symbol : String) (bar : ℕ) (openTrades : List Trade) : List Signal :=
  match plan.fixedHoldingPeriod with
  | some holdingPeriod => fixedHoldingPeriodExits times symbol holdingPeriod bar openTrades
  | none => openTrades.filterMap (signalExit indicators symbol bar)

def Side.action : Side → ExecutionSide
  | .long => .buy
  | .short => .sell

def Indicators.exitSignal (indicators : Indicators F) : Side → Option (List Bool)
  | .long => indicators.exitLongSignal
  | .short => indicators.exitShortSignal

/-- The answer for a trade of the side, from the one period and the column of the side. -/
def closes (period : Option ℤ) (signal : Option (List Bool)) (times : List Time) (bar : ℕ)
    (entry : Time) : Bool :=
  match period with
  | some holdingPeriod =>
    (times.idxOf? entry).any fun entryBar => decide (holdingPeriod ≤ (bar : ℤ) - entryBar)
  | none => signalAt signal bar

theorem holdingExit_eq (times : List Time) {symbol : String} (holdingPeriod : ℤ) (bar : ℕ)
    {trade : Trade} (hsymbol : trade.symbol = symbol) (signal : Option (List Bool)) :
    holdingExit times symbol holdingPeriod bar trade =
      if closes (some holdingPeriod) signal times bar trade.entryTime = true then
        some { symbol, action := .close } else none := by
  unfold holdingExit
  rw [if_neg (not_not.mpr hsymbol)]
  cases hentry : times.idxOf? trade.entryTime with
  | none => simp [closes, hentry]
  | some entryBar => simp [closes, hentry]

theorem signalExit_eq (indicators : Indicators F) {symbol : String} (times : List Time) (bar : ℕ)
    {side : Side} {trade : Trade} (hsymbol : trade.symbol = symbol)
    (haction : trade.action = side.action) :
    signalExit indicators symbol bar trade =
      if closes none (indicators.exitSignal side) times bar trade.entryTime = true then
        some { symbol, action := .close } else none := by
  unfold signalExit
  rw [if_neg (not_not.mpr hsymbol), haction]
  cases side with
  | long => cases hs : signalAt indicators.exitLongSignal bar <;>
      simp [Side.action, closes, Indicators.exitSignal, hs]
  | short => cases hs : signalAt indicators.exitShortSignal bar <;>
      simp [Side.action, closes, Indicators.exitSignal, hs]

theorem checkExitConditions_single (plan : ExecutionPlan) (indicators : Indicators F)
    (times : List Time) (bar : ℕ) {side : Side} {trade : Trade}
    (haction : trade.action = side.action) :
    checkExitConditions plan indicators times trade.symbol bar [trade] =
      if closes plan.fixedHoldingPeriod (indicators.exitSignal side) times bar
          trade.entryTime = true then [{ symbol := trade.symbol, action := .close }] else [] := by
  unfold checkExitConditions
  cases plan.fixedHoldingPeriod with
  | none =>
    simp only [List.filterMap_cons, List.filterMap_nil, signalExit_eq indicators times bar rfl haction]
    split <;> simp_all
  | some holdingPeriod =>
    simp only [fixedHoldingPeriodExits, List.filterMap_cons, List.filterMap_nil,
      holdingExit_eq times holdingPeriod bar rfl (indicators.exitSignal side)]
    split <;> simp_all

theorem checkExitConditions_other (plan : ExecutionPlan) (indicators : Indicators F)
    (times : List Time) {symbol : String} (bar : ℕ) {trade : Trade}
    (hsymbol : trade.symbol ≠ symbol) :
    checkExitConditions plan indicators times symbol bar [trade] = [] := by
  unfold checkExitConditions
  cases plan.fixedHoldingPeriod with
  | none => simp [signalExit, hsymbol]
  | some holdingPeriod => simp [fixedHoldingPeriodExits, holdingExit, hsymbol]

/-! ## When two strategies answer alike -/

/-- The two strategies give one answer for every trade of the side at every bar of the frame. -/
def SameExits (side : Side) (times : List Time) (plan plan' : ExecutionPlan)
    (indicators indicators' : Indicators F) : Prop :=
  ∀ (symbol : String) (bar : ℕ) (trade : Trade), bar < times.length →
    trade.action = side.action →
    checkExitConditions plan indicators times symbol bar [trade] =
      checkExitConditions plan' indicators' times symbol bar [trade]

/-- A trade of this age is closed by the holding period. -/
def HeldFor (period : Option ℤ) (age : ℤ) : Prop := ∃ holdingPeriod ∈ period, holdingPeriod ≤ age

/-- The column is on at no bar. -/
def SilentUpTo (signal : Option (List Bool)) (bars : ℕ) : Prop :=
  ∀ bar < bars, signalAt signal bar = false

/-- At every age that a trade has in the frame both holding periods close it or none does. Where one
strategy has none, the column that it reads instead is silent, and where both have none they read the
same. -/
structure Alike (bars : ℕ) (period period' : Option ℤ) (signal signal' : Option (List Bool)) :
    Prop where
  ages : ∀ age : ℤ, |age| < bars → (HeldFor period age ↔ HeldFor period' age)
  left : period = none → period' ≠ none → SilentUpTo signal bars
  right : period ≠ none → period' = none → SilentUpTo signal' bars
  both : period = none → period' = none → ∀ bar < bars, signalAt signal bar = signalAt signal' bar

section Ages

variable {times : List Time} {period period' : Option ℤ} {signal signal' : Option (List Bool)}

theorem exists_absent (times : List Time) : ∃ t, t ∉ times := by
  obtain ⟨t, ht⟩ := Infinite.exists_notMem_finset times.toFinset
  exact ⟨t, fun hmem => ht (List.mem_toFinset.mpr hmem)⟩

/-- Every age below the number of bars is that of some trade at some bar. -/
theorem exists_age (hnd : times.Nodup) {age : ℤ} (h : |age| < times.length) :
    ∃ bar entry entryBar, bar < times.length ∧ times.idxOf? entry = some entryBar ∧
      (bar : ℤ) - entryBar = age := by
  have hidx : ∀ i (hi : i < times.length), times.idxOf? times[i] = some i := by
    intro i hi
    rw [List.idxOf?_eq_some_iff]
    refine ⟨hi, rfl, fun j hj heq => ?_⟩
    exact absurd ((hnd.getElem_inj_iff).mp heq) (by omega)
  obtain ⟨hneg, hpos⟩ := abs_lt.mp h
  obtain hage | hage := le_total 0 age
  · refine ⟨age.toNat, times.get ⟨0, by omega⟩, 0, by omega, hidx 0 (by omega), by omega⟩
  · refine ⟨0, times.get ⟨age.natAbs, by omega⟩, age.natAbs, by omega, hidx _ (by omega), by omega⟩

theorem closes_absent {t : Time} (h : t ∉ times) (holdingPeriod : ℤ) (bar : ℕ) :
    closes (some holdingPeriod) signal times bar t = false := by
  simp [closes, List.idxOf?_eq_none_iff.mpr h]

theorem closes_present {t : Time} {entryBar : ℕ} (h : times.idxOf? t = some entryBar)
    (holdingPeriod : ℤ) (bar : ℕ) :
    closes (some holdingPeriod) signal times bar t = true ↔
      HeldFor (some holdingPeriod) ((bar : ℤ) - entryBar) := by
  simp [closes, h, HeldFor]

theorem age_lt {t : Time} {bar entryBar : ℕ} (hbar : bar < times.length)
    (h : times.idxOf? t = some entryBar) : |(bar : ℤ) - entryBar| < times.length := by
  obtain ⟨hentry, -⟩ := List.idxOf?_eq_some_iff.mp h
  exact abs_lt.mpr ⟨by omega, by omega⟩

theorem closes_column_iff (hnd : times.Nodup) (holdingPeriod : ℤ) :
    (∀ bar < times.length, ∀ entry,
        signalAt signal bar = closes (some holdingPeriod) signal' times bar entry) ↔
      SilentUpTo signal times.length ∧
        ∀ age : ℤ, |age| < times.length → ¬ HeldFor (some holdingPeriod) age := by
  constructor
  · intro h
    have hsilent : SilentUpTo signal times.length := by
      intro bar hbar
      obtain ⟨absent, habsent⟩ := exists_absent times
      rw [h bar hbar absent, closes_absent habsent]
    refine ⟨hsilent, fun age hage hheld => ?_⟩
    obtain ⟨bar, entry, entryBar, hbar, hentry, rfl⟩ := exists_age hnd hage
    have htrue : closes (some holdingPeriod) signal' times bar entry = true :=
      (closes_present hentry holdingPeriod bar).mpr hheld
    rw [← h bar hbar entry, hsilent bar hbar] at htrue
    cases htrue
  · rintro ⟨hsilent, hages⟩ bar hbar entry
    rw [hsilent bar hbar]
    cases hentry : times.idxOf? entry with
    | none => rw [closes_absent (List.idxOf?_eq_none_iff.mp hentry)]
    | some entryBar =>
      refine (Bool.eq_false_iff.mpr fun htrue => ?_).symm
      exact hages _ (age_lt hbar hentry) ((closes_present hentry holdingPeriod bar).mp htrue)

theorem closes_periods_iff (hnd : times.Nodup) (p p' : ℤ) :
    (∀ bar < times.length, ∀ entry,
        closes (some p) signal times bar entry = closes (some p') signal' times bar entry) ↔
      ∀ age : ℤ, |age| < times.length → (HeldFor (some p) age ↔ HeldFor (some p') age) := by
  constructor
  · intro h age hage
    obtain ⟨bar, entry, entryBar, hbar, hentry, rfl⟩ := exists_age hnd hage
    have hpresent : closes (some p) signal times bar entry = true ↔
        HeldFor (some p) ((bar : ℤ) - entryBar) := closes_present hentry p bar
    rw [← hpresent, h bar hbar entry, closes_present hentry p' bar]
  · intro hages bar hbar entry
    cases hentry : times.idxOf? entry with
    | none =>
      have habsent := List.idxOf?_eq_none_iff.mp hentry
      rw [closes_absent habsent, closes_absent habsent]
    | some entryBar =>
      rw [Bool.eq_iff_iff, closes_present hentry p bar, closes_present hentry p' bar]
      exact hages _ (age_lt hbar hentry)

/-- Two strategies answer alike for the trades of all entry times at all bars exactly when their
periods and columns are alike. -/
theorem closes_eq_iff (hnd : times.Nodup) :
    (∀ bar < times.length, ∀ entry, closes period signal times bar entry =
        closes period' signal' times bar entry) ↔
      Alike times.length period period' signal signal' := by
  have hnever : ∀ age, ¬ HeldFor none age := fun age h => by
    obtain ⟨_, hnone, -⟩ := h
    cases hnone
  cases period with
  | none =>
    cases period' with
    | none =>
      constructor
      · intro h
        exact ⟨fun age _ => Iff.rfl, fun _ hne => absurd rfl hne, fun hne _ => absurd rfl hne,
          fun _ _ bar hbar => h bar hbar 0⟩
      · intro h bar hbar entry
        exact h.both rfl rfl bar hbar
    | some p' =>
      refine (closes_column_iff hnd p').trans ⟨fun ⟨hsilent, hages⟩ => ?_, fun h => ?_⟩
      · exact ⟨fun age hage => iff_of_false (hnever age) (hages age hage), fun _ _ => hsilent,
          fun hne _ => absurd rfl hne, fun _ hnone => by cases hnone⟩
      · exact ⟨h.left rfl (by simp), fun age hage hheld => hnever age ((h.ages age hage).mpr hheld)⟩
  | some p =>
    cases period' with
    | none =>
      have hsymm : (∀ bar < times.length, ∀ entry, closes (some p) signal times bar entry =
          closes none signal' times bar entry) ↔
          ∀ bar < times.length, ∀ entry,
            signalAt signal' bar = closes (some p) signal times bar entry :=
        forall₂_congr fun _ _ => forall_congr' fun _ => eq_comm
      refine hsymm.trans ((closes_column_iff hnd p).trans ⟨fun ⟨hsilent, hages⟩ => ?_, fun h => ?_⟩)
      · exact ⟨fun age hage => iff_of_false (hages age hage) (hnever age),
          fun hnone _ => (by cases hnone), fun _ _ => hsilent, fun hnone _ => (by cases hnone)⟩
      · exact ⟨h.right (by simp) rfl, fun age hage hheld => hnever age ((h.ages age hage).mp hheld)⟩
    | some p' =>
      refine (closes_periods_iff hnd p p').trans ⟨fun hages => ?_, fun h => h.ages⟩
      exact ⟨hages, fun hnone _ => (by cases hnone), fun _ hnone => (by cases hnone),
        fun hnone _ => (by cases hnone)⟩

theorem Alike.period_eq {bars : ℕ} (h : Alike bars period period' signal signal')
    (hlong : ∀ p ∈ period, |p| < bars) (hlong' : ∀ p ∈ period', |p| < bars) :
    period = period' := by
  cases period with
  | none =>
    cases period' with
    | none => rfl
    | some p' =>
      obtain ⟨_, hnone, -⟩ := (h.ages p' (hlong' p' rfl)).mpr ⟨p', rfl, le_rfl⟩
      cases hnone
  | some p =>
    obtain ⟨p', hp', hle⟩ := (h.ages p (hlong p rfl)).mp ⟨p, rfl, le_rfl⟩
    obtain ⟨q, hq, hle'⟩ := (h.ages p' (hlong' p' hp')).mpr ⟨p', hp', le_rfl⟩
    obtain rfl := Option.some.inj hq
    rw [hp', le_antisymm hle hle']

end Ages

/-- A long or short trade of the given entry time. -/
def tradeAt (side : Side) (entry : Time) : Trade where
  id := "T-1"
  symbol := "BTCUSDT"
  action := side.action
  quantity := 1
  entryTime := entry
  entryPrice := 1

theorem sameAnswers_iff {side : Side} {times : List Time} (hnd : times.Nodup)
    {plan plan' : ExecutionPlan} {indicators indicators' : Indicators F} :
    SameExits side times plan plan' indicators indicators' ↔
      Alike times.length plan.fixedHoldingPeriod plan'.fixedHoldingPeriod
        (indicators.exitSignal side) (indicators'.exitSignal side) := by
  rw [← closes_eq_iff hnd]
  constructor
  · intro h bar hbar entry
    have hsame := h (tradeAt side entry).symbol bar (tradeAt side entry) hbar rfl
    rw [checkExitConditions_single plan indicators times bar rfl,
      checkExitConditions_single plan' indicators' times bar rfl] at hsame
    have hentry : (tradeAt side entry).entryTime = entry := rfl
    rw [hentry] at hsame
    cases hc : closes plan.fixedHoldingPeriod (indicators.exitSignal side) times bar entry <;>
      cases hc' : closes plan'.fixedHoldingPeriod (indicators'.exitSignal side) times bar entry <;>
      simp_all
  · intro h symbol bar trade hbar haction
    by_cases hsymbol : trade.symbol = symbol
    · subst hsymbol
      rw [checkExitConditions_single plan indicators times bar haction,
        checkExitConditions_single plan' indicators' times bar haction, h bar hbar]
    · rw [checkExitConditions_other plan indicators times bar hsymbol,
        checkExitConditions_other plan' indicators' times bar hsymbol]

/-! ## Outputs in common -/

/-- The nodes that this one is computed from are the same in the two genomes. -/
def SameBelow (genome genome' : Genome) (id : String) : Prop :=
  ∀ below, Reaches genome.parents id below → genome.node? below = genome'.node? below

/-- The same port of the same node, computed from the same nodes. -/
structure SameOutput (genome genome' : Genome) (ref ref' : String) : Prop where
  same : ref = ref'
  below : SameBelow genome genome' (parseInputRef ref).1

section Shared

variable {genome genome' : Genome} {trial : TrialParams} {id : String}

theorem SameBelow.node? (h : SameBelow genome genome' id) : genome.node? id = genome'.node? id :=
  h id .refl

theorem SameBelow.parent (h : SameBelow genome genome' id) {parent : String}
    (hparent : parent ∈ genome.parents id) : SameBelow genome genome' parent :=
  fun below hbelow => h below (Relation.ReflTransGen.head hparent hbelow)

theorem mem_parents_of_node? {node : GenomeNode} {raw : String} (hnode : genome.node? id = some node)
    (hraw : raw ∈ node.inputs) : (parseInputRef raw).1 ∈ genome.parents id := by
  unfold Genome.parents
  rw [hnode]
  exact List.mem_map_of_mem hraw

theorem mapM_congr {ε α ι : Type} {f g : ι → Except ε α} {xs : List ι}
    (h : ∀ x ∈ xs, f x = g x) : xs.mapM f = xs.mapM g := by
  induction xs with
  | nil => rfl
  | cons x xs ih =>
    rw [List.mapM_cons, List.mapM_cons, h x List.mem_cons_self,
      ih fun y hy => h y (List.mem_cons_of_mem x hy)]

theorem compileNode_shared {fuel : ℕ} (h : SameBelow genome genome' id) :
    compileNode genome trial fuel id = compileNode genome' trial fuel id := by
  induction fuel generalizing id with
  | zero => rfl
  | succ fuel ih =>
    have hnode : genome.getNode id = genome'.getNode id := by
      unfold Genome.getNode
      rw [h.node?]
    simp only [compileNode, ← hnode]
    refine bind_congr_ok fun node hget => ?_
    have hparents : ∀ raw ∈ node.inputs,
        compileNode genome trial fuel (parseInputRef raw).1 =
          compileNode genome' trial fuel (parseInputRef raw).1 := fun raw hraw =>
      ih (h.parent (mem_parents_of_node? (getNode_eq_ok.mp hget) hraw))
    rw [mapM_congr fun raw hraw => by rw [hparents raw hraw]]

theorem compileById_shared (h : SameBelow genome genome' id) {compiled compiled' : CompiledNode}
    (hc : compileById genome trial id = .ok compiled)
    (hc' : compileById genome' trial id = .ok compiled') : compiled = compiled' := by
  have hmore := compileNode_mono_le (Nat.le_max_left genome.nodes.length genome'.nodes.length) hc
  have hmore' := compileNode_mono_le (Nat.le_max_right genome.nodes.length genome'.nodes.length) hc'
  rw [compileNode_shared h] at hmore
  exact Except.ok.inj (hmore.symm.trans hmore')

end Shared

section Values

variable [PriceFloat F] {genome genome' : Genome} {trial : TrialParams} {frame : Frame F}
  {latents : Option (Latents F)} {nodes nodes' : List CompiledNode}
  {cache cache' : List (CacheKey × CachedSeries F)} {df df' : DataFrame F} {values values' : Values F}

theorem Tracks.run_ok {done rest : List CompiledNode} (hnd : genome.ids.Nodup)
    (hports : PortsSeparated genome trial) (hcols : ColumnsSeparated genome)
    (hord : WellOrdered genome trial nodes) (hsplit : nodes = done ++ rest)
    (ht : Tracks genome frame latents done cache df values)
    (h : ((nodeMemo frame latents).run cache df rest).1 = .ok df') :
    ∃ cache' values', Tracks genome frame latents nodes cache' df' values' := by
  induction rest generalizing done cache df values with
  | nil =>
    rw [List.append_nil] at hsplit
    obtain rfl := Except.ok.inj h
    exact ⟨cache, values, hsplit ▸ ht⟩
  | cons m rest ih =>
    rcases ht.step (hord.position hsplit) hnd hports hcols with ⟨e, hstep, -⟩ |
        ⟨df₁, cache₁, values₁, hstep, -, ht'⟩
    · rcases hs : (nodeMemo frame latents).step cache df m with ⟨r, cache₁⟩
      rw [hs] at hstep
      simp only at hstep
      subst hstep
      simp only [Memo.run, hs] at h
      cases h
    · simp only [Memo.run, hstep] at h
      exact ih (by simp [hsplit]) ht' h

/-- Nodes that are computed from the same nodes have the same values, by induction on an order in
which each comes after its inputs. -/
theorem values_shared {order : List String} (hnd : genome.ids.Nodup)
    (hall : ∀ id ∈ order, ∃ c ∈ nodes, compileById genome trial id = .ok c)
    (hall' : ∀ id ∈ genome'.ids, ∃ c ∈ nodes', compileById genome' trial id = .ok c)
    (ht : Tracks genome frame latents nodes cache df values)
    (ht' : Tracks genome' frame latents nodes' cache' df' values')
    (horder : ParentsFirst genome.parents order) :
    ∀ id ∈ order, SameBelow genome genome' id → values id = values' id := by
  induction horder with
  | nil => intro id hid; cases hid
  | @snoc order n _ hparents ih =>
    intro id hid hbelow
    have hrest := ih fun id hid => hall id (List.mem_append_left _ hid)
    obtain hid | hid := List.mem_append.mp hid
    · exact hrest id hid hbelow
    · obtain rfl := List.mem_singleton.mp hid
      obtain ⟨c, hc, hcompiled⟩ := hall id (List.mem_append_right _ hid)
      obtain ⟨hmem, hcid⟩ := compileById_id hcompiled
      have hnode : genome.node? id = some c.node := hcid ▸ node?_of_mem hnd hmem
      have hid' : id ∈ genome'.ids := by
        have hnode' := hbelow.node?.symm.trans hnode
        exact List.mem_map.mpr
          ⟨c.node, KeyedTables.mem_of_lookup hnode', KeyedTables.key_of_lookup hnode'⟩
      obtain ⟨c', hc', hcompiled'⟩ := hall' id hid'
      obtain rfl := compileById_shared hbelow hcompiled hcompiled'
      obtain ⟨inputs, outputs, hread, heval, hvalues⟩ := ht.evaluated c hc
      obtain ⟨inputs', outputs', hread', heval', hvalues'⟩ := ht'.evaluated c hc'
      have hsame : ∀ b ∈ c.inputBindings, values b.nodeId = values' b.nodeId := by
        intro b hb
        obtain ⟨_, -, -, -, hids⟩ := compiled_inputs hcompiled
        have hparent : b.nodeId ∈ genome.parents id := by
          rw [← hcid, parents_of_mem hnd hmem, ← hids]
          exact List.mem_map_of_mem hb
        exact hrest _ (hparents _ hparent) (hbelow.parent hparent)
      rw [readInputs_congr hsame] at hread
      obtain rfl := Except.ok.inj (hread.symm.trans hread')
      obtain rfl := Except.ok.inj (heval.symm.trans heval')
      rw [← hcid, hvalues, hvalues']

end Values

/-! ## The columns that the exits read -/

def Genome.exitRef (genome : Genome) : Side → String
  | .long => genome.exitLong
  | .short => genome.exitShort

def Genome.exitNode? (genome : Genome) (side : Side) : Option GenomeNode :=
  genome.node? (parseInputRef (genome.exitRef side)).1

def ExecutionPlan.exit (plan : ExecutionPlan) : Side → ResolvedExit
  | .long => plan.exitLong
  | .short => plan.exitShort

theorem compilePlan_ok {genome : Genome} {trial : TrialParams} {plan : ExecutionPlan}
    (h : compilePlan genome trial = .ok plan) :
    resolveSignalColumn genome trial genome.entryLong = .ok plan.entryLongColumn ∧
      resolveSignalColumn genome trial genome.entryShort = .ok plan.entryShortColumn ∧
      ∃ node : Side → CompiledNode,
        (∀ side, compileById genome trial (parseInputRef (genome.exitRef side)).1 =
          .ok (node side)) ∧
        (∀ side, resolveExit (node side) plan.entryLongColumn plan.entryShortColumn
          (genome.exitRef side) side = .ok (plan.exit side)) ∧
        holdingPeriod (node .long) (node .short) = .ok plan.fixedHoldingPeriod := by
  simp only [compilePlan, bind_eq_ok, pure_eq_ok] at h
  obtain ⟨_, -, _, -, _, -, entryLong, hel, entryShort, hes, long, hl, short, hs, exitLong, hrl,
    exitShort, hrs, holding, hh, rfl⟩ := h
  refine ⟨hel, hes, fun side => match side with | .long => long | .short => short, ?_, ?_, hh⟩
  · intro side
    cases side with
    | long => exact hl
    | short => exact hs
  · intro side
    cases side with
    | long => exact hrl
    | short => exact hrs

/-- The column of the side: for both sides that of the middle band, when that is the long exit. -/
def ExecutionPlan.exitColumn (plan : ExecutionPlan) : Side → Option String
  | .long =>
    match plan.exitLong.policy, plan.exitLong.middleColumns with
    | .middleBand, some (long, _) => some long
    | _, _ => plan.exitLong.column
  | .short =>
    match plan.exitLong.policy, plan.exitLong.middleColumns with
    | .middleBand, some (_, short) => some short
    | _, _ => plan.exitShort.column

section Columns

variable {genome genome' : Genome} {trial : TrialParams} {df df' : DataFrame F}

theorem assembleSignals_exit [PriceFloat F] {plan : ExecutionPlan} {indicators : Indicators F}
    (h : assembleSignals plan df = .ok indicators) (side : Side) :
    readExitSignal df (plan.exitColumn side) = .ok (indicators.exitSignal side) := by
  simp only [assembleSignals, bind_eq_ok, pure_eq_ok] at h
  obtain ⟨entryLong, -, entryShort, -, exitLong, hl, exitShort, hs, rfl⟩ := h
  cases side with
  | long =>
    show readExitSignal df (plan.exitColumn .long) = .ok exitLong
    simp only [ExecutionPlan.exitColumn]
    cases hp : plan.exitLong.policy <;> cases hm : plan.exitLong.middleColumns <;>
      simpa only [hp, hm] using hl
  | short =>
    show readExitSignal df (plan.exitColumn .short) = .ok exitShort
    simp only [ExecutionPlan.exitColumn]
    cases hp : plan.exitLong.policy <;> cases hm : plan.exitLong.middleColumns <;>
      simpa only [hp, hm] using hs

/-- The columns of the exit are the same in both frames. -/
structure SameColumns (df df' : DataFrame F) (exit : ResolvedExit) : Prop where
  column : ∀ c ∈ exit.column, df c = df' c
  middle : ∀ p ∈ exit.middleColumns, df p.1 = df' p.1 ∧ df p.2 = df' p.2

theorem sameColumns_resolveExit {node : CompiledNode} {entryLong entryShort ref : String}
    {side : Side} {exit : ResolvedExit}
    (h : resolveExit node entryLong entryShort ref side = .ok exit)
    (hlong : df entryLong = df' entryLong) (hshort : df entryShort = df' entryShort)
    (hnode : ∀ port column, node.columnByPort.lookup port = some column → df column = df' column) :
    SameColumns df df' exit := by
  unfold resolveExit at h
  split at h
  · obtain rfl := Except.ok.inj h
    exact ⟨fun c hc => (by cases hc), fun p hp => (by cases hp)⟩
  · obtain rfl := Except.ok.inj h
    exact ⟨fun c hc => (by cases hc), fun p hp => (by cases hp)⟩
  · obtain rfl := Except.ok.inj h
    refine ⟨fun c hc => ?_, fun p hp => (by cases hp)⟩
    obtain rfl := Option.some.inj hc
    cases side with
    | long => exact hshort
    | short => exact hlong
  · simp only [bind_eq_ok, pure_eq_ok] at h
    obtain ⟨long, hl, short, hs, rfl⟩ := h
    refine ⟨fun c hc => (by cases hc), fun p hp => ?_⟩
    obtain rfl := Option.some.inj hp
    exact ⟨hnode _ _ (getKey_eq_ok.mp hl), hnode _ _ (getKey_eq_ok.mp hs)⟩
  · simp only [bind_eq_ok, pure_eq_ok] at h
    obtain ⟨column, hc, rfl⟩ := h
    refine ⟨fun c hc' => ?_, fun p hp => (by cases hp)⟩
    obtain rfl := Option.some.inj hc'
    exact hnode _ _ (getKey_eq_ok.mp hc)

theorem resolveExit_policy {node : CompiledNode} {entryLong entryShort ref : String}
    {side : Side} {exit : ResolvedExit}
    (h : resolveExit node entryLong entryShort ref side = .ok exit)
    (hband : exit.policy = .middleBand) : node.node.kind = .exitMiddleBand := by
  unfold resolveExit at h
  split at h
  · obtain rfl := Except.ok.inj h
    cases hband
  · obtain rfl := Except.ok.inj h
    cases hband
  · obtain rfl := Except.ok.inj h
    cases hband
  · assumption
  · simp only [bind_eq_ok, pure_eq_ok] at h
    obtain ⟨column, -, rfl⟩ := h
    cases hband

theorem exitColumn_short {plan : ExecutionPlan} (h : plan.exitLong.policy ≠ .middleBand) :
    plan.exitColumn .short = plan.exitShort.column := by
  simp only [ExecutionPlan.exitColumn]
  split
  · contradiction
  · rfl

/-- The column of the side has the same signals where the exit has the same columns. -/
theorem readExitSignal_congr [PriceFloat F] {plan plan' : ExecutionPlan} {side : Side}
    (hexit : plan.exit side = plan'.exit side) (hcolumns : SameColumns df df' (plan.exit side))
    (h : side = .long ∨ plan.exitLong.policy ≠ .middleBand ∧ plan'.exitLong.policy ≠ .middleBand) :
    readExitSignal df (plan.exitColumn side) = readExitSignal df' (plan'.exitColumn side) := by
  have hread : ∀ column : Option String, (∀ c ∈ column, df c = df' c) →
      readExitSignal df column = readExitSignal df' column := by
    intro column hsame
    cases column with
    | none => rfl
    | some c => simp only [readExitSignal, readSignal, readColumn, hsame c rfl]
  cases side with
  | long =>
    have hlong : plan.exitLong = plan'.exitLong := hexit
    have heq : plan.exitColumn .long = plan'.exitColumn .long := by
      simp only [ExecutionPlan.exitColumn, hlong]
    rw [← heq]
    refine hread _ fun c hc => ?_
    simp only [ExecutionPlan.exitColumn] at hc
    split at hc
    next hpolicy hmiddle =>
      obtain rfl := Option.some.inj hc
      exact (hcolumns.middle _ hmiddle).1
    next => exact hcolumns.column c hc
  | short =>
    obtain ⟨hpolicy, hpolicy'⟩ := h.resolve_left (by simp)
    have hshort : plan.exitShort = plan'.exitShort := hexit
    rw [exitColumn_short hpolicy, exitColumn_short hpolicy', ← hshort]
    exact hread _ hcolumns.column

end Columns

/-! ## One side, two genomes -/

/-- The entries and the exit of the side are the same outputs. -/
structure SharesExit (side : Side) (genome genome' : Genome) : Prop where
  entryLong : SameOutput genome genome' genome.entryLong genome'.entryLong
  entryShort : SameOutput genome genome' genome.entryShort genome'.entryShort
  exit : SameOutput genome genome' (genome.exitRef side) (genome'.exitRef side)

/-- Neither cache keys nor column names are ambiguous. -/
structure Separated (genome : Genome) (trial : TrialParams) : Prop where
  ports : PortsSeparated genome trial
  columns : ColumnsSeparated genome

/-- The exit of the longs is a middle band. -/
def BandExit (genome : Genome) : Prop :=
  ∃ node ∈ genome.exitNode? .long, node.kind = .exitMiddleBand

/-- The holding period of the exit node of the side. -/
def ownHolding (genome : Genome) (trial : TrialParams) (side : Side) : Option ℤ :=
  match genome.exitNode? side with
  | none => none
  | some node =>
    if node.kind = .exitFixedHolding then
      ((resolveNodeParams trial node).lookup "holding_period").bind fun value =>
        value.toInt.toOption
    else none

/-- The holding period of both sides: that of the long exit, else that of the short one. -/
def heldFor (genome : Genome) (trial : TrialParams) : Option ℤ :=
  (ownHolding genome trial .long).or (ownHolding genome trial .short)

section Sides

variable [PriceFloat F]

theorem ownHolding_of_compiled {genome : Genome} {trial : TrialParams} {side : Side}
    {compiled : CompiledNode}
    (h : compileById genome trial (parseInputRef (genome.exitRef side)).1 = .ok compiled) :
    ownHolding genome trial side =
      if compiled.node.kind = .exitFixedHolding then
        (compiled.resolvedParams.lookup "holding_period").bind fun value => value.toInt.toOption
      else none := by
  obtain ⟨fuel, -, hfrom⟩ := compileById_spec h
  unfold ownHolding Genome.exitNode?
  rw [hfrom.node, hfrom.params]

theorem fixedHoldingPeriod_eq {genome : Genome} {trial : TrialParams} {plan : ExecutionPlan}
    (h : compilePlan genome trial = .ok plan) : plan.fixedHoldingPeriod = heldFor genome trial := by
  obtain ⟨-, -, node, hnodes, -, hholding⟩ := compilePlan_ok h
  have hvalue : ∀ {c : CompiledNode} {value : Value} {n : ℤ},
      getKey c.resolvedParams "holding_period" = .ok value → value.toInt = .ok n →
      ((c.resolvedParams.lookup "holding_period").bind fun value => value.toInt.toOption) =
        some n := by
    intro c value n hkey hint
    rw [getKey_eq_ok.mp hkey, Option.bind_some, hint]
    rfl
  unfold heldFor
  rw [ownHolding_of_compiled (hnodes .long), ownHolding_of_compiled (hnodes .short)]
  unfold holdingPeriod at hholding
  split at hholding
  next hlong =>
    simp only [bind_eq_ok, pure_eq_ok] at hholding
    obtain ⟨value, hkey, n, hint, heq⟩ := hholding
    rw [if_pos hlong, hvalue hkey hint, ← heq]
    rfl
  next hlong =>
    rw [if_neg hlong]
    split at hholding
    next hshort =>
      simp only [bind_eq_ok, pure_eq_ok] at hholding
      obtain ⟨value, hkey, n, hint, heq⟩ := hholding
      rw [if_pos hshort, hvalue hkey hint, ← heq]
      rfl
    next hshort =>
      rw [if_neg hshort]
      exact (Except.ok.inj hholding).symm

variable {strategy strategy' : Strategy F} {frame : Frame F} {plan plan' : ExecutionPlan}
  {indicators indicators' : Indicators F}

theorem compilePlan_of_plan (h : strategy.plan = .ok plan) :
    compilePlan strategy.genome strategy.trial = .ok plan := by
  simp only [Strategy.plan, compileGenome, bind_eq_ok] at h
  obtain ⟨_, -, h⟩ := h
  exact h

theorem freshIndicators_tracks (hplan : strategy.plan = .ok plan)
    (haccepted : Accepted F strategy.genome)
    (hseparated : Separated strategy.genome strategy.trial)
    (h : freshIndicators strategy frame = .ok indicators) :
    ∃ df cache values, assembleSignals plan df = .ok indicators ∧
      Tracks strategy.genome frame (latentsOf strategy frame) plan.sortedNodes cache df values := by
  rw [freshIndicators_eq frame hplan] at h
  obtain ⟨df, hdf, hassemble⟩ := bind_eq_ok.mp h
  obtain ⟨cache, values, htracks⟩ := Tracks.run_ok haccepted.nodup hseparated.ports
    hseparated.columns (wellOrdered_sortedNodes haccepted.nodup (compilePlan_of_plan hplan))
    (List.nil_append _).symm (tracks_start strategy.genome frame (latentsOf strategy frame)) hdf
  exact ⟨df, cache, values, hassemble, htracks⟩

theorem Accepted.mem_kahn {genome : Genome} (h : Accepted F genome) {id : String}
    (hid : id ∈ genome.ids) : id ∈ kahn genome.ids genome.parents :=
  GraphReach.mem_kahn h.nodup h.length_kahn hid

theorem exists_sortedNode (hplan : strategy.plan = .ok plan)
    (haccepted : Accepted F strategy.genome) {id : String} (hid : id ∈ strategy.genome.ids) :
    ∃ c ∈ plan.sortedNodes, compileById strategy.genome strategy.trial id = .ok c := by
  have hall := compilePlan_sortedNodes (compilePlan_of_plan hplan)
  obtain ⟨i, hi, rfl⟩ := List.getElem_of_mem (haccepted.mem_kahn hid)
  exact ⟨_, List.getElem_mem (hall.length_eq ▸ hi), hall.get hi (hall.length_eq ▸ hi)⟩

theorem times_nodup (frame : Frame F) : frame.times.Nodup := by
  refine (List.pairwise_map.mpr (frame.spaced.imp fun {a b} hab => ?_) :
    frame.times.Pairwise (· < ·)).imp fun hlt => ne_of_lt hlt
  exact lt_of_lt_of_le (lt_add_of_pos_right a.time (by decide)) hab

theorem resolveSignalColumn_ok {genome : Genome} {trial : TrialParams} {ref column : String}
    (h : resolveSignalColumn genome trial ref = .ok column) :
    ∃ compiled, compileById genome trial (parseInputRef ref).1 = .ok compiled ∧
      compiled.columnByPort.lookup (parseInputRef ref).2 = some column := by
  obtain ⟨compiled, hcompiled, hkey⟩ := bind_eq_ok.mp h
  exact ⟨compiled, hcompiled, getKey_eq_ok.mp hkey⟩

theorem middleBand_of_policy {genome : Genome} {trial : TrialParams}
    (h : compilePlan genome trial = .ok plan) (hpolicy : plan.exitLong.policy = .middleBand) :
    BandExit genome := by
  obtain ⟨-, -, node, hnodes, hexits, -⟩ := compilePlan_ok h
  obtain ⟨fuel, -, hfrom⟩ := compileById_spec (hnodes .long)
  exact ⟨_, hfrom.node, resolveExit_policy (hexits .long) hpolicy⟩

variable {genome' : Genome}

theorem columns_shared (haccepted : Accepted F strategy.genome) (haccepted' : Accepted F genome')
    (hseparated : Separated strategy.genome strategy.trial)
    (hseparated' : Separated genome' strategy.trial)
    (hplan : strategy.plan = .ok plan)
    (hplan' : { strategy with genome := genome' }.plan = .ok plan')
    (h : freshIndicators strategy frame = .ok indicators)
    (h' : freshIndicators { strategy with genome := genome' } frame = .ok indicators') :
    ∃ df df', assembleSignals plan df = .ok indicators ∧
      assembleSignals plan' df' = .ok indicators' ∧
      ∀ id compiled, SameBelow strategy.genome genome' id →
        compileById strategy.genome strategy.trial id = .ok compiled →
        ∀ port column, compiled.columnByPort.lookup port = some column → df column = df' column := by
  obtain ⟨df, cache, values, hassemble, ht⟩ :=
    freshIndicators_tracks hplan haccepted hseparated h
  obtain ⟨df', cache', values', hassemble', ht'⟩ :=
    freshIndicators_tracks hplan' haccepted' hseparated' h'
  refine ⟨df, df', hassemble, hassemble', ?_⟩
  intro id compiled hbelow hcompiled port column hcolumn
  obtain ⟨hmem, hid⟩ := compileById_id hcompiled
  rw [compileById_columns hcompiled] at hcolumn
  obtain ⟨hport, rfl⟩ := mem_nodePorts_of_lookup hcolumn
  have hnode : strategy.genome.node? id = some compiled.node :=
    hid ▸ node?_of_mem haccepted.nodup hmem
  have hmem' : compiled.node ∈ genome'.nodes :=
    KeyedTables.mem_of_lookup (hbelow.node?.symm.trans hnode)
  have hvalues : values id = values' id :=
    values_shared haccepted.nodup
      (fun id hid => exists_sortedNode hplan haccepted (mem_of_mem_kahn haccepted.nodup hid))
      (fun id hid => exists_sortedNode hplan' haccepted' hid)
      ht ht' (kahn_parentsFirst haccepted.nodup) id
      (haccepted.mem_kahn (hid ▸ List.mem_map_of_mem hmem)) hbelow
  rw [ht.agree _ hmem _ hport, ht'.agree _ hmem' _ hport, hid, hvalues]

theorem exitSignal_shared {side : Side} (haccepted : Accepted F strategy.genome)
    (haccepted' : Accepted F genome') (hshare : SharesExit side strategy.genome genome')
    (hplan : strategy.plan = .ok plan)
    (hplan' : { strategy with genome := genome' }.plan = .ok plan')
    (h : freshIndicators strategy frame = .ok indicators)
    (h' : freshIndicators { strategy with genome := genome' } frame = .ok indicators')
    (hseparated : Separated strategy.genome strategy.trial)
    (hseparated' : Separated genome' strategy.trial)
    (hband : side = .long ∨ ¬ BandExit strategy.genome ∧ ¬ BandExit genome') :
    indicators.exitSignal side = indicators'.exitSignal side := by
  obtain ⟨df, df', hassemble, hassemble', hcolumns⟩ := columns_shared haccepted haccepted'
    hseparated hseparated' hplan hplan' h h'
  have hcompile := compilePlan_of_plan hplan
  have hcompile' := compilePlan_of_plan hplan'
  obtain ⟨hel, hes, node, hnodes, hexits, -⟩ := compilePlan_ok hcompile
  obtain ⟨hel', hes', node', hnodes', hexits', -⟩ := compilePlan_ok hcompile'
  -- the column of a signal that both genomes have
  have hsignal : ∀ {ref ref' column column'}, SameOutput strategy.genome genome' ref ref' →
      resolveSignalColumn strategy.genome strategy.trial ref = .ok column →
      resolveSignalColumn genome' strategy.trial ref' = .ok column' →
      column = column' ∧ df column = df' column := by
    intro ref ref' column column' hsame hc hc'
    obtain ⟨rfl, hbelow⟩ := hsame
    obtain ⟨compiled, hcompiled, hlookup⟩ := resolveSignalColumn_ok hc
    obtain ⟨compiled', hcompiled', hlookup'⟩ := resolveSignalColumn_ok hc'
    obtain rfl := compileById_shared hbelow hcompiled hcompiled'
    exact ⟨Option.some.inj (hlookup.symm.trans hlookup'),
      hcolumns _ _ hbelow hcompiled _ _ hlookup⟩
  obtain ⟨hlong, hlongs⟩ := hsignal hshare.entryLong hel hel'
  obtain ⟨hshort, hshorts⟩ := hsignal hshare.entryShort hes hes'
  have hnode : node side = node' side := by
    refine compileById_shared hshare.exit.below (hnodes side) ?_
    rw [hshare.exit.same]
    exact hnodes' side
  have hexit : plan.exit side = plan'.exit side := by
    have hright := hexits' side
    rw [← hnode, ← hlong, ← hshort] at hright
    have hleft := hexits side
    rw [hshare.exit.same] at hleft
    exact Except.ok.inj (hleft.symm.trans hright)
  have hsame : SameColumns df df' (plan.exit side) :=
    sameColumns_resolveExit (hexits side) hlongs hshorts
      (hcolumns _ _ hshare.exit.below (hnodes side))
  have hread := readExitSignal_congr hexit hsame (hband.imp id fun ⟨hb, hb'⟩ =>
    ⟨fun hp => hb (middleBand_of_policy hcompile hp),
      fun hp => hb' (middleBand_of_policy hcompile' hp)⟩)
  rw [assembleSignals_exit hassemble side, assembleSignals_exit hassemble' side] at hread
  exact Except.ok.inj hread

/-- Two genomes with the entries and the exit of a side in common answer alike for its trades exactly
when their one holding period and the columns of the side are alike. On a frame longer than the
periods these have to be the same. The columns are always the same for the longs, and for the shorts
when the exit of the longs is no middle band. -/
theorem side_answers_iff (side : Side) (strategy : Strategy F) (genome' : Genome) (frame : Frame F)
    (haccepted : Accepted F strategy.genome) (haccepted' : Accepted F genome')
    (hshare : SharesExit side strategy.genome genome')
    (hplan : strategy.plan = .ok plan)
    (hplan' : { strategy with genome := genome' }.plan = .ok plan')
    (h : freshIndicators strategy frame = .ok indicators)
    (h' : freshIndicators { strategy with genome := genome' } frame = .ok indicators') :
    (SameExits side frame.times plan plan' indicators indicators' ↔
        Alike frame.times.length (heldFor strategy.genome strategy.trial)
          (heldFor genome' strategy.trial) (indicators.exitSignal side)
          (indicators'.exitSignal side)) ∧
      (SameExits side frame.times plan plan' indicators indicators' →
        (∀ p ∈ heldFor strategy.genome strategy.trial, |p| < frame.times.length) →
        (∀ p ∈ heldFor genome' strategy.trial, |p| < frame.times.length) →
        heldFor strategy.genome strategy.trial = heldFor genome' strategy.trial) ∧
      (Separated strategy.genome strategy.trial → Separated genome' strategy.trial →
        (side = .long ∨ ¬ BandExit strategy.genome ∧ ¬ BandExit genome') →
        indicators.exitSignal side = indicators'.exitSignal side) := by
  have hiff : SameExits side frame.times plan plan' indicators indicators' ↔ _ :=
    sameAnswers_iff (times_nodup frame)
  rw [fixedHoldingPeriod_eq (compilePlan_of_plan hplan),
    fixedHoldingPeriod_eq (compilePlan_of_plan hplan')] at hiff
  refine ⟨hiff, fun hsame hlong hlong' => (hiff.mp hsame).period_eq hlong hlong', ?_⟩
  intro hseparated hseparated' hband
  exact exitSignal_shared haccepted haccepted' hshare hplan hplan' h h' hseparated hseparated'
    hband

end Sides

/-! ## Exits of three bars -/

section Exits

def exitRow (bar : ℤ) (opn close : ℚ) : Row (Option ℚ) where
  time := bar * minute
  opn := some opn
  high := some 5
  low := some 1
  close := some close
  volume := some 1
  exog _ := none

/-- The second bar closes above its open, the third one below. -/
def exitFrame : Frame (Option ℚ) where
  rows := [exitRow 0 2 2, exitRow 1 2 4, exitRow 2 4 2]
  spaced := by decide +kernel
  opens := by
    intro r hr
    simp only [List.mem_cons, List.not_mem_nil, or_false] at hr
    rcases hr with rfl | rfl | rfl <;> rfl

/-- Two comparisons, a holding period of one bar, a middle band and an exit that closes nothing. -/
def exitGenome (long short : String) : Genome where
  nodes :=
    [{ id := "close", kind := .sourceClose },
      { id := "open", kind := .sourceOpen },
      { id := "up", kind := .cmpGt, inputs := ["close", "open"] },
      { id := "down", kind := .cmpLt, inputs := ["close", "open"] },
      { id := "never", kind := .exitRebalance },
      { id := "hold", kind := .exitFixedHolding, params := [("holding_period", .lit (.int 1))] },
      { id := "band", kind := .exitMiddleBand, inputs := ["close", "open"] }]
  entryLong := "up"
  entryShort := "down"
  exitLong := long
  exitShort := short

def exitStrategy (long short : String) : Strategy (Option ℚ) where
  genome := exitGenome long short
  trial _ := none

theorem sharesExit_long (long short short' : String) :
    SharesExit .long (exitGenome long short) (exitGenome long short') :=
  ⟨⟨rfl, fun _ _ => rfl⟩, ⟨rfl, fun _ _ => rfl⟩, ⟨rfl, fun _ _ => rfl⟩⟩

theorem sharesExit_short (long long' short : String) :
    SharesExit .short (exitGenome long short) (exitGenome long' short) :=
  ⟨⟨rfl, fun _ _ => rfl⟩, ⟨rfl, fun _ _ => rfl⟩, ⟨rfl, fun _ _ => rfl⟩⟩

theorem side_answers_iff_down :
    ∃ plan plan' indicators indicators',
      freshIndicators (exitStrategy "down" "up") exitFrame = .ok indicators ∧
      freshIndicators (exitStrategy "down" "never") exitFrame = .ok indicators' ∧
      (SameExits .long exitFrame.times plan plan' indicators indicators' ↔
        Alike exitFrame.times.length (heldFor (exitGenome "down" "up") fun _ => none)
          (heldFor (exitGenome "down" "never") fun _ => none) (indicators.exitSignal .long)
          (indicators'.exitSignal .long)) := by
  obtain ⟨plan, hplan⟩ := exists_ok_of_isSome (x := (exitStrategy "down" "up").plan)
    (by decide +kernel)
  obtain ⟨plan', hplan'⟩ := exists_ok_of_isSome (x := (exitStrategy "down" "never").plan)
    (by decide +kernel)
  obtain ⟨indicators, h⟩ := exists_ok_of_isSome
    (x := freshIndicators (exitStrategy "down" "up") exitFrame) (by decide +kernel)
  obtain ⟨indicators', h'⟩ := exists_ok_of_isSome
    (x := freshIndicators (exitStrategy "down" "never") exitFrame) (by decide +kernel)
  exact ⟨plan, plan', indicators, indicators', h, h', (side_answers_iff .long
    (exitStrategy "down" "up") (exitGenome "down" "never") exitFrame (by decide +kernel)
    (by decide +kernel) (sharesExit_long _ _ _) hplan hplan' h h').1⟩

/-- Two genomes with a side in common answer differently for that side. -/
def Interferes (side : Side) (strategy strategy' : Strategy (Option ℚ))
    (frame : Frame (Option ℚ)) : Prop :=
  Accepted (Option ℚ) strategy.genome ∧ Accepted (Option ℚ) strategy'.genome ∧
    SharesExit side strategy.genome strategy'.genome ∧
    ∃ plan plan' indicators indicators', strategy.plan = .ok plan ∧ strategy'.plan = .ok plan' ∧
      freshIndicators strategy frame = .ok indicators ∧
      freshIndicators strategy' frame = .ok indicators' ∧
      ¬ SameExits side frame.times plan plan' indicators indicators'

theorem interferes_of_not_alike {side : Side} {strategy strategy' : Strategy (Option ℚ)}
    {frame : Frame (Option ℚ)}
    (haccepted : Accepted (Option ℚ) strategy.genome)
    (haccepted' : Accepted (Option ℚ) strategy'.genome)
    (hshare : SharesExit side strategy.genome strategy'.genome)
    (hplan : strategy.plan.toOption.isSome = true) (hplan' : strategy'.plan.toOption.isSome = true)
    (h : (freshIndicators strategy frame).toOption.isSome = true)
    (h' : (freshIndicators strategy' frame).toOption.isSome = true)
    (hnot : ∀ indicators indicators', freshIndicators strategy frame = .ok indicators →
      freshIndicators strategy' frame = .ok indicators' →
      ¬ Alike frame.times.length (heldFor strategy.genome strategy.trial)
        (heldFor strategy'.genome strategy'.trial) (indicators.exitSignal side)
        (indicators'.exitSignal side)) :
    Interferes side strategy strategy' frame := by
  obtain ⟨plan, hplan⟩ := exists_ok_of_isSome hplan
  obtain ⟨plan', hplan'⟩ := exists_ok_of_isSome hplan'
  obtain ⟨indicators, h⟩ := exists_ok_of_isSome h
  obtain ⟨indicators', h'⟩ := exists_ok_of_isSome h'
  refine ⟨haccepted, haccepted', hshare, plan, plan', indicators, indicators', hplan, hplan', h, h',
    fun hsame => hnot indicators indicators' h h' ?_⟩
  rw [← fixedHoldingPeriod_eq (compilePlan_of_plan hplan),
    ← fixedHoldingPeriod_eq (compilePlan_of_plan hplan')]
  exact (sameAnswers_iff (times_nodup frame)).mp hsame

/-- The exit of the shorts after one bar closes longs, and the middle band of the longs stands in for
the exit of the shorts. -/
theorem exits_interfere :
    Interferes .long (exitStrategy "never" "never") (exitStrategy "never" "hold") exitFrame ∧
      Interferes .short (exitStrategy "never" "up") (exitStrategy "band" "up") exitFrame := by
  constructor
  · refine interferes_of_not_alike (by decide +kernel) (by decide +kernel) (sharesExit_long _ _ _)
      (by decide +kernel) (by decide +kernel) (by decide +kernel) (by decide +kernel) ?_
    intro indicators indicators' _ _ halike
    have hone : heldFor (exitStrategy "never" "hold").genome (exitStrategy "never" "hold").trial =
        some 1 := by decide +kernel
    have hperiods := halike.period_eq
      (fun p hp => absurd hp (by rw [show heldFor _ _ = none by decide +kernel]; simp))
      (fun p hp => by
        obtain rfl := Option.some.inj (hone.symm.trans hp)
        decide)
    exact absurd hperiods (by decide +kernel)
  · refine interferes_of_not_alike (by decide +kernel) (by decide +kernel) (sharesExit_short _ _ _)
      (by decide +kernel) (by decide +kernel) (by decide +kernel) (by decide +kernel) ?_
    intro indicators indicators' h h' halike
    have hsignal : (freshIndicators (exitStrategy "never" "up") exitFrame).toOption.map
        Indicators.exitShortSignal = some (some [false, true, false]) := by decide +kernel
    have hsignal' : (freshIndicators (exitStrategy "band" "up") exitFrame).toOption.map
        Indicators.exitShortSignal = some (some [false, false, true]) := by decide +kernel
    rw [h] at hsignal
    rw [h'] at hsignal'
    have hshort : indicators.exitSignal .short = some [false, true, false] :=
      Option.some.inj hsignal
    have hshort' : indicators'.exitSignal .short = some [false, false, true] :=
      Option.some.inj hsignal'
    have hsame := halike.both (by decide +kernel) (by decide +kernel) 1 (by decide)
    rw [hshort, hshort'] at hsame
    exact absurd hsame (by decide)

end Exits

end QBackend.GenomeDsl
