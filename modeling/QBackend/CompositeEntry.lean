import QBackend.GenomeMeaning
import QBackend.LastValues

/-!
# Composite entries

`composite_entry.py` and `signal_managers`: several strategies each take a stance, the side of their
last entry signal, and a manager combines the stances of a bar into the one that is traded.
-/

namespace QBackend.CompositeEntries

open GenomeDsl CausalSeries PriceFloat FallibleSteps RegisteredStrategies MemoRuns
open Execution (Time Trade Signal ExecutionSide)

/-! ## Stances -/

inductive Stance where
  | short | flat | long
  deriving DecidableEq, Repr

/-- The rows on which a strategy gives a signal to buy or to sell. -/
structure Edges where
  buy : List Bool
  sell : List Bool

def edgeStance (buy sell : Bool) : Option Stance :=
  if buy then some .long else if sell then some .short else none

def deriveStance (edges : Edges) : List Stance :=
  (forwardFill (List.zipWith edgeStance edges.buy edges.sell)).map fun stance => stance.getD .flat

/-! ## Managers -/

inductive SignalManager where
  | or | and
  | majority (voteThreshold : ℤ)
  deriving DecidableEq, Repr

def combineOr (stances : List Stance) : Stance :=
  let hasLong := stances.contains .long
  let hasShort := stances.contains .short
  if hasLong && !hasShort then .long else if hasShort && !hasLong then .short else .flat

def combineAnd (stances : List Stance) : Stance :=
  let nonFlat := stances.filter (· ≠ .flat)
  if nonFlat = [] then .flat
  else if nonFlat.all (· = .long) then .long
  else if nonFlat.all (· = .short) then .short
  else .flat

def combineMajority (voteThreshold : ℤ) (stances : List Stance) : Stance :=
  let longCount := stances.count .long
  let shortCount := stances.count .short
  if voteThreshold ≤ longCount ∧ shortCount < longCount then .long
  else if voteThreshold ≤ shortCount ∧ longCount < shortCount then .short
  else .flat

def SignalManager.combine (manager : SignalManager) (stances : List Stance) : Stance :=
  if stances = [] then .flat
  else match manager with
    | .or => combineOr stances
    | .and => combineAnd stances
    | .majority voteThreshold => combineMajority voteThreshold stances

def getManager (kind : String) (voteThreshold : Option Value) : Except Failure SignalManager :=
  match kind with
  | "or" => .ok .or
  | "and" => .ok .and
  | "majority" => do
    let threshold ← (voteThreshold.getD (.int 2)).toInt
    pure (.majority threshold)
  | _ => .error (.valueError ("Unknown signal manager: " ++ kind))

/-! ## Strategies -/

section Strategies

variable (F : Type) [PriceFloat F]

/-- What an entry is built from: a class of the registry, or a genome. -/
inductive Instance where
  | registered (s : RegisteredStrategy)
  | composite (strategy : Strategy F)

variable {F}

/-- The edges row by row, from the entries. -/
def rowEdges (entries : ℕ → List (EntrySignal F)) (rows : ℕ) : Edges where
  buy := (List.range rows).map fun bar => (entries bar).any fun signal => signal.side = .buy
  sell := (List.range rows).map fun bar => (entries bar).any fun signal => signal.side = .sell

/-- `_instance_edge_columns` -/
def Instance.edges (frame : Frame F) : Instance F → Except Failure Edges
  | .registered s => do
    let columns ← s.computeIndicators frame
    match columns.lookup "buy_signal", columns.lookup "sell_signal" with
    | some buy, some sell => pure ⟨buy.signals, sell.signals⟩
    | _, _ => pure (rowEdges (s.checkEntryConditions columns "") frame.rows.length)
  | .composite strategy => do
    let indicators ← freshIndicators strategy frame
    pure ⟨indicators.entryLongSignal, indicators.entryShortSignal⟩

variable (F) in
structure CompositeEntryStrategy where
  instances : List (Instance F)
  manager : SignalManager

/-- The columns that are traded. -/
structure NetColumns where
  stances : List (List Stance)
  netStance : List Stance
  netLongSignal : List Bool
  netShortSignal : List Bool

/-- The rows on which the net stance turns to a side. -/
def turnsTo (side : Stance) (net : List Stance) : List Bool :=
  List.zipWith (fun now prev => decide (now = side ∧ prev ≠ side)) net (shift .flat 1 net)

def CompositeEntryStrategy.computeIndicators (s : CompositeEntryStrategy F) (frame : Frame F) :
    Except Failure NetColumns := do
  let edges ← s.instances.mapM (Instance.edges frame)
  let stances := edges.map deriveStance
  let net := (List.range frame.rows.length).map fun bar =>
    s.manager.combine (stances.map fun stance => stance[bar]?.getD .flat)
  pure ⟨stances, net, turnsTo .long net, turnsTo .short net⟩

def NetColumns.checkEntryConditions (columns : NetColumns) (symbol : String) (bar : ℕ) :
    List (EntrySignal F) :=
  enterOn symbol (signalAt (some columns.netLongSignal) bar)
    (signalAt (some columns.netShortSignal) bar) one

def NetColumns.checkExitConditions (columns : NetColumns) (symbol : String) (bar : ℕ)
    (openTrades : List Trade) : List Signal :=
  let net := columns.netStance[bar]?.getD .flat
  openTrades.filterMap (sideExit symbol (net = .short) (net = .long))

end Strategies

/-! ## One edge for each row -/

section Sizes

variable {F : Type} [PriceFloat F] {frame : Frame F} {n : ℕ}

theorem length_both {as bs : List Bool} (ha : as.length = n) (hb : bs.length = n) :
    (both as bs).length = n := length_zipWith ha hb

omit [PriceFloat F] in
theorem length_against {compare : F → F → Bool} {level : F} {xs : List F} (hx : xs.length = n) :
    (against compare level xs).length = n := (List.length_map _).trans hx

omit [PriceFloat F] in
theorem length_crosses {before now : F → F → Bool} {xs ys prevXs prevYs : List F}
    (hx : xs.length = n) (hy : ys.length = n) (hpx : prevXs.length = n) (hpy : prevYs.length = n) :
    (crosses before now xs ys prevXs prevYs).length = n :=
  length_both (length_zipWith hpx hpy) (length_zipWith hx hy)

/-- The columns have the two signals, with one value for each row. -/
def HasEdges (n : ℕ) (columns : Outputs F) : Prop :=
  ∃ buy sell, columns.lookup "buy_signal" = some (flags buy) ∧
    columns.lookup "sell_signal" = some (flags sell) ∧ buy.length = n ∧ sell.length = n

theorem maBand_hasEdges {close ma : List F} (hclose : close.length = n) (hma : ma.length = n)
    (bandPct : ℚ) : HasEdges n (computeMaBandSignals close ma bandPct) := by
  have hupper : ∀ f : F → F, (ma.map f).length = n := fun f => (List.length_map _).trans hma
  exact ⟨_, _, rfl, rfl,
    length_crosses hclose (hupper _) (length_previous hclose) (length_previous (hupper _)),
    length_crosses hclose (hupper _) (length_previous hclose) (length_previous (hupper _))⟩

theorem length_prevRebalanceSign (rebalance : List Bool) (momentum : List F) :
    (prevRebalanceSign rebalance momentum).length = rebalance.length := length_scattered _ _ _

theorem momentum_hasEdges {rebalanceBars : ℤ} {momentum strength volatility : List F}
    (hmomentum : momentum.length = frame.rows.length) :
    HasEdges frame.rows.length
      (momentumColumns rebalanceBars frame momentum strength volatility) := by
  have hmask : (rebalanceMask rebalanceBars frame).length = frame.rows.length := by
    simp [rebalanceMask]
  have hsign := (length_prevRebalanceSign (rebalanceMask rebalanceBars frame) momentum).trans hmask
  exact ⟨_, _, rfl, rfl, length_zipWith hmask (length_zip hmomentum hsign),
    length_zipWith hmask (length_zip hmomentum hsign)⟩

omit [PriceFloat F] in
theorem HasEdges.cons {columns : Outputs F} (h : HasEdges n columns) (name : String)
    (column : Column F) (hbuy : name ≠ "buy_signal") (hsell : name ≠ "sell_signal") :
    HasEdges n ((name, column) :: columns) := by
  obtain ⟨buy, sell, hb, hs, hlengths⟩ := h
  exact ⟨buy, sell, (lookup_cons_of_ne _ _ hbuy.symm).trans hb,
    (lookup_cons_of_ne _ _ hsell.symm).trans hs, hlengths⟩

theorem tsmom_hasEdges (s : TSMOM) :
    Returns (s.computeIndicators frame) (HasEdges frame.rows.length) := by
  have hclose := length_column frame Row.close
  unfold TSMOM.computeIndicators
  cases s.tradingRule with
  | sign =>
    exact returns_bind fun volatility =>
      returns_pure (momentum_hasEdges (length_relativeChange _ hclose))
  | trend signalCap nwLags =>
    have htStat : Returns (computeRollingNeweyWestTStat
        ((logReturns (frame.column Row.close)).map finiteOrZero) s.lookbackBars nwLags)
        fun tStat => tStat.length = frame.rows.length := by
      unfold computeRollingNeweyWestTStat
      split
      · exact returns_error
      · refine returns_ok ((length_rolling _ _ _).trans ?_)
        rw [List.length_map, length_logReturns, hclose]
    exact returns_seq htStat fun tStat hlength => returns_bind fun volatility =>
      returns_pure ((momentum_hasEdges hlength).cons "t_stat" _ (by decide) (by decide))

theorem length_namedColumn {name : String} {xs : List F} (h : namedColumn frame name = some xs) :
    xs.length = frame.rows.length := by
  unfold namedColumn at h
  split at h
  case h_6 =>
    split at h
    · rw [← Option.some.inj h, Frame.column, List.length_map]
    · cases h
  all_goals rw [← Option.some.inj h, Frame.column, List.length_map]

/-- A frame of columns with one row for each bar. -/
def Rectangular (n : ℕ) (df : String → Option (List F)) : Prop :=
  ∀ name xs, df name = some xs → xs.length = n

omit [PriceFloat F] in
theorem Rectangular.update {df : String → Option (List F)} (h : Rectangular n df) (name : String)
    {xs : List F} (hxs : xs.length = n) : Rectangular n (Function.update df name (some xs)) := by
  intro key ys hys
  by_cases hkey : key = name
  · subst hkey
    rw [Function.update_self] at hys
    rw [← Option.some.inj hys, hxs]
  · rw [Function.update_of_ne hkey] at hys
    exact h key ys hys

omit [PriceFloat F] in
theorem isSome_update {df : String → Option (List F)} {key : String} (h : (df key).isSome)
    (name : String) (xs : List F) : (Function.update df name (some xs) key).isSome := by
  by_cases hkey : key = name
  · subst hkey
    rw [Function.update_self]
    rfl
  · rw [Function.update_of_ne hkey]
    exact h

omit [PriceFloat F] in
theorem Rectangular.length_getD {df : String → Option (List F)} (h : Rectangular n df)
    {key : String} (hkey : (df key).isSome) : ((df key).getD []).length = n := by
  obtain ⟨xs, hxs⟩ := Option.isSome_iff_exists.mp hkey
  rw [hxs, Option.getD_some, h key xs hxs]

theorem length_syntheticOpen (s : GatevPairs) {df : String → Option (List F)}
    (h : Rectangular n df) {close : List F} (hclose : close.length = n) :
    (s.syntheticOpen df close).length = n := by
  unfold GatevPairs.syntheticOpen
  split
  next openA openB hA hB => exact length_zipWith (h _ _ hA) (h _ _ hB)
  next => exact hclose

theorem pairs_hasEdges (s : GatevPairs) :
    Returns (s.computeIndicators frame) (HasEdges frame.rows.length) := by
  intro columns h
  unfold GatevPairs.computeIndicators at h
  split at h
  next closeA closeB hA hB =>
    obtain ⟨volA, -, h⟩ := bind_eq_ok.mp h
    obtain ⟨volB, -, h⟩ := bind_eq_ok.mp h
    rw [← pure_eq_ok.mp h]
    have hrows : Rectangular frame.rows.length (namedColumn frame) := fun _ _ => length_namedColumn
    have hclose : (List.zipWith sub closeA closeB).length = frame.rows.length :=
      length_zipWith (length_namedColumn hA) (length_namedColumn hB)
    have hwithClose := hrows.update "close" hclose
    have hopen := length_syntheticOpen s hwithClose hclose
    have hdf := ((hwithClose.update "open" hopen).update "high" hclose).update "low" hclose
    have hread : ∀ key, (namedColumn frame key).isSome → _ := fun key hkey =>
      hdf.length_getD (isSome_update (isSome_update (isSome_update (isSome_update hkey "close"
        (List.zipWith sub closeA closeB)) "open" (s.syntheticOpen _ _)) "high" _) "low" _)
    have hprices := length_zip (hread s.colA (by rw [hA]; rfl)) (hread s.colB (by rw [hB]; rfl))
    exact ⟨_, _, rfl, rfl, (List.length_map _).trans ((length_scan _ _ _).trans hprices),
      (List.length_map _).trans ((length_scan _ _ _).trans hprices)⟩
  next => cases h

theorem registered_hasEdges (s : RegisteredStrategy) :
    Returns (s.computeIndicators frame) (HasEdges frame.rows.length) := by
  have hclose := length_column frame Row.close
  cases s with
  | maCrossover s =>
    refine returns_seq (computeMa_length hclose) fun maShort hshort => ?_
    refine returns_seq (computeMa_length hclose) fun maLong hlong => returns_pure ?_
    have hdelta : (List.zipWith sub maShort maLong).length = frame.rows.length :=
      length_zipWith hshort hlong
    exact ⟨_, _, rfl, rfl,
      length_both (length_against hdelta) (length_against (length_previous hdelta)),
      length_both (length_against hdelta) (length_against (length_previous hdelta))⟩
  | rsiMeanReversion s =>
    refine returns_seq (computeRsi_length hclose) fun rsi hrsi => returns_pure ?_
    exact ⟨_, _, rfl, rfl,
      length_both (length_against (length_previous hrsi)) (length_against hrsi),
      length_both (length_against (length_previous hrsi)) (length_against hrsi)⟩
  | bollingerReversion s =>
    refine returns_seq (computeBollingerBands_length hclose) fun bands hbands => returns_pure ?_
    obtain ⟨hupper, -, hlower⟩ := hbands
    exact ⟨_, _, rfl, rfl,
      length_crosses hclose hlower (length_previous hclose) (length_previous hlower),
      length_crosses hclose hupper (length_previous hclose) (length_previous hupper)⟩
  | donchianBreakout s =>
    refine returns_seq (computeDonchianChannels_length (length_column frame Row.high)
      (length_column frame Row.low)) fun channel hchannel => returns_pure ?_
    obtain ⟨hupper, hlower⟩ := hchannel
    exact ⟨_, _, rfl, rfl,
      length_crosses hclose hupper (length_previous hclose) (length_previous hupper),
      length_crosses hclose hlower (length_previous hclose) (length_previous hlower)⟩
  | macd s =>
    refine returns_seq (computeMacd_length hclose) fun lines hlines => returns_pure ?_
    obtain ⟨hmacd, hsignal, -⟩ := hlines
    exact ⟨_, _, rfl, rfl,
      length_crosses hmacd hsignal (length_previous hmacd) (length_previous hsignal),
      length_crosses hmacd hsignal (length_previous hmacd) (length_previous hsignal)⟩
  | trb s =>
    refine returns_seq (P := HasEdges frame.rows.length) ?_ fun signals hsignals =>
      returns_pure (hsignals.cons _ _ (by decide) (by decide))
    refine returns_seq (computeTrbChannel_length hclose) fun channel hchannel => returns_pure ?_
    obtain ⟨hhigh, hlow, hupper, hlower⟩ := hchannel
    exact ⟨_, _, rfl, rfl, length_crosses hclose hupper (length_previous hclose) hhigh,
      length_crosses hclose hlower (length_previous hclose) hlow⟩
  | fma s =>
    refine returns_seq (computeMa_length hclose) fun ma hma => returns_pure ?_
    exact ((maBand_hasEdges hclose hma _).cons _ _ (by decide) (by decide)).cons _ _ (by decide)
      (by decide)
  | vma s =>
    refine returns_seq (computeMa_length hclose) fun ma hma => returns_pure ?_
    exact (maBand_hasEdges hclose hma _).cons _ _ (by decide) (by decide)
  | tsmom s => exact tsmom_hasEdges s
  | hurstTrendBlend s =>
    have hsign : ∀ lookback, (s.excessSign (frame.column Row.close) lookback).length =
        frame.rows.length := fun lookback =>
      (List.length_map _).trans (length_relativeChange _ hclose)
    refine returns_bind fun volatility => returns_pure (((HasEdges.cons (momentum_hasEdges ?_)
      "sig_3" _ (by decide) (by decide)).cons "sig_2" _ (by decide) (by decide)).cons "sig_1" _
      (by decide) (by decide))
    have hblend := length_zipWith (f := fun (ab c : F) => div (add ab c) (ofRat 3))
      (length_zipWith (f := add) (hsign s.lookback₁) (hsign s.lookback₂)) (hsign s.lookback₃)
    split
    · exact (length_shift _ _ _).trans hblend
    · exact hblend
  | gatevPairs s => exact pairs_hasEdges s

/-- A latent model gives a value for each row. -/
def Instance.Aligned (frame : Frame F) : Instance F → Prop
  | .registered _ => True
  | .composite strategy => ∀ l ∈ latentsOf strategy frame, l.Aligned frame.rows.length

theorem readSignal_length {df : DataFrame F} (hsized : SizedColumns frame df) (column : String) :
    Returns (readSignal df column) fun signals => signals.length = frame.rows.length := by
  refine returns_seq (P := fun c : Column F => c.length = frame.rows.length) ?_
    fun c hc => returns_pure ?_
  · intro c hc
    exact hsized column c (readColumn_eq_ok.mp hc)
  · rw [Column.signals, List.length_map, Column.length_flags, hc]

theorem composite_hasEdges {strategy : Strategy F}
    (haligned : ∀ l ∈ latentsOf strategy frame, l.Aligned frame.rows.length) :
    Returns (freshIndicators strategy frame) fun indicators =>
      indicators.entryLongSignal.length = frame.rows.length ∧
        indicators.entryShortSignal.length = frame.rows.length := by
  cases hplan : strategy.plan with
  | error e =>
    simp only [freshIndicators, computeIndicators, hplan]
    exact returns_error
  | ok plan =>
    have haccepted := accepted_of_plan hplan
    have hcompiled := exists_compiled (compilePlan_of_plan hplan)
    have hadvances : ∀ before compiled after, plan.sortedNodes = before ++ compiled :: after →
        (nodeMemo frame (latentsOf strategy frame)).Advances
          (Present frame (latentsOf strategy frame)) (NodeRuns frame (latentsOf strategy frame))
          ([] ++ before) compiled := by
      intro before compiled after hsplit
      obtain ⟨id, hid⟩ := hcompiled compiled (by simp [hsplit])
      exact advances (fun node hn => (validateNode_ok (haccepted.node hn)).2.2) haligned
        (fun c hc => hcompiled c (by rw [hsplit]; exact List.mem_append_left _ hc)) hid
    obtain ⟨-, hend⟩ := Memo.run_succeeds hadvances (present_start frame (latentsOf strategy frame))
    rw [freshIndicators_eq frame hplan]
    intro indicators hindicators
    obtain ⟨df, hdf, hassemble⟩ := bind_eq_ok.mp hindicators
    obtain ⟨cache, hpresent⟩ := hend df hdf
    rw [assembleSignals_eq] at hassemble
    obtain ⟨long, hlong, hassemble⟩ := bind_eq_ok.mp hassemble
    obtain ⟨short, hshort, hassemble⟩ := bind_eq_ok.mp hassemble
    obtain ⟨exitLong, -, hassemble⟩ := bind_eq_ok.mp hassemble
    obtain ⟨exitShort, -, hassemble⟩ := bind_eq_ok.mp hassemble
    obtain rfl := pure_eq_ok.mp hassemble
    exact ⟨readSignal_length hpresent.sized _ long hlong,
      readSignal_length hpresent.sized _ short hshort⟩

theorem length_edges {i : Instance F} (haligned : i.Aligned frame) :
    Returns (i.edges frame) fun edges =>
      edges.buy.length = frame.rows.length ∧ edges.sell.length = frame.rows.length := by
  cases i with
  | registered s =>
    refine returns_seq (registered_hasEdges s) fun columns hcolumns => ?_
    obtain ⟨buy, sell, hbuy, hsell, hlengths⟩ := hcolumns
    rw [hbuy, hsell]
    refine returns_pure ?_
    rw [signals_flags, signals_flags]
    exact hlengths
  | composite strategy =>
    exact returns_seq (composite_hasEdges haligned) fun indicators h => returns_pure h

end Sizes

end QBackend.CompositeEntries
