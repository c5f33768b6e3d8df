import QBackend.CompositeEntry

/-!
# Net stances

What a composite of several strategies trades: the managed last edges of its strategies, in and out
of the market by reversals, from the bars so far only.
-/

namespace QBackend.CompositeEntries

open GenomeDsl CausalSeries PriceFloat FallibleSteps RegisteredStrategies
open Execution (Time Trade Signal ExecutionSide)

/-! ## Last edges -/

section LastEdges

variable {edges : Edges} {n bar : ℕ}

def Edges.QuietAt (edges : Edges) (bar : ℕ) : Prop :=
  edges.buy[bar]? = some false ∧ edges.sell[bar]? = some false

/-- The side of the last edge up to a bar; a row with both edges is one to buy. -/
def LastEdge (edges : Edges) (bar : ℕ) : Stance → Prop
  | .long => ∃ j ≤ bar, edges.buy[j]? = some true ∧ ∀ k, j < k → k ≤ bar → edges.QuietAt k
  | .short => ∃ j ≤ bar, (edges.buy[j]? = some false ∧ edges.sell[j]? = some true) ∧
      ∀ k, j < k → k ≤ bar → edges.QuietAt k
  | .flat => ∀ k ≤ bar, edges.QuietAt k

/-- The stance that is taken at a row, by its edges. -/
theorem edgeStance_at (hbuy : edges.buy.length = n) (hsell : edges.sell.length = n)
    (hbar : bar < n) :
    ((List.zipWith edgeStance edges.buy edges.sell)[bar]? = some none ↔ edges.QuietAt bar) ∧
      ((List.zipWith edgeStance edges.buy edges.sell)[bar]? = some (some .long) ↔
        edges.buy[bar]? = some true) ∧
      ((List.zipWith edgeStance edges.buy edges.sell)[bar]? = some (some .short) ↔
        edges.buy[bar]? = some false ∧ edges.sell[bar]? = some true) ∧
      (List.zipWith edgeStance edges.buy edges.sell)[bar]? ≠ some (some .flat) := by
  obtain ⟨buy, hb⟩ : ∃ buy, edges.buy[bar]? = some buy :=
    ⟨_, List.getElem?_eq_getElem (hbar.trans_eq hbuy.symm)⟩
  obtain ⟨sell, hs⟩ : ∃ sell, edges.sell[bar]? = some sell :=
    ⟨_, List.getElem?_eq_getElem (hbar.trans_eq hsell.symm)⟩
  have hat : (List.zipWith edgeStance edges.buy edges.sell)[bar]? = some (edgeStance buy sell) :=
    List.getElem?_zipWith_eq_some.mpr ⟨_, _, hb, hs, rfl⟩
  unfold Edges.QuietAt
  rw [hat, hb, hs]
  cases buy <;> cases sell <;> decide

theorem deriveStance_held (hbuy : edges.buy.length = n) (hsell : edges.sell.length = n)
    (hbar : bar < n) :
    (deriveStance edges)[bar]? =
      some ((heldBefore (List.zipWith edgeStance edges.buy edges.sell) (bar + 1)).getD .flat) := by
  have hlength : (List.zipWith edgeStance edges.buy edges.sell).length = n :=
    length_zipWith hbuy hsell
  unfold deriveStance
  rw [List.getElem?_map,
    getElem?_forwardFill (List.getElem?_eq_getElem (hbar.trans_eq hlength.symm)), Option.map_some]

theorem deriveStance_iff (hbuy : edges.buy.length = n) (hsell : edges.sell.length = n)
    (hbar : bar < n) (stance : Stance) :
    (deriveStance edges)[bar]? = some stance ↔ LastEdge edges bar stance := by
  have hlength : (List.zipWith edgeStance edges.buy edges.sell).length = n :=
    length_zipWith hbuy hsell
  have hquiet : ∀ {j}, (∀ k, j < k → k ≤ bar →
      (List.zipWith edgeStance edges.buy edges.sell)[k]? = some none) ↔
      ∀ k, j < k → k ≤ bar → edges.QuietAt k := fun {j} =>
    forall_congr' fun k => imp_congr_right fun _ => imp_congr_right fun hk =>
      (edgeStance_at hbuy hsell (hk.trans_lt hbar)).1
  have hsome := fun side : Stance => heldBefore_eq_some (a := side) (hbar.trans_eq hlength.symm)
  rw [deriveStance_held hbuy hsell hbar, Option.some.injEq]
  cases stance with
  | long =>
    rw [Option.getD_eq_iff, hsome]
    simp only [reduceCtorEq, and_false, or_false]
    refine exists_congr fun j => and_congr_right fun hj => and_congr ?_ hquiet
    exact (edgeStance_at hbuy hsell (hj.trans_lt hbar)).2.1
  | short =>
    rw [Option.getD_eq_iff, hsome]
    simp only [reduceCtorEq, and_false, or_false]
    refine exists_congr fun j => and_congr_right fun hj => and_congr ?_ hquiet
    exact (edgeStance_at hbuy hsell (hj.trans_lt hbar)).2.2.1
  | flat =>
    -- no row takes a flat stance
    have hnever : ¬IsLast (List.zipWith edgeStance edges.buy edges.sell) bar .flat := by
      rintro ⟨j, hj, hat, -⟩
      exact (edgeStance_at hbuy hsell (hj.trans_lt hbar)).2.2.2 hat
    rw [Option.getD_eq_iff, hsome, heldBefore_eq_none (hbar.trans_eq hlength.symm)]
    simp only [hnever, false_or, and_true]
    refine forall_congr' fun k => ?_
    rw [Nat.lt_succ_iff]
    exact imp_congr_right fun hk => (edgeStance_at hbuy hsell (hk.trans_lt hbar)).1

end LastEdges

/-! ## The net stance -/

section Net

variable {F : Type} [PriceFloat F] {s : CompositeEntryStrategy F} {frame : Frame F}
  {columns : NetColumns} {bar : ℕ}

theorem computeIndicators_ok (h : s.computeIndicators frame = .ok columns) :
    ∃ edges, s.instances.mapM (Instance.edges frame) = .ok edges ∧
      columns.stances = edges.map deriveStance ∧
      columns.netStance = ((List.range frame.rows.length).map fun bar =>
        s.manager.combine (edges.map fun e => (deriveStance e)[bar]?.getD .flat)) ∧
      columns.netLongSignal = turnsTo .long columns.netStance ∧
      columns.netShortSignal = turnsTo .short columns.netStance := by
  obtain ⟨edges, hedges, h⟩ := bind_eq_ok.mp h
  obtain rfl := pure_eq_ok.mp h
  refine ⟨edges, hedges, rfl, ?_, rfl, rfl⟩
  simp only [List.map_map]
  rfl

/-- At each bar the manager combines the sides of the last edges of the strategies. -/
theorem composite_entry_meaning (s : CompositeEntryStrategy F) (frame : Frame F)
    (haligned : ∀ i ∈ s.instances, i.Aligned frame) {columns : NetColumns}
    (h : s.computeIndicators frame = .ok columns) :
    ∃ edges, List.Forall₂ (fun (i : Instance F) e => i.edges frame = .ok e) s.instances edges ∧
      ∀ bar < frame.rows.length, ∃ stances,
        List.Forall₂ (fun e stance => LastEdge e bar stance) edges stances ∧
        columns.netStance[bar]? = some (s.manager.combine stances) := by
  obtain ⟨edges, hedges, -, hnet, -⟩ := computeIndicators_ok h
  refine ⟨edges, forall₂_of_mapM hedges, fun bar hbar => ?_⟩
  refine ⟨edges.map fun e => (deriveStance e)[bar]?.getD .flat, ?_, ?_⟩
  · rw [List.forall₂_map_right_iff, List.forall₂_same]
    intro e he
    obtain ⟨i, hi, hedge⟩ := (mem_of_mapM hedges).mp he
    obtain ⟨hbuy, hsell⟩ := length_edges (haligned i hi) e hedge
    obtain ⟨stance, hstance⟩ : ∃ stance, (deriveStance e)[bar]? = some stance :=
      ⟨_, deriveStance_held hbuy hsell hbar⟩
    rw [hstance]
    exact (deriveStance_iff hbuy hsell hbar stance).mp hstance
  · rw [hnet, List.getElem?_map, List.getElem?_range hbar, Option.map_some]

/-- A crossing of averages and a genome that compares the close with the one before, both of which
have to be for a side. -/
def crossingAndShift : CompositeEntryStrategy (Option ℚ) where
  instances := [.registered (.maCrossover ⟨1, 2, 0, .sma, .ema⟩), .composite (shiftStrategy 1)]
  manager := .majority 2

theorem crossingAndShift_aligned (frame : Frame (Option ℚ)) :
    ∀ i ∈ crossingAndShift.instances, i.Aligned frame := by
  intro i hi
  obtain rfl | hi := List.mem_cons.mp hi
  · trivial
  · obtain rfl := List.mem_singleton.mp hi
    exact fun l hl => by cases hl

theorem crossingAndShift_computes (n : ℕ) (hn : n = 1 ∨ n = 3) :
    ∃ columns, crossingAndShift.computeIndicators (closeFrame n) = .ok columns := by
  have hsome : (crossingAndShift.computeIndicators (closeFrame n)).toOption.isSome = true := by
    obtain rfl | rfl := hn <;> decide +kernel
  cases h : crossingAndShift.computeIndicators (closeFrame n) with
  | error e =>
    rw [h] at hsome
    cases hsome
  | ok columns => exact ⟨columns, rfl⟩

theorem crossingAndShift_meaning : ∃ columns edges,
    crossingAndShift.computeIndicators (closeFrame 3) = .ok columns ∧
      List.Forall₂ (fun (i : Instance (Option ℚ)) e => i.edges (closeFrame 3) = .ok e)
        crossingAndShift.instances edges ∧
      ∃ stances, List.Forall₂ (fun e stance => LastEdge e 1 stance) edges stances ∧
        columns.netStance[1]? = some (combineMajority 2 stances) := by
  obtain ⟨columns, hcolumns⟩ := crossingAndShift_computes 3 (.inr rfl)
  obtain ⟨edges, hedges, hbars⟩ := composite_entry_meaning crossingAndShift (closeFrame 3)
    (crossingAndShift_aligned _) hcolumns
  obtain ⟨stances, hstances, hnet⟩ := hbars 1 (by decide)
  refine ⟨columns, edges, hcolumns, hedges, stances, hstances, hnet.trans ?_⟩
  cases stances with
  | nil => rfl
  | cons stance stances => rfl

end Net

/-! ## Reversals -/

section Reversals

def reversed : ExecutionSide → ExecutionSide
  | .buy => .sell
  | .sell => .buy

def sideStance : ExecutionSide → Stance
  | .buy => .long
  | .sell => .short

variable {net : List Stance} {bar : ℕ}

/-- The net stance turns to a side at a bar that has it, when the bar before has not. -/
theorem turnsTo_iff {stance : Stance} :
    signalAt (some (turnsTo stance net)) bar = true ↔
      net[bar]? = some stance ∧ (Stance.flat :: net)[bar]? ≠ some stance := by
  unfold turnsTo signalAt
  rw [shift_one, Option.bind_some]
  by_cases hbar : bar < net.length
  · obtain ⟨now, hnow⟩ : ∃ now, net[bar]? = some now := ⟨_, List.getElem?_eq_getElem hbar⟩
    obtain ⟨prev, hprev⟩ : ∃ prev, (Stance.flat :: net)[bar]? = some prev :=
      ⟨_, List.getElem?_eq_getElem (Nat.lt_succ_of_lt hbar)⟩
    have hat : (List.zipWith (fun now prev => decide (now = stance ∧ prev ≠ stance)) net
        ((Stance.flat :: net).take net.length))[bar]? =
          some (decide (now = stance ∧ prev ≠ stance)) :=
      List.getElem?_zipWith_eq_some.mpr
        ⟨_, _, hnow, (List.getElem?_take_of_lt hbar).trans hprev, rfl⟩
    rw [hat, hnow, hprev]
    simp
  · have hnone : net[bar]? = none := List.getElem?_eq_none (Nat.not_lt.mp hbar)
    rw [List.getElem?_zipWith, hnone]
    simp

variable {F : Type} [PriceFloat F]

omit [PriceFloat F] in
theorem enterOn_side {symbol : String} {buy sell : Bool} {strength : F} (side : ExecutionSide) :
    (∃ signal ∈ enterOn symbol buy sell strength, signal.side = side) ↔
      (side = .buy ∧ buy = true) ∨ (side = .sell ∧ buy = false ∧ sell = true) := by
  cases side <;> cases buy <;> cases sell <;> simp [enterOn]

theorem entry_iff {columns : NetColumns} {symbol : String}
    (hlong : columns.netLongSignal = turnsTo .long columns.netStance)
    (hshort : columns.netShortSignal = turnsTo .short columns.netStance) (side : ExecutionSide)
    (bar : ℕ) :
    (∃ signal ∈ columns.checkEntryConditions (F := F) symbol bar, signal.side = side) ↔
      columns.netStance[bar]? = some (sideStance side) ∧
        (Stance.flat :: columns.netStance)[bar]? ≠ some (sideStance side) := by
  have hnotBoth : signalAt (some columns.netShortSignal) bar = true →
      signalAt (some columns.netLongSignal) bar = false := by
    rw [hlong, hshort, turnsTo_iff, ← Bool.not_eq_true, turnsTo_iff]
    rintro ⟨hs, -⟩ ⟨hl, -⟩
    rw [hs] at hl
    cases hl
  unfold NetColumns.checkEntryConditions
  rw [enterOn_side]
  cases side with
  | buy =>
    simp only [true_and, reduceCtorEq, false_and, or_false]
    rw [hlong, turnsTo_iff]
    rfl
  | sell =>
    simp only [true_and, reduceCtorEq, false_and, false_or]
    rw [and_iff_right_of_imp hnotBoth, hshort, turnsTo_iff]
    rfl

theorem sideExit_net {net : List Stance} {symbol : String} {bar : ℕ} (trade : Trade) :
    sideExit symbol (net[bar]?.getD .flat = .short) (net[bar]?.getD .flat = .long) trade =
      if trade.symbol = symbol ∧ net[bar]? = some (sideStance (reversed trade.action)) then
        some { symbol, action := .close }
      else none := by
  have hnet : ∀ stance : Stance, stance ≠ .flat →
      (net[bar]?.getD .flat = stance ↔ net[bar]? = some stance) := by
    intro stance hne
    cases net[bar]? with
    | none => simpa using hne.symm
    | some now => simp
  unfold sideExit
  by_cases hsymbol : trade.symbol = symbol
  · cases haction : trade.action with
    | buy => simp [hsymbol, hnet .short (by decide), reversed, sideStance]
    | sell => simp [hsymbol, hnet .long (by decide), reversed, sideStance]
  · simp [hsymbol]

theorem checkExitConditions_eq (columns : NetColumns) (symbol : String) (bar : ℕ)
    (openTrades : List Trade) :
    columns.checkExitConditions symbol bar openTrades =
      (openTrades.filter fun trade => trade.symbol = symbol ∧
        columns.netStance[bar]? = some (sideStance (reversed trade.action))).map
          fun _ => { symbol, action := .close } := by
  unfold NetColumns.checkExitConditions
  induction openTrades with
  | nil => rfl
  | cons trade trades ih =>
    rw [List.filterMap_cons, sideExit_net, List.filter_cons]
    by_cases hclosed : trade.symbol = symbol ∧
        columns.netStance[bar]? = some (sideStance (reversed trade.action))
    · simp only [if_pos hclosed, decide_eq_true hclosed, if_true, List.map_cons]
      rw [ih]
    · simp only [if_neg hclosed, decide_eq_false hclosed, Bool.false_eq_true, if_false]
      exact ih

/-- An entry where the net stance turns to a side, and a close of every trade that the net stance is
against, whatever the strategies that it is made of say of exits. -/
theorem composite_entry_reverses (s : CompositeEntryStrategy F) (frame : Frame F)
    {columns : NetColumns} (h : s.computeIndicators frame = .ok columns) (symbol : String)
    (bar : ℕ) :
    (∀ side, (∃ signal ∈ columns.checkEntryConditions (F := F) symbol bar, signal.side = side) ↔
      columns.netStance[bar]? = some (sideStance side) ∧
        (Stance.flat :: columns.netStance)[bar]? ≠ some (sideStance side)) ∧
      ∀ openTrades, columns.checkExitConditions symbol bar openTrades =
        (openTrades.filter fun trade => trade.symbol = symbol ∧
          columns.netStance[bar]? = some (sideStance (reversed trade.action))).map
            fun _ => { symbol, action := .close } := by
  obtain ⟨edges, -, -, -, hlong, hshort⟩ := computeIndicators_ok h
  exact ⟨fun side => entry_iff hlong hshort side bar, checkExitConditions_eq columns symbol bar⟩

theorem crossingAndShift_reverses : ∃ columns,
    crossingAndShift.computeIndicators (closeFrame 3) = .ok columns ∧
      ((∃ signal ∈ columns.checkEntryConditions (F := Option ℚ) "X" 2, signal.side = .buy) ↔
        columns.netStance[2]? = some .long ∧ columns.netStance[1]? ≠ some .long) ∧
      columns.checkExitConditions "X" 2 [⟨"1", "X", .sell, 1, 0, 0, 1⟩] =
        if columns.netStance[2]? = some .long then [{ symbol := "X", action := .close }]
        else [] := by
  obtain ⟨columns, hcolumns⟩ := crossingAndShift_computes 3 (.inr rfl)
  obtain ⟨hentry, hexit⟩ := composite_entry_reverses crossingAndShift (closeFrame 3) hcolumns "X" 2
  refine ⟨columns, hcolumns, hentry .buy, ?_⟩
  rw [hexit, List.filter_cons, List.filter_nil]
  by_cases hlong : columns.netStance[2]? = some .long
  · simp [hlong, reversed, sideStance]
  · simp [hlong, reversed, sideStance]

end Reversals

/-! ## Causality -/

section Causality

variable {F : Type} [PriceFloat F] {frame : Frame F} {n : ℕ}

def Edges.take (n : ℕ) (edges : Edges) : Edges := ⟨edges.buy.take n, edges.sell.take n⟩

def NetColumns.take (n : ℕ) (columns : NetColumns) : NetColumns where
  stances := columns.stances.map (List.take n)
  netStance := columns.netStance.take n
  netLongSignal := columns.netLongSignal.take n
  netShortSignal := columns.netShortSignal.take n

/-- No node of a genome looks ahead. -/
def Instance.LooksBack : Instance F → Prop
  | .registered _ => True
  | .composite strategy => (∀ model ∈ strategy.latentModel, model.Causal) ∧
      strategy.genome.LooksBack strategy.trial

theorem deriveStance_take (edges : Edges) :
    deriveStance (edges.take n) = (deriveStance edges).take n := by
  unfold deriveStance forwardFill Edges.take
  rw [zipWith_take, scan_causal, List.map_take]

theorem turnsTo_take (stance : Stance) (net : List Stance) :
    turnsTo stance (net.take n) = (turnsTo stance net).take n := by
  unfold turnsTo
  rw [shift_causal .flat (by decide) n net, zipWith_take]

theorem registered_edges (s : RegisteredStrategy) :
    (Instance.registered (F := F) s).edges frame = s.computeIndicators frame >>= fun columns =>
      .ok ⟨((columns.lookup "buy_signal").map Column.signals).getD [],
        ((columns.lookup "sell_signal").map Column.signals).getD []⟩ := by
  refine bind_congr_ok fun columns hcolumns => ?_
  obtain ⟨buy, sell, hbuy, hsell, -⟩ := registered_hasEdges s columns hcolumns
  rw [hbuy, hsell]
  rfl

theorem edges_cuts {i : Instance F} (hback : i.LooksBack) (hn : 0 < n) :
    MapsTo (Edges.take n) (i.edges frame) (i.edges (frame.take n)) := by
  cases i with
  | registered s =>
    rw [registered_edges, registered_edges]
    refine mapsTo_bind (s.cuts n frame) fun columns => mapsTo_ok ?_
    have hsignals : ∀ name, (((takeOutputs n columns).lookup name).map Column.signals).getD [] =
        (((columns.lookup name).map Column.signals).getD []).take n := by
      intro name
      rw [lookup_takeOutputs]
      cases columns.lookup name with
      | none => simp
      | some column => exact Column.signals_take n column
    rw [hsignals, hsignals]
    rfl
  | composite strategy =>
    refine mapsTo_bind (freshIndicators_cuts hback.1 hback.2 frame hn) fun indicators => ?_
    exact mapsTo_pure rfl

theorem composite_cuts {s : CompositeEntryStrategy F} (hback : ∀ i ∈ s.instances, i.LooksBack)
    (hn : 0 < n) :
    MapsTo (NetColumns.take n) (s.computeIndicators frame)
      (s.computeIndicators (frame.take n)) := by
  refine mapsTo_bind (mapsTo_mapM s.instances fun i hi => edges_cuts (hback i hi) hn)
    fun edges => mapsTo_pure ?_
  have hstances : (edges.map (Edges.take n)).map deriveStance =
      (edges.map deriveStance).map (List.take n) := by
    rw [List.map_map, List.map_map]
    exact List.map_congr_left fun e _ => deriveStance_take e
  have hnet : (List.range (frame.take n).rows.length).map (fun bar =>
      s.manager.combine (((edges.map deriveStance).map (List.take n)).map fun stance =>
        stance[bar]?.getD .flat)) = ((List.range frame.rows.length).map fun bar =>
      s.manager.combine ((edges.map deriveStance).map fun stance =>
        stance[bar]?.getD .flat)).take n := by
    rw [← List.map_take, List.take_range, show (frame.take n).rows = frame.rows.take n from rfl,
      List.length_take]
    refine List.map_congr_left fun bar hbar => ?_
    have hlt : bar < n := (List.mem_range.mp hbar).trans_le (Nat.min_le_left _ _)
    rw [List.map_map]
    simp only [Function.comp_def, getElem?_take_of_lt hlt]
  rw [hstances, hnet, turnsTo_take, turnsTo_take]
  rfl

/-- Frames that agree up to a bar, on both of which the composite computes: the stances and signals
agree up to the bar, and so does what is said of entries and exits at these bars. -/
theorem composite_entry_causal (s : CompositeEntryStrategy F)
    (hback : ∀ i ∈ s.instances, i.LooksBack) {frame frame' : Frame F} {i : ℕ}
    (hagree : frame.take (i + 1) = frame'.take (i + 1)) {columns columns' : NetColumns}
    (hcompute : s.computeIndicators frame = .ok columns)
    (hcompute' : s.computeIndicators frame' = .ok columns') :
    columns.take (i + 1) = columns'.take (i + 1) ∧
      ∀ bar ≤ i, ∀ symbol,
        columns.checkEntryConditions (F := F) symbol bar =
          columns'.checkEntryConditions symbol bar ∧
        ∀ openTrades, columns.checkExitConditions symbol bar openTrades =
          columns'.checkExitConditions symbol bar openTrades := by
  have hcolumns : (s.computeIndicators frame).map (NetColumns.take (i + 1)) =
      (s.computeIndicators frame').map (NetColumns.take (i + 1)) := by
    rw [← composite_cuts hback (Nat.succ_pos i), ← composite_cuts hback (Nat.succ_pos i), hagree]
  rw [hcompute, hcompute'] at hcolumns
  have htaken : columns.take (i + 1) = columns'.take (i + 1) := Except.ok.inj hcolumns
  refine ⟨htaken, fun bar hbar symbol => ?_⟩
  have hlt : bar < i + 1 := Nat.lt_succ_of_le hbar
  have hat : ∀ {α : Type} {f : NetColumns → List α},
      (∀ c, f (NetColumns.take (i + 1) c) = (f c).take (i + 1)) →
      (f columns)[bar]? = (f columns')[bar]? := by
    intro α f hf
    rw [← getElem?_take_of_lt hlt (f columns), ← hf, htaken, hf, getElem?_take_of_lt hlt]
  have hnet := hat (f := NetColumns.netStance) fun _ => rfl
  have hlong := hat (f := NetColumns.netLongSignal) fun _ => rfl
  have hshort := hat (f := NetColumns.netShortSignal) fun _ => rfl
  constructor
  · simp only [NetColumns.checkEntryConditions, signalAt, Option.bind_some, hlong, hshort]
  · intro openTrades
    simp only [NetColumns.checkExitConditions, hnet]

theorem crossingAndShift_causal : ∃ columns columns',
    crossingAndShift.computeIndicators (closeFrame 1) = .ok columns ∧
      crossingAndShift.computeIndicators (closeFrame 3) = .ok columns' ∧
      columns.take 1 = columns'.take 1 := by
  have hback : ∀ i ∈ crossingAndShift.instances, i.LooksBack := by
    intro i hi
    obtain rfl | hi := List.mem_cons.mp hi
    · trivial
    · obtain rfl := List.mem_singleton.mp hi
      refine ⟨fun model hmodel => ?_, looksBack_shift⟩
      cases hmodel
  have hagree : (closeFrame 1).take 1 = (closeFrame 3).take 1 := rfl
  obtain ⟨columns, hcolumns⟩ := crossingAndShift_computes 1 (.inl rfl)
  obtain ⟨columns', hcolumns'⟩ := crossingAndShift_computes 3 (.inr rfl)
  exact ⟨columns, columns', hcolumns, hcolumns',
    (composite_entry_causal crossingAndShift hback (i := 0) hagree hcolumns hcolumns').1⟩

end Causality

end QBackend.CompositeEntries
