import QBackend.BacktestEngine
import QBackend.OrderedSeries
import Mathlib.Algebra.BigOperators.Group.List.Basic

/-!
# Equity curves

`build_equity_curve` of `optimization/metrics.py`: a point at the start, one after each exit with
the capital reached, and one at the end. Of the points at one time the last stays.
-/

namespace QBackend.OrderedSeries

/-! ## The last row of each key -/

section LastOfEach

variable {Row Key : Type*} [LinearOrder Key] (key : Row → Key)

/-- Of the rows with one key, the last. -/
def lastOfEach : List Row → List Row
  | [] => []
  | r :: rest => if key r ∈ rest.map key then lastOfEach rest else r :: lastOfEach rest

/-- The last row of each key, in the order of the keys. -/
def lastSeries (rows : List Row) : List Row :=
  (lastOfEach key rows).insertionSort (fun r s => key r ≤ key s)

variable {key} {rows : List Row} {r : Row}

theorem lastOfEach_nil : lastOfEach key [] = [] := rfl

theorem lastOfEach_cons (r : Row) (rest : List Row) : lastOfEach key (r :: rest) =
    if key r ∈ rest.map key then lastOfEach key rest else r :: lastOfEach key rest := rfl

theorem mem_lastOfEach : r ∈ lastOfEach key rows ↔
    ∃ before after, rows = before ++ r :: after ∧ key r ∉ after.map key := by
  induction rows with
  | nil => simp [lastOfEach_nil]
  | cons x rest ih =>
    have hlater : r ∈ lastOfEach key rest → ∃ before after, x :: rest = before ++ r :: after ∧
        key r ∉ after.map key := by
      intro hr
      obtain ⟨before, after, rfl, hafter⟩ := ih.mp hr
      exact ⟨x :: before, after, rfl, hafter⟩
    rw [lastOfEach_cons]
    constructor
    · intro hr
      split at hr
      · exact hlater hr
      next hnew =>
        obtain rfl | hr := List.mem_cons.mp hr
        · exact ⟨[], rest, rfl, hnew⟩
        · exact hlater hr
    · rintro ⟨before, after, hsplit, hafter⟩
      cases before with
      | nil =>
        cases hsplit
        rw [if_neg hafter]
        exact List.mem_cons_self
      | cons first before =>
        cases hsplit
        have hr := ih.mpr ⟨before, after, rfl, hafter⟩
        split
        · exact hr
        · exact List.mem_cons_of_mem _ hr

theorem nodup_lastOfEach (rows : List Row) : ((lastOfEach key rows).map key).Nodup := by
  induction rows with
  | nil => exact List.nodup_nil
  | cons x rest ih =>
    rw [lastOfEach_cons]
    split
    · exact ih
    next hnew =>
      rw [List.map_cons, List.nodup_cons]
      refine ⟨fun hmem => hnew ?_, ih⟩
      obtain ⟨r, hr, hkey⟩ := List.mem_map.mp hmem
      obtain ⟨before, after, rfl, -⟩ := mem_lastOfEach.mp hr
      exact List.mem_map.mpr ⟨r, by simp, hkey⟩

theorem mem_map_lastOfEach {k : Key} (hk : k ∈ rows.map key) :
    k ∈ (lastOfEach key rows).map key := by
  induction rows with
  | nil => cases hk
  | cons x rest ih =>
    rw [lastOfEach_cons]
    split
    next hlater =>
      obtain rfl | hk := List.mem_cons.mp hk
      · exact ih hlater
      · exact ih hk
    · obtain rfl | hk := List.mem_cons.mp hk
      · exact List.mem_cons_self
      · exact List.mem_cons_of_mem _ (ih hk)

theorem ordered_lastSeries (rows : List Row) : Ordered key (lastSeries key rows) := by
  have hsorted : (lastSeries key rows).Pairwise fun r s => key r ≤ key s :=
    List.pairwise_insertionSort _ _
  have hdistinct : (lastSeries key rows).Pairwise fun r s => key r ≠ key s := by
    have hnodup : ((lastOfEach key rows).map key).Nodup := nodup_lastOfEach rows
    rw [List.Nodup, List.pairwise_map] at hnodup
    exact hnodup.perm (List.perm_insertionSort _ _).symm fun h => h.symm
  exact (hsorted.and hdistinct).imp fun h => lt_of_le_of_ne h.1 h.2

theorem getLast_lastSeries (hr : (lastSeries key rows).getLast? = some r) :
    (∃ before after, rows = before ++ r :: after ∧ key r ∉ after.map key) ∧
      ∀ x ∈ rows, key x ≤ key r := by
  have hmem : r ∈ lastOfEach key rows :=
    (List.mem_insertionSort _).mp (List.mem_of_getLast? hr)
  refine ⟨mem_lastOfEach.mp hmem, fun x hx => ?_⟩
  have hkept : key x ∈ (lastOfEach key rows).map key := mem_map_lastOfEach (List.mem_map_of_mem hx)
  obtain ⟨y, hy, hkey⟩ := List.mem_map.mp hkept
  obtain ⟨front, hfront⟩ := List.getLast?_eq_some_iff.mp hr
  have hordered : Ordered key (lastSeries key rows) := ordered_lastSeries rows
  have hy' : y ∈ lastSeries key rows := (List.mem_insertionSort _).mpr hy
  rw [hfront] at hordered hy'
  rw [← hkey]
  obtain hy' | hy' := List.mem_append.mp hy'
  · exact ((List.pairwise_append.mp hordered).2.2 y hy' r (List.mem_singleton_self r)).le
  · rw [List.mem_singleton.mp hy']

theorem lastSeries_ne_nil (hr : r ∈ rows) : lastSeries key rows ≠ [] := by
  intro hnil
  have hkey : key r ∈ (lastOfEach key rows).map key := mem_map_lastOfEach (List.mem_map_of_mem hr)
  obtain ⟨y, hy, -⟩ := List.mem_map.mp hkey
  have hy' : y ∈ lastSeries key rows := (List.mem_insertionSort _).mpr hy
  rw [hnil] at hy'
  cases hy'

end LastOfEach

end QBackend.OrderedSeries

namespace QBackend.Backtesting

open Execution OrderedSeries

/-! ## The curve -/

namespace RegisteredTrade

/-- `trade.pnl or 0.0`. -/
def profit (trade : RegisteredTrade) : ℚ := trade.exit.elim 0 TradeExit.pnl

/-- `trade.exit_time or trade.entry_time`. -/
def lastTime (trade : RegisteredTrade) : Time := trade.exit.elim trade.entryTime TradeExit.time

end RegisteredTrade

def totalProfit (trades : List RegisteredTrade) : ℚ := (trades.map (·.profit)).sum

/-- The points after the start, from the capital and the sorted trades that are left. -/
def curvePoints (stop : Time) : ℚ → List RegisteredTrade → List (Time × ℚ)
  | equity, [] => [(stop, equity)]
  | equity, trade :: rest =>
    match trade.exit with
    | none => curvePoints stop equity rest
    | some exit => (exit.time, equity + exit.pnl) :: curvePoints stop (equity + exit.pnl) rest

/-- Times are instants, so that nothing is left of `_normalize_timestamp`. -/
def buildEquityCurve (closedTrades : List RegisteredTrade) (initialCapital : ℚ)
    (start stop : Time) : List (Time × ℚ) :=
  lastSeries Prod.fst ((start, initialCapital) :: curvePoints stop initialCapital
    (closedTrades.insertionSort (fun t u => t.lastTime ≤ u.lastTime)))

section Curve

variable {trades : List RegisteredTrade} {equity : ℚ} {stop : Time}

@[simp] theorem totalProfit_nil : totalProfit [] = 0 := rfl

@[simp] theorem totalProfit_cons (t : RegisteredTrade) (trades : List RegisteredTrade) :
    totalProfit (t :: trades) = t.profit + totalProfit trades := by
  simp [totalProfit]

@[simp] theorem totalProfit_append (trades added : List RegisteredTrade) :
    totalProfit (trades ++ added) = totalProfit trades + totalProfit added := by
  simp [totalProfit]

theorem totalProfit_perm {trades' : List RegisteredTrade} (h : trades.Perm trades') :
    totalProfit trades = totalProfit trades' :=
  (h.map _).sum_eq

theorem totalProfit_of_open (h : ∀ t ∈ trades, t.exit = none) : totalProfit trades = 0 := by
  induction trades with
  | nil => rfl
  | cons t rest ih =>
    rw [totalProfit_cons, ih fun u hu => h u (List.mem_cons_of_mem _ hu), RegisteredTrade.profit,
      h t List.mem_cons_self, Option.elim_none, add_zero]

theorem totalProfit_closed (trades : List RegisteredTrade) :
    totalProfit (trades.filter fun t => !t.isOpen) = totalProfit trades := by
  induction trades with
  | nil => rfl
  | cons t rest ih =>
    rw [List.filter_cons, totalProfit_cons]
    split
    · rw [totalProfit_cons, ih]
    next hopen =>
      have hexit : t.exit = none := by simpa [RegisteredTrade.isOpen] using hopen
      rw [ih, RegisteredTrade.profit, hexit, Option.elim_none, zero_add]

theorem stop_mem_curvePoints (stop : Time) (equity : ℚ) (trades : List RegisteredTrade) :
    stop ∈ (curvePoints stop equity trades).map Prod.fst := by
  induction trades generalizing equity with
  | nil => simp [curvePoints]
  | cons t rest ih =>
    rw [curvePoints]
    split
    · exact ih equity
    · exact List.mem_cons_of_mem _ (ih _)

theorem exit_mem_curvePoints {t : RegisteredTrade} {x : TradeExit} (ht : t ∈ trades)
    (hx : t.exit = some x) : x.time ∈ (curvePoints stop equity trades).map Prod.fst := by
  induction trades generalizing equity with
  | nil => cases ht
  | cons u rest ih =>
    rw [curvePoints]
    obtain rfl | ht := List.mem_cons.mp ht
    · rw [hx]
      exact List.mem_cons_self
    · split
      · exact ih ht
      · exact List.mem_cons_of_mem _ (ih ht)

theorem curvePoints_last (hsorted : trades.Pairwise fun t u => t.lastTime ≤ u.lastTime)
    {before after : List (Time × ℚ)} {p : Time × ℚ}
    (hsplit : curvePoints stop equity trades = before ++ p :: after)
    (hlast : p.1 ∉ after.map Prod.fst)
    (hlatest : ∀ q ∈ curvePoints stop equity trades, q.1 ≤ p.1) :
    p.2 = equity + totalProfit trades := by
  induction trades generalizing equity before with
  | nil =>
    have hmem : p ∈ [(stop, equity)] := by
      rw [← curvePoints, hsplit]
      exact List.mem_append_right _ List.mem_cons_self
    rw [List.mem_singleton.mp hmem]
    simp
  | cons t rest ih =>
    obtain ⟨hfirst, hrest⟩ := List.pairwise_cons.mp hsorted
    rw [curvePoints] at hsplit hlatest
    cases hexit : t.exit with
    | none =>
      rw [hexit] at hsplit hlatest
      rw [totalProfit_cons, RegisteredTrade.profit, hexit, Option.elim_none, zero_add]
      exact ih hrest hsplit hlatest
    | some x =>
      rw [hexit] at hsplit hlatest
      dsimp only at hsplit hlatest
      rw [totalProfit_cons, RegisteredTrade.profit, hexit, Option.elim_some, ← add_assoc]
      cases before with
      | nil =>
        cases hsplit
        -- A closed trade behind the last exit would have a point at the same time.
        have hopen : ∀ u ∈ rest, u.exit = none := by
          intro u hu
          cases hu' : u.exit with
          | none => rfl
          | some y =>
            have hpoint : y.time ∈ (curvePoints stop (equity + x.pnl) rest).map Prod.fst :=
              exit_mem_curvePoints hu hu'
            have hle : x.time ≤ y.time := by
              simpa [RegisteredTrade.lastTime, hexit, hu'] using hfirst u hu
            obtain ⟨q, hq, hqy⟩ := List.mem_map.mp hpoint
            have hge : y.time ≤ x.time := hqy ▸ hlatest q (List.mem_cons_of_mem _ hq)
            exact absurd (le_antisymm hle hge ▸ hpoint) hlast
        rw [totalProfit_of_open hopen, add_zero]
      | cons first before =>
        obtain ⟨-, htail⟩ := List.cons.inj hsplit
        exact ih hrest htail fun q hq => hlatest q (List.mem_cons_of_mem _ hq)

theorem getLast_buildEquityCurve (trades : List RegisteredTrade) (capital : ℚ) {start stop : Time}
    (hwindow : start ≤ stop) : ∃ last, (buildEquityCurve trades capital start stop).getLast? =
      some (last, capital + totalProfit trades) := by
  have hsorted : (trades.insertionSort fun t u => t.lastTime ≤ u.lastTime).Pairwise
      fun t u => t.lastTime ≤ u.lastTime := List.pairwise_insertionSort _ _
  have hperm : (trades.insertionSort fun t u => t.lastTime ≤ u.lastTime).Perm trades :=
    List.perm_insertionSort _ trades
  unfold buildEquityCurve
  rw [← totalProfit_perm hperm]
  generalize trades.insertionSort (fun t u => t.lastTime ≤ u.lastTime) = sorted at hsorted
  have hmem : (start, capital) ∈ (start, capital) :: curvePoints stop capital sorted :=
    List.mem_cons_self
  have hne : lastSeries Prod.fst ((start, capital) :: curvePoints stop capital sorted) ≠ [] :=
    lastSeries_ne_nil hmem
  have hp := List.getLast?_eq_some_getLast hne
  obtain ⟨⟨before, after, hsplit, hlast⟩, hlatest⟩ := getLast_lastSeries hp
  refine ⟨_, hp.trans (congrArg some (Prod.ext rfl ?_))⟩
  generalize List.getLast _ hne = p at hsplit hlast hlatest
  cases before with
  | nil =>
    -- The start is the latest time only if the end is at the same time, and has a later point.
    obtain ⟨rfl, rfl⟩ := List.cons.inj hsplit
    obtain ⟨q, hq, hstop⟩ := List.mem_map.mp (stop_mem_curvePoints stop capital sorted)
    have hle : stop ≤ start := hstop ▸ hlatest q (List.mem_cons_of_mem _ hq)
    obtain rfl : start = stop := le_antisymm hwindow hle
    exact absurd (List.mem_map.mpr ⟨q, hq, hstop⟩) hlast
  | cons first before =>
    obtain ⟨-, htail⟩ := List.cons.inj hsplit
    exact curvePoints_last hsorted htail hlast fun q hq => hlatest q (List.mem_cons_of_mem _ hq)

end Curve

end QBackend.Backtesting
