import QBackend.ExecutionService
import QBackend.LedgerBooks
import Mathlib.Algebra.BigOperators.Ring.List
import Mathlib.Algebra.Order.BigOperators.Group.List
import Mathlib.Tactic.Linarith

/-!
# What the limits of the risk gate are held against

The limit checks look at an order on its own: one that takes from the open position needs the same
room in them as one that adds to it. The equity that they see is the cash of the account with the
open profit of the one deployment that asks.
-/

namespace QBackend.Execution

open FallibleSteps KeyedTables

/-! ## Orders that reduce a position -/

namespace RiskContext

/-- The price at which `_check_notional` values the order. -/
def quotedPrice (ctx : RiskContext) (quote : ExecutableQuote) : ℚ :=
  match ctx.side with
  | .buy => quote.ask
  | .sell => quote.bid

def limitChecks : List (RiskContext → Option RiskRejection) :=
  [checkNotional, checkOnePosition, checkEquity, checkDailyLoss]

/-- A close, an exit or a flatten: against the open position, and no larger than it. -/
structure Reduces (ctx : RiskContext) : Prop where
  side : isReducing ctx.positionSide ctx.side = true
  quantity : ctx.quantity ≤ ctx.positionQuantity

/-- The account has equity, and the order and the day's loss are within what is configured. -/
structure WithinLimits (ctx : RiskContext) : Prop where
  notional : ∀ maxNotional ∈ ctx.maxNotional, ∀ quote ∈ ctx.quote,
    ctx.quotedPrice quote * ctx.quantity * ctx.pointValue ≤ maxNotional
  equity : 0 < ctx.equity
  dailyLoss : ∀ maxDailyLoss ∈ ctx.maxDailyLoss, -maxDailyLoss < ctx.dailyRealizedPnl

variable {ctx : RiskContext}

theorem checkNotional_eq_none : ctx.checkNotional = none ↔
    ∀ maxNotional ∈ ctx.maxNotional, ∀ quote ∈ ctx.quote,
      ctx.quotedPrice quote * ctx.quantity * ctx.pointValue ≤ maxNotional := by
  unfold checkNotional
  cases hmax : ctx.maxNotional with
  | none => simp
  | some maxNotional =>
    cases hquote : ctx.quote with
    | none => simp
    | some quote =>
      cases hside : ctx.side with
      | buy => simp [quotedPrice, hside]
      | sell => simp [quotedPrice, hside]

theorem checkEquity_eq_none : ctx.checkEquity = none ↔ 0 < ctx.equity := by
  simp [checkEquity]

theorem checkDailyLoss_eq_none : ctx.checkDailyLoss = none ↔
    ∀ maxDailyLoss ∈ ctx.maxDailyLoss, -maxDailyLoss < ctx.dailyRealizedPnl := by
  unfold checkDailyLoss
  cases ctx.maxDailyLoss <;> simp

/-- The one check that asks whether the order reduces the position. -/
theorem checkOnePosition_of_reducing (h : isReducing ctx.positionSide ctx.side = true) :
    ctx.checkOnePosition = none := by
  simp [checkOnePosition, h]

/-- The limits stop a reducing order exactly as they would stop any other. -/
theorem reducing_passes_iff (ctx : RiskContext) (h : ctx.Reduces) :
    (∀ check ∈ limitChecks, check ctx = none) ↔ ctx.WithinLimits := by
  have hone := checkOnePosition_of_reducing h.side
  constructor
  · intro hall
    refine ⟨checkNotional_eq_none.mp (hall _ ?_), checkEquity_eq_none.mp (hall _ ?_),
      checkDailyLoss_eq_none.mp (hall _ ?_)⟩ <;> simp [limitChecks]
  · intro hlimits check hcheck
    simp only [limitChecks, List.mem_cons, List.not_mem_nil, or_false] at hcheck
    rcases hcheck with rfl | rfl | rfl | rfl
    · exact checkNotional_eq_none.mpr hlimits.notional
    · exact hone
    · exact checkEquity_eq_none.mpr hlimits.equity
    · exact checkDailyLoss_eq_none.mpr hlimits.dailyLoss

/-- A long contract that is to be sold at the bid. -/
def sellContext (equity : ℚ) : RiskContext where
  lifecycle := .running
  symbol := "WIN"
  barCloseTime := 0
  side := .sell
  quantity := 1
  quote := some { symbol := "WIN", bid := 900, ask := 901, timestamp := 0 }
  now := 0
  killSwitchEnabled := false
  leaseHeld := true
  hasUnknownOrders := false
  positionSide := .long
  positionQuantity := 1
  equity
  dailyRealizedPnl := 0
  maxDailyLoss := some 500
  maxNotional := some 1000
  pointValue := 1
  costConfig := {}
  maxBarAgeSeconds := 7200
  allowLifecycleBypass := true

theorem reduces_sellContext (equity : ℚ) : (sellContext equity).Reduces := ⟨rfl, le_rfl⟩

theorem reducing_passes_solvent :
    (sellContext 50).Reduces ∧ ∀ check ∈ limitChecks, check (sellContext 50) = none := by
  refine ⟨reduces_sellContext 50, (reducing_passes_iff _ (reduces_sellContext 50)).mpr ⟨?_, ?_, ?_⟩⟩
  · intro maxNotional hmax quote hquote
    cases hmax
    cases hquote
    norm_num [quotedPrice, sellContext]
  · norm_num [sellContext]
  · intro maxDailyLoss hmax
    cases hmax
    norm_num [sellContext]

/-- Once its loss has used up the equity, the contract cannot be sold. -/
theorem reducing_refused_broke :
    (sellContext (-50)).Reduces ∧ ¬ ∀ check ∈ limitChecks, check (sellContext (-50)) = none := by
  refine ⟨reduces_sellContext (-50), fun h => ?_⟩
  have hequity : (sellContext (-50)).checkEquity = none := h _ (by simp [limitChecks])
  have hpos := checkEquity_eq_none.mp hequity
  norm_num [sellContext] at hpos

end RiskContext

section Gate

variable {cfg : ServiceConfig} {db db' : Database} {deployment : ExecutionDeployment} {call : BarCall}
  {env : BarEnvironment} {decisionId orderId : ℕ} {side : ExecutionSide} {quantity : ℚ}
  {order : ExecutionOrder}

end Gate

/-! ## The equity of an account -/

/-- The open profit of a deployment at the quote of its symbol. -/
def Database.openPnl (db : Database) (pointValue : ℚ) (quotes : String → ExecutableQuote)
    (deployment : ExecutionDeployment) : ℚ :=
  match db.getOpenNetPosition deployment.id with
  | none => 0
  | some position =>
    if 0 < position.quantity then
      unrealizedPnl position.side position.quantity (position.averageEntryPrice.getD 0)
        (markPriceForPosition position.side (quotes deployment.symbol)) pointValue
    else 0

def Database.deploymentsOn (db : Database) (accountId : ℕ) : List ExecutionDeployment :=
  db.deployments.filter (fun d => d.paperAccountId = accountId)

/-- The cash of the account and the open profit of all its deployments. -/
def Database.accountEquity (db : Database) (account : PaperAccount) (pointValue : ℚ)
    (quotes : String → ExecutableQuote) : ℚ :=
  account.cashBalance + ((db.deploymentsOn account.id).map (db.openPnl pointValue quotes)).sum

/-- The deployment is long or short. -/
def Database.Holds (db : Database) (deployment : ExecutionDeployment) : Prop :=
  ∃ position, db.getOpenNetPosition deployment.id = some position ∧ 0 < position.quantity ∧
    position.side ≠ .flat

/-- A bid and an ask for every symbol. -/
structure MarkQuotes (quotes : String → ExecutableQuote) : Prop where
  bid_pos : ∀ symbol, 0 < (quotes symbol).bid
  bid_le_ask : ∀ symbol, (quotes symbol).bid ≤ (quotes symbol).ask

section Equity

variable {db : Database} {account : PaperAccount} {pointValue : ℚ}
  {quotes : String → ExecutableQuote} {deployment : ExecutionDeployment}

/-- What `account_snapshot` reports for one deployment. -/
theorem accountSnapshot_equity {symbol : String} (pointValue : ℚ)
    (quotes : String → ExecutableQuote) (asOf : Time)
    (haccount : db.getPaperAccount account.id = some account) (hsymbol : deployment.symbol = symbol) :
    ∃ snapshot, accountSnapshot db account.id deployment.id symbol (some (quotes symbol)) pointValue
        asOf = .ok snapshot ∧
      snapshot.equity = account.cashBalance + db.openPnl pointValue quotes deployment := by
  subst hsymbol
  unfold accountSnapshot
  rw [haccount]
  refine ⟨_, rfl, ?_⟩
  unfold Database.openPnl
  dsimp only
  cases db.getOpenNetPosition deployment.id with
  | none => simp
  | some position =>
    by_cases hquantity : 0 < position.quantity
    · simp [hquantity]
    · simp [hquantity]

/-- The quotes that all symbols share. -/
def flatQuotes (bid ask : ℚ) (symbol : String) : ExecutableQuote :=
  { symbol, bid, ask, timestamp := 0 }

theorem markQuotes_flatQuotes {bid ask : ℚ} (hbid : 0 < bid) (hask : bid ≤ ask) :
    MarkQuotes (flatQuotes bid ask) := ⟨fun _ => hbid, fun _ => hask⟩

/-- The quantity held on one side. -/
def Database.heldOn (db : Database) (side : PositionSide) (deployment : ExecutionDeployment) : ℚ :=
  match db.getOpenNetPosition deployment.id with
  | none => 0
  | some position => if position.side = side ∧ 0 < position.quantity then position.quantity else 0

theorem heldOn_nonneg (db : Database) (side : PositionSide) (deployment : ExecutionDeployment) :
    0 ≤ db.heldOn side deployment := by
  unfold Database.heldOn
  cases db.getOpenNetPosition deployment.id with
  | none => exact le_rfl
  | some position =>
    dsimp only
    split
    next h => exact h.2.le
    · exact le_rfl

/-- A higher bid is worth the long quantity, a lower ask the short one. -/
theorem openPnl_quotes (bid bid' ask ask' : ℚ) :
    db.openPnl pointValue (flatQuotes bid' ask') deployment =
      db.openPnl pointValue (flatQuotes bid ask) deployment +
        (db.heldOn .long deployment * ((bid' - bid) * pointValue) +
          db.heldOn .short deployment * ((ask - ask') * pointValue)) := by
  unfold Database.openPnl Database.heldOn
  cases db.getOpenNetPosition deployment.id with
  | none => simp
  | some position =>
    by_cases hquantity : 0 < position.quantity
    · cases hside : position.side with
      | long | short =>
        simp only [hquantity, hside, reduceCtorEq, and_true, if_true, if_false,
          unrealizedPnl, markPriceForPosition, flatQuotes]
        ring
      | flat => simp [hquantity, hside, unrealizedPnl]
    · simp [hquantity]

theorem openPnl_of_not_holds (h : ¬ db.Holds deployment) :
    db.openPnl pointValue quotes deployment = 0 := by
  unfold Database.openPnl
  cases hposition : db.getOpenNetPosition deployment.id with
  | none => rfl
  | some position =>
    by_cases hquantity : 0 < position.quantity
    · have hside : position.side = .flat := by
        by_contra hne
        exact h ⟨position, hposition, hquantity, hne⟩
      simp [hquantity, hside, unrealizedPnl]
    · simp [hquantity]

theorem not_holds_of_heldOn (hlong : db.heldOn .long deployment = 0)
    (hshort : db.heldOn .short deployment = 0) : ¬ db.Holds deployment := by
  rintro ⟨position, hposition, hquantity, hside⟩
  unfold Database.heldOn at hlong hshort
  rw [hposition] at hlong hshort
  cases hs : position.side with
  | long =>
    simp only [hs, hquantity, and_self, if_true] at hlong
    exact hquantity.ne' hlong
  | short =>
    simp only [hs, hquantity, and_self, if_true] at hshort
    exact hquantity.ne' hshort
  | flat => exact hside hs

theorem openPnl_zero : db.openPnl 0 quotes deployment = 0 := by
  unfold Database.openPnl
  cases db.getOpenNetPosition deployment.id with
  | none => rfl
  | some position =>
    by_cases hquantity : 0 < position.quantity
    · cases hside : position.side <;> simp [hquantity, hside, unrealizedPnl]
    · simp [hquantity]

theorem not_holds_of_sum {deployments : List ExecutionDeployment} (hpoint : pointValue ≠ 0)
    (h : ∀ quotes, MarkQuotes quotes → (deployments.map (db.openPnl pointValue quotes)).sum = 0) :
    ∀ d ∈ deployments, ¬ db.Holds d := by
  -- Two assignments that differ in the bid by one, and two that differ so in the ask.
  have hmarks : ∀ {bid ask : ℚ}, 0 < bid → bid ≤ ask →
      (deployments.map (db.openPnl pointValue (flatQuotes bid ask))).sum = 0 :=
    fun hbid hask => h _ (markQuotes_flatQuotes hbid hask)
  have hlong : (deployments.map (db.heldOn .long)).sum * pointValue = 0 := by
    have hsum := hmarks two_pos (le_refl (2 : ℚ))
    have hbid : db.openPnl pointValue (flatQuotes 2 2) = fun d =>
        db.openPnl pointValue (flatQuotes 1 2) d + db.heldOn .long d * ((2 - 1) * pointValue) := by
      funext d
      rw [openPnl_quotes 1 2 2 2, sub_self, zero_mul, mul_zero, add_zero]
    rw [hbid, List.sum_map_add, hmarks one_pos one_le_two, zero_add, List.sum_map_mul_right] at hsum
    linarith
  have hshort : (deployments.map (db.heldOn .short)).sum * pointValue = 0 := by
    have hsum := hmarks one_pos (le_refl (1 : ℚ))
    have hask : db.openPnl pointValue (flatQuotes 1 1) = fun d =>
        db.openPnl pointValue (flatQuotes 1 2) d + db.heldOn .short d * ((2 - 1) * pointValue) := by
      funext d
      rw [openPnl_quotes 1 1 2 1, sub_self, zero_mul, mul_zero, zero_add]
    rw [hask, List.sum_map_add, hmarks one_pos one_le_two, zero_add, List.sum_map_mul_right] at hsum
    linarith
  have hnone : ∀ {side}, (deployments.map (db.heldOn side)).sum * pointValue = 0 →
      ∀ d ∈ deployments, db.heldOn side d = 0 := by
    intro side hsum d hd
    refine List.all_zero_of_le_zero_le_of_sum_eq_zero ?_ ((mul_eq_zero_iff_right hpoint).mp hsum)
      (List.mem_map_of_mem hd)
    intro x hx
    obtain ⟨e, -, rfl⟩ := List.mem_map.mp hx
    exact heldOn_nonneg db side e
  exact fun d hd => not_holds_of_heldOn (hnone hlong d hd) (hnone hshort d hd)

end Equity

/-- Whichever deployment of the account asks, the snapshot and the risk gate count the whole
account, at all quotes. -/
def Database.CountsWholeAccount (cfg : ServiceConfig) (db : Database) (account : PaperAccount) : Prop :=
  ∀ deployment ∈ db.deploymentsOn account.id, ∀ quotes, MarkQuotes quotes → ∀ asOf, ∃ snapshot,
    accountSnapshot db account.id deployment.id deployment.symbol
        (some (quotes deployment.symbol)) cfg.pointValue asOf = .ok snapshot ∧
      snapshot.equity = db.accountEquity account cfg.pointValue quotes ∧
      ∀ call env side quantity,
        (riskContextOf cfg db deployment account call env side quantity snapshot).equity =
          db.accountEquity account cfg.pointValue quotes

/-- The equity is that of the account exactly when no deployment shares it with another that holds
a position. -/
theorem equity_counts_account_iff (cfg : ServiceConfig) (db : Database) (account : PaperAccount)
    (haccount : db.getPaperAccount account.id = some account)
    (hids : (db.deployments.map ExecutionDeployment.id).Nodup) :
    db.CountsWholeAccount cfg account ↔ cfg.pointValue = 0 ∨
      ∀ d ∈ db.deploymentsOn account.id, ∀ other ∈ db.deploymentsOn account.id,
        other.id ≠ d.id → ¬ db.Holds other := by
  have hnodup : ((db.deploymentsOn account.id).map ExecutionDeployment.id).Nodup :=
    hids.sublist (List.filter_sublist.map _)
  have hsplit : ∀ d ∈ db.deploymentsOn account.id, ∀ quotes,
      db.accountEquity account cfg.pointValue quotes = account.cashBalance +
        db.openPnl cfg.pointValue quotes d + (((db.deploymentsOn account.id).filter
          (fun s => s.id ≠ d.id)).map (db.openPnl cfg.pointValue quotes)).sum := by
    intro d hd quotes
    rw [Database.accountEquity, sum_map_eq_add_filter _ hnodup hd, add_assoc]
  constructor
  · intro h
    refine or_iff_not_imp_left.mpr fun hpoint d hd other hother hne => ?_
    have hcancel : ∀ quotes, MarkQuotes quotes → (((db.deploymentsOn account.id).filter
        (fun s => s.id ≠ d.id)).map (db.openPnl cfg.pointValue quotes)).sum = 0 := by
      intro quotes hquotes
      obtain ⟨snapshot, hsnapshot, hequity, -⟩ := h d hd quotes hquotes 0
      obtain ⟨snapshot', hsnapshot', hequity'⟩ := accountSnapshot_equity cfg.pointValue quotes 0
        haccount (rfl : d.symbol = d.symbol)
      obtain rfl := Except.ok.inj (hsnapshot.symm.trans hsnapshot')
      rw [hequity', hsplit d hd] at hequity
      linarith
    exact not_holds_of_sum hpoint hcancel other
      (List.mem_filter.mpr ⟨hother, by simpa using hne⟩)
  · intro h d hd quotes _ asOf
    obtain ⟨snapshot, hsnapshot, hequity⟩ := accountSnapshot_equity cfg.pointValue quotes asOf
      haccount (rfl : d.symbol = d.symbol)
    have hzero : (((db.deploymentsOn account.id).filter (fun s => s.id ≠ d.id)).map
        (db.openPnl cfg.pointValue quotes)).sum = 0 := by
      refine List.sum_eq_zero fun x hx => ?_
      obtain ⟨other, hother, rfl⟩ := List.mem_map.mp hx
      obtain ⟨hother, hne⟩ := List.mem_filter.mp hother
      rcases h with hpoint | hflat
      · rw [hpoint, openPnl_zero]
      · exact openPnl_of_not_holds (hflat d hd other hother (by simpa using hne))
    have htotal : snapshot.equity = db.accountEquity account cfg.pointValue quotes := by
      rw [hequity, hsplit d hd, hzero, add_zero]
    exact ⟨snapshot, hsnapshot, htotal, fun _ _ _ _ => htotal⟩

def sharedAccount : PaperAccount := { id := 1, initialBalance := 1000, cashBalance := 1000 }

/-- Two deployments on one account, of which the second may hold a contract. -/
def sharedDesk (held : List ExecutionNetPosition) : Database :=
  { accounts := [sharedAccount]
    deployments :=
      [{ id := 7, paperAccountId := 1, lifecycle := .running, symbol := "WIN", timeframe := "M1" },
        { id := 8, paperAccountId := 1, lifecycle := .running, symbol := "WDO", timeframe := "M1" }]
    positions := held }

def longContract : ExecutionNetPosition :=
  { deploymentId := 8, side := .long, quantity := 1, averageEntryPrice := some 1200, isOpen := true }

theorem equity_counts_flat_account : (sharedDesk []).CountsWholeAccount {} sharedAccount := by
  refine (equity_counts_account_iff {} (sharedDesk []) sharedAccount rfl (by decide)).mpr (.inr ?_)
  rintro d - other - - ⟨position, hposition, -⟩
  cases hposition

/-- The first deployment counts nothing of the contract of the second. -/
theorem equity_misses_contract : ¬ (sharedDesk [longContract]).CountsWholeAccount {} sharedAccount := by
  intro h
  obtain ⟨snapshot, hsnapshot, hequity, -⟩ := h
    { id := 7, paperAccountId := 1, lifecycle := .running, symbol := "WIN", timeframe := "M1" }
    (by decide) (flatQuotes 100 101) (markQuotes_flatQuotes (by norm_num) (by norm_num)) 0
  cases hsnapshot
  revert hequity
  decide +kernel

end QBackend.Execution
