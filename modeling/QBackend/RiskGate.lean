import QBackend.ExecutionLedger
import QBackend.PaperBroker

/-!
# The pre-trade risk gate

`execution/risk.py`: the eleven checks in their order, the first rejection winning.
-/

namespace QBackend.Execution

structure RiskContext where
  lifecycle : DeploymentLifecycle
  symbol : String
  barCloseTime : Time
  side : ExecutionSide
  quantity : ℚ
  quote : Option ExecutableQuote
  now : Time
  killSwitchEnabled : Bool
  leaseHeld : Bool
  hasUnknownOrders : Bool
  positionSide : PositionSide
  positionQuantity : ℚ
  equity : ℚ
  dailyRealizedPnl : ℚ
  maxDailyLoss : Option ℚ
  maxNotional : Option ℚ
  pointValue : ℚ
  costConfig : PaperCostConfig
  maxBarAgeSeconds : ℚ
  allowLifecycleBypass : Bool := false

namespace RiskContext

def checkKillSwitch (ctx : RiskContext) : Option RiskRejection :=
  if ctx.killSwitchEnabled ∧ ¬ ctx.allowLifecycleBypass then
    some { code := .killSwitch, message := "global kill switch is enabled" }
  else none

def checkLifecycle (ctx : RiskContext) : Option RiskRejection :=
  if ctx.allowLifecycleBypass then none
  else if ¬ isDeploymentEvaluating ctx.lifecycle then
    some { code := .lifecycle
           message := "deployment lifecycle " ++ ctx.lifecycle.value ++ " blocks new orders" }
  else none

def checkLease (ctx : RiskContext) : Option RiskRejection :=
  if ¬ ctx.leaseHeld then
    some { code := .leaseLost, message := "worker does not hold the deployment lease" }
  else none

def checkUnknownOrders (ctx : RiskContext) : Option RiskRejection :=
  if ctx.hasUnknownOrders then
    some { code := .unknownPriorOrder
           message := "deployment has an unknown order awaiting reconciliation" }
  else none

def checkBarFreshness (ctx : RiskContext) : Option RiskRejection :=
  let age := secondsBetween ctx.now ctx.barCloseTime
  if ctx.maxBarAgeSeconds < age then
    some { code := .staleBar, message := "bar close is stale"
           context := [("age_seconds", .decimal age),
             ("max_age_seconds", .decimal ctx.maxBarAgeSeconds)] }
  else none

def checkSymbolQuote (ctx : RiskContext) : Option RiskRejection :=
  match ctx.quote with
  | none => some { code := .symbolUnavailable
                   message := "symbol " ++ ctx.symbol ++ " quote unavailable" }
  | some quote =>
    match validateQuote (some quote) ctx.now ctx.costConfig.maxQuoteAgeSeconds with
    | none => none
    | some rejection =>
      some { code := if rejection.code = .invalidQuote then .symbolUnavailable else .staleQuote
             message := rejection.message, context := rejection.context }

def checkQuantity (ctx : RiskContext) : Option RiskRejection :=
  match validateQuantity ctx.quantity ctx.costConfig.volumeStep ctx.costConfig.minVolume with
  | none => none
  | some rejection =>
    some { code := .invalidQuantity, message := rejection.message, context := rejection.context }

def checkNotional (ctx : RiskContext) : Option RiskRejection :=
  match ctx.maxNotional, ctx.quote with
  | some maxNotional, some quote =>
    let price := match ctx.side with
      | .buy => quote.ask
      | .sell => quote.bid
    let notional := price * ctx.quantity * ctx.pointValue
    if maxNotional < notional then
      some { code := .notionalLimit, message := "order notional exceeds configured limit"
             context := [("notional", .decimal notional), ("max_notional", .decimal maxNotional)] }
    else none
  | _, _ => none

def checkOnePosition (ctx : RiskContext) : Option RiskRejection :=
  if ctx.positionSide = .flat then none
  else if isReducing ctx.positionSide ctx.side ∨ isSameSideAdd ctx.positionSide ctx.side then none
  else some { code := .onePositionViolation
              message := "order would violate the one-position invariant"
              context := [("position_side", .text ctx.positionSide.value),
                ("order_side", .text ctx.side.value)] }

def checkEquity (ctx : RiskContext) : Option RiskRejection :=
  if ctx.equity ≤ 0 then
    some { code := .insufficientEquity, message := "account equity is non-positive"
           context := [("equity", .decimal ctx.equity)] }
  else none

def checkDailyLoss (ctx : RiskContext) : Option RiskRejection :=
  match ctx.maxDailyLoss with
  | none => none
  | some maxDailyLoss =>
    if ctx.dailyRealizedPnl ≤ -maxDailyLoss then
      some { code := .dailyLossLimit, message := "maximum daily realized loss reached"
             context := [("daily_realized_pnl", .decimal ctx.dailyRealizedPnl),
               ("max_daily_loss", .decimal maxDailyLoss)] }
    else none

/-- The checks in the order in which the gate runs them. -/
def checks : List (RiskContext → Option RiskRejection) :=
  [checkKillSwitch, checkLifecycle, checkLease, checkUnknownOrders, checkBarFreshness,
    checkSymbolQuote, checkQuantity, checkNotional, checkOnePosition, checkEquity, checkDailyLoss]

def evaluate (ctx : RiskContext) : Option RiskRejection :=
  checks.findSome? (fun check => check ctx)

theorem evaluate_eq_none {ctx : RiskContext} :
    ctx.evaluate = none ↔ ∀ check ∈ checks, check ctx = none := by
  simp [evaluate, List.findSome?_eq_none_iff]

/-- An order that passes the gate finds no unknown order of its deployment. -/
theorem hasUnknownOrders_of_evaluate {ctx : RiskContext} (h : ctx.evaluate = none) :
    ctx.hasUnknownOrders = false := by
  have hcheck := evaluate_eq_none.mp h checkUnknownOrders (by simp [checks])
  simpa [checkUnknownOrders] using hcheck

end RiskContext

def deploymentHasUnknownOrders (orders : List ExecutionOrder) : Bool :=
  orders.any (fun o => o.status = .unknown)

end QBackend.Execution
