import QBackend.ExecutionService

/-!
# Recovery and reconciliation of unknown orders

`execution/reconciliation.py`, `ExecutionRecovery.recover` and the operator endpoint
`resolve_order`: incomplete orders are parked as UNKNOWN/PENDING at startup, a pass asks the
broker about every pending order and records the answer, and an operator may assert one.
-/

namespace QBackend.Execution

open KeyedTables

inductive ReconciliationResolution where
  | filled | failed | unavailable
  deriving DecidableEq, Repr

structure ReconciliationOutcome where
  orderId : ℕ
  deploymentId : ℕ
  resolution : ReconciliationResolution
  message : String := ""
  deriving DecidableEq, Repr

def autoActor : String := "reconciler"

/-- Python's `text or default` on strings. -/
def textOr (text fallback : String) : String := if text = "" then fallback else text

def lookupRequestForOrder (order : ExecutionOrder) (deployment : ExecutionDeployment) :
    MarketOrderRequest :=
  { deploymentId := deployment.id, orderId := order.id, symbol := deployment.symbol
    side := order.side, quantity := order.quantity
    externalFillId := order.brokerMode.value ++ ":" ++ toString order.id }

def assertPending (order : ExecutionOrder) : Except ExecutionError Unit :=
  if order.status ≠ .unknown ∨ order.reconciliationState ≠ .pending then
    .error (.orderNotPending order.id order.status order.reconciliationState)
  else .ok ()

/-- The outcome of an order's decision, where the order has one. -/
def recordDecisionOutcome (db : Database) (order : ExecutionOrder) (outcome : DecisionOutcome) :
    Except ExecutionError Database :=
  match order.decisionId with
  | none => .ok db
  | some decisionId => db.updateExecutionDecisionOutcome decisionId outcome

def applyFilledResolution (cfg : ServiceConfig) (db : Database) (order : ExecutionOrder)
    (deployment : ExecutionDeployment) (fill : FillRecord) (fillId : ℕ) (reconciledBy : String)
    (detail : Option String) (at_ : Time) : Except ExecutionError Database := do
  let (db, _) ← applyFill db (fillApplicationOf cfg deployment order.id fillId fill true at_)
  let db ← db.finalizeOrderReconciliation order.id reconciledBy detail at_
  recordDecisionOutcome db order .orderFilled

def applyFailedResolution (db : Database) (order : ExecutionOrder) (reconciledBy : String)
    (detail : Option String) (reason : String) (at_ : Time) : Except ExecutionError Database := do
  let db ← db.transitionExecutionOrder order.id .rejected
    { rejectionReason := some reason, completedAt := some at_ }
  let db ← db.finalizeOrderReconciliation order.id reconciledBy detail at_
  recordDecisionOutcome db order .orderRejected

/-! ## The operator -/

inductive ManualOutcome where
  | filled | notFilled
  deriving DecidableEq, Repr

def resolveOrderManually (cfg : ServiceConfig) (db : Database) (order : ExecutionOrder)
    (deployment : ExecutionDeployment) (outcome : ManualOutcome) (actor note : String)
    (fill : Option FillRecord) (fillId : ℕ) (at_ : Time) :
    Except ExecutionError (Database × ReconciliationOutcome) := do
  assertPending order
  match outcome with
  | .filled =>
    match fill with
    | none => .error .missingFillDetails
    | some fill =>
      let db ← applyFilledResolution cfg db order deployment fill fillId actor (some note) at_
      return (db, { orderId := order.id, deploymentId := deployment.id, resolution := .filled
                    message := "manual resolution: filled" })
  | .notFilled =>
    let db ← applyFailedResolution db order actor (some note)
      ("manual resolution: not filled (" ++ note ++ ")") at_
    return (db, { orderId := order.id, deploymentId := deployment.id, resolution := .failed
                  message := "manual resolution: not filled" })

/-- The body of the operator's request; a filled resolution carries a price. -/
structure OrderResolutionRequest where
  outcome : ManualOutcome
  actor : String
  reason : String
  price : Option ℚ := none
  quantity : Option ℚ := none
  fee : Option ℚ := none
  filledAt : Option Time := none
  externalFillId : Option String := none
  deriving DecidableEq, Repr

/-- The external fill id of a manual fill: the operator's text, when it is not empty. -/
def OrderResolutionRequest.fillIdFor (body : OrderResolutionRequest) (order : ExecutionOrder) :
    String :=
  textOr (body.externalFillId.getD "") ("manual:" ++ toString order.id)

def OrderResolutionRequest.fillFor (body : OrderResolutionRequest) (order : ExecutionOrder)
    (now : Time) : Option FillRecord :=
  match body.outcome, body.price with
  | .filled, some price => some
      { brokerMode := order.brokerMode, externalFillId := body.fillIdFor order
        side := order.side, quantity := body.quantity.getD order.quantity, price
        fee := body.fee.getD 0, filledAt := body.filledAt.getD now }
  | _, _ => none

/-- `resolve_order` of the API. -/
def resolveOrder (cfg : ServiceConfig) (db : Database) (orderId : ℕ)
    (body : OrderResolutionRequest) (fillId : ℕ) (now : Time) :
    Except ExecutionError (Database × ReconciliationOutcome) :=
  match db.getExecutionOrder orderId with
  | none => .error (.notFound "ExecutionOrder" orderId)
  | some order =>
    match db.getExecutionDeployment order.deploymentId with
    | none => .error (.notFound "ExecutionDeployment" order.deploymentId)
    | some deployment =>
      resolveOrderManually cfg db order deployment body.outcome body.actor body.reason
        (body.fillFor order now) fillId now

/-! ## The reconciler -/

def reconcileOrder (cfg : ServiceConfig) (broker : ExecutionBroker) (now : Time) (db : Database)
    (order : ExecutionOrder) (deployment : ExecutionDeployment) (fillId : ℕ) :
    Except ExecutionError (Database × ReconciliationOutcome) := do
  let state ← broker.lookupOrder (lookupRequestForOrder order deployment)
  let outcome (resolution : ReconciliationResolution) (message : String) :
      ReconciliationOutcome :=
    { orderId := order.id, deploymentId := deployment.id, resolution, message }
  match state.status with
  | .filled =>
    match state.fill with
    | none =>
      let db ← db.recordReconciliationAttempt order.id now
        "broker reported filled without fill details"
      return (db, outcome .unavailable "filled without fill details")
    | some fill =>
      let db ← applyFilledResolution cfg db order deployment fill fillId autoActor
        (some (textOr state.message "broker confirmed fill")) now
      return (db, outcome .filled state.message)
  | .rejected | .notFound =>
    let reason := "reconciliation: broker reported " ++ state.status.value
    let db ← applyFailedResolution db order autoActor (some (textOr state.message reason)) reason
      now
    return (db, outcome .failed state.message)
  | .unavailable =>
    let db ← db.recordReconciliationAttempt order.id now (textOr state.message "broker unavailable")
    return (db, outcome .unavailable state.message)

/-- The loop of a pass. Each order receives the next identifier for the fill it may need; an
order whose deployment is gone is skipped. -/
def reconcileOrders (cfg : ServiceConfig) (broker : ExecutionBroker) (now : Time) :
    List ExecutionOrder → Database → ℕ →
    Except ExecutionError (Database × ℕ × List ReconciliationOutcome)
  | [], db, nextId => .ok (db, nextId, [])
  | order :: rest, db, nextId =>
    match db.getExecutionDeployment order.deploymentId with
    | none => reconcileOrders cfg broker now rest db nextId
    | some deployment => do
      let (db, outcome) ← reconcileOrder cfg broker now db order deployment nextId
      let (db, nextId, outcomes) ← reconcileOrders cfg broker now rest db (nextId + 1)
      return (db, nextId, outcome :: outcomes)

/-- `reconcile_deployment`, or `reconcile_all_pending` without a deployment. -/
def reconcilePending (cfg : ServiceConfig) (broker : ExecutionBroker) (now : Time) (db : Database)
    (deploymentId : Option ℕ) (nextId : ℕ) :
    Except ExecutionError (Database × ℕ × List ReconciliationOutcome) :=
  reconcileOrders cfg broker now (db.listPendingReconciliationOrders deploymentId) db nextId

/-! ## Startup recovery -/

structure RecoveryResult where
  leasesReleased : ℕ
  unknownOrdersMarked : ℕ
  failedClosed : Bool
  message : String
  deriving DecidableEq, Repr

def markDeployments : List ExecutionDeployment → Database → Except ExecutionError (Database × ℕ)
  | [], db => .ok (db, 0)
  | deployment :: rest, db => do
    let (db, marked) ← db.markIncompleteOrdersUnknown deployment.id
    let (db, total) ← markDeployments rest db
    return (db, marked + total)

/-- `ExecutionRecovery.recover`. A running deployment without a quote fails closed, after the
marking. -/
def recover (db : Database) (quotes : String → Option ExecutableQuote) (now : Time) :
    Except ExecutionError (Database × RecoveryResult) := do
  let released := db.leases.countP (fun l => l.expiresAt ≤ now)
  let db := db.releaseExpiredLeases now
  let (db, marked) ← markDeployments db.deployments db
  let running := db.listDeployments [.running]
  match running.find? (fun d => (quotes d.symbol).isNone) with
  | some deployment =>
    return (db, { leasesReleased := released, unknownOrdersMarked := marked, failedClosed := true
                  message := "quote unavailable for " ++ deployment.symbol })
  | none =>
    return (db, { leasesReleased := released, unknownOrdersMarked := marked, failedClosed := false
                  message := "recovery complete" })

end QBackend.Execution
