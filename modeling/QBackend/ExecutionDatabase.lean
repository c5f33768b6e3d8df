import QBackend.ExecutionDomain
import QBackend.KeyedTables
import Mathlib.Algebra.Ring.Rat

/-!
# The execution tables and their repositories

The rows of `storage/db/execution_models.py` and the functions of
`storage/db/execution_repositories.py` on them. A repository call is a function of the whole
database: it returns the database with its effect or raises, and the caller's transaction
decides what of it is ever committed. Unique constraints raise at the insert.
-/

namespace QBackend.Execution

open KeyedTables

/-- The two risk limits the service reads from a `risk_config` document. -/
structure RiskConfig where
  maxDailyLoss : Option ℚ := none
  maxNotional : Option ℚ := none
  /-- Whether the document has any key: an empty one falls through to the account's. -/
  isEmpty : Bool := true
  deriving DecidableEq, Repr

structure PaperAccount where
  id : ℕ
  initialBalance : ℚ
  cashBalance : ℚ
  riskConfig : RiskConfig := {}
  deriving DecidableEq, Repr

structure ExecutionDeployment where
  id : ℕ
  paperAccountId : ℕ
  brokerMode : BrokerMode := .paper
  lifecycle : DeploymentLifecycle := .draft
  symbol : String
  timeframe : String
  riskConfig : RiskConfig := {}
  lastBarCloseTime : Option Time := none
  pendingFlatten : Bool := false
  deriving DecidableEq, Repr

structure ExecutionDecision where
  id : ℕ
  deploymentId : ℕ
  barCloseTime : Time
  signalAction : SignalAction
  outcome : DecisionOutcome
  requestedQuantity : Option ℚ := none
  reason : Option String := none
  deriving DecidableEq, Repr

/-- The `details` document of an order. -/
structure OrderDetails where
  flatten : Bool := false
  barCloseTime : Time
  deriving DecidableEq, Repr

structure ExecutionOrder where
  id : ℕ
  deploymentId : ℕ
  decisionId : Option ℕ
  brokerMode : BrokerMode
  side : ExecutionSide
  quantity : ℚ
  status : ExecutionOrderStatus := .intent
  reconciliationState : ReconciliationState := .notApplicable
  externalOrderId : Option String := none
  rejectionReason : Option String := none
  submittedAt : Option Time := none
  completedAt : Option Time := none
  reconciliationAttemptedAt : Option Time := none
  reconciliationError : Option String := none
  reconciledAt : Option Time := none
  reconciledBy : Option String := none
  reconciliationDetail : Option String := none
  details : OrderDetails
  deriving DecidableEq, Repr

structure ExecutionFill where
  id : ℕ
  deploymentId : ℕ
  orderId : ℕ
  record : FillRecord
  createdAt : Time
  deriving DecidableEq, Repr

structure ExecutionNetPosition where
  deploymentId : ℕ
  side : PositionSide
  quantity : ℚ
  averageEntryPrice : Option ℚ
  isOpen : Bool
  openedAt : Option Time := none
  closedAt : Option Time := none
  deriving DecidableEq, Repr

structure ExecutionLedgerEntry where
  paperAccountId : ℕ
  deploymentId : ℕ
  fillId : ℕ
  entryType : LedgerEntryType
  amount : ℚ
  balanceAfter : ℚ
  description : String
  createdAt : Time
  deriving DecidableEq, Repr

structure ExecutionRiskEvent where
  deploymentId : ℕ
  decisionId : ℕ
  rejection : RiskRejection
  deriving DecidableEq, Repr

structure ExecutionWorkerLease where
  deploymentId : ℕ
  workerId : String
  leaseToken : String
  acquiredAt : Time
  expiresAt : Time
  heartbeatAt : Time
  deriving DecidableEq, Repr

structure Database where
  accounts : List PaperAccount := []
  deployments : List ExecutionDeployment := []
  decisions : List ExecutionDecision := []
  orders : List ExecutionOrder := []
  fills : List ExecutionFill := []
  positions : List ExecutionNetPosition := []
  ledgerEntries : List ExecutionLedgerEntry := []
  riskEvents : List ExecutionRiskEvent := []
  leases : List ExecutionWorkerLease := []
  killSwitchEnabled : Bool := false
  deriving DecidableEq, Repr

namespace Database

/-! ## Accounts and deployments -/

def getPaperAccount (db : Database) (id : ℕ) : Option PaperAccount :=
  lookup PaperAccount.id db.accounts id

def updatePaperCashBalance (db : Database) (id : ℕ) (cash : ℚ) : Except ExecutionError Database :=
  match db.getPaperAccount id with
  | none => .error (.notFound "PaperAccount" id)
  | some _ => .ok { db with
      accounts := modify PaperAccount.id db.accounts id (fun a => { a with cashBalance := cash }) }

def getExecutionDeployment (db : Database) (id : ℕ) : Option ExecutionDeployment :=
  lookup ExecutionDeployment.id db.deployments id

/-- `list_deployments`; the rows are kept in creation order. -/
def listDeployments (db : Database) (lifecycles : List DeploymentLifecycle) :
    List ExecutionDeployment :=
  db.deployments.filter (fun d => d.lifecycle ∈ lifecycles)

def updateDeploymentLastBarClose (db : Database) (id : ℕ) (barCloseTime : Time) :
    Except ExecutionError Database :=
  match db.getExecutionDeployment id with
  | none => .error (.notFound "ExecutionDeployment" id)
  | some _ => .ok { db with
      deployments := modify ExecutionDeployment.id db.deployments id
        (fun d => { d with lastBarCloseTime := some barCloseTime }) }

def setPendingFlatten (db : Database) (id : ℕ) : Except ExecutionError Database :=
  match db.getExecutionDeployment id with
  | none => .error (.notFound "ExecutionDeployment" id)
  | some _ => .ok { db with
      deployments := modify ExecutionDeployment.id db.deployments id
        (fun d => { d with pendingFlatten := true }) }

def clearPendingDeploymentAction (db : Database) (id : ℕ) : Except ExecutionError Database :=
  match db.getExecutionDeployment id with
  | none => .error (.notFound "ExecutionDeployment" id)
  | some _ => .ok { db with
      deployments := modify ExecutionDeployment.id db.deployments id
        (fun d => { d with pendingFlatten := false }) }

def transitionDeploymentLifecycle (db : Database) (id : ℕ) (target : DeploymentLifecycle) :
    Except ExecutionError Database :=
  match db.getExecutionDeployment id with
  | none => .error (.notFound "ExecutionDeployment" id)
  | some deployment => do
    let _ ← validateDeploymentTransition deployment.lifecycle target
    return { db with
      deployments := modify ExecutionDeployment.id db.deployments id
        (fun d => { d with lifecycle := target }) }

/-! ## Decisions -/

def getDecisionForBar (db : Database) (deploymentId : ℕ) (barCloseTime : Time) :
    Option ExecutionDecision :=
  db.decisions.find? (fun d => d.deploymentId = deploymentId ∧ d.barCloseTime = barCloseTime)

/-- The insert meets `uq_execution_decisions_deployment_bar_close`. -/
def createExecutionDecision (db : Database) (decision : ExecutionDecision) :
    Except ExecutionError Database :=
  match db.getDecisionForBar decision.deploymentId decision.barCloseTime with
  | some _ => .error (.integrity "uq_execution_decisions_deployment_bar_close")
  | none => .ok { db with decisions := db.decisions ++ [decision] }

def updateExecutionDecisionOutcome (db : Database) (id : ℕ) (outcome : DecisionOutcome) :
    Except ExecutionError Database :=
  match lookup ExecutionDecision.id db.decisions id with
  | none => .error (.notFound "ExecutionDecision" id)
  | some _ => .ok { db with
      decisions := modify ExecutionDecision.id db.decisions id
        (fun d => { d with outcome := outcome }) }

def recordRiskEvent (db : Database) (event : ExecutionRiskEvent) : Database :=
  { db with riskEvents := db.riskEvents ++ [event] }

/-! ## Orders -/

def getExecutionOrder (db : Database) (id : ℕ) : Option ExecutionOrder :=
  lookup ExecutionOrder.id db.orders id

def createExecutionOrderIntent (db : Database) (order : ExecutionOrder) : Database :=
  { db with orders := db.orders ++ [order] }

def modifyOrder (db : Database) (id : ℕ) (f : ExecutionOrder → ExecutionOrder) : Database :=
  { db with orders := modify ExecutionOrder.id db.orders id f }

/-- The optional columns of one `transition_execution_order` call; `none` leaves a column. -/
structure OrderUpdate where
  reconciliationState : Option ReconciliationState := none
  externalOrderId : Option String := none
  rejectionReason : Option String := none
  submittedAt : Option Time := none
  completedAt : Option Time := none

def OrderUpdate.apply (u : OrderUpdate) (target : ExecutionOrderStatus) (o : ExecutionOrder) :
    ExecutionOrder :=
  { o with
    status := target
    reconciliationState := u.reconciliationState.getD o.reconciliationState
    externalOrderId := u.externalOrderId.or o.externalOrderId
    rejectionReason := u.rejectionReason.or o.rejectionReason
    submittedAt := u.submittedAt.or o.submittedAt
    completedAt := u.completedAt.or o.completedAt }

def transitionExecutionOrder (db : Database) (id : ℕ) (target : ExecutionOrderStatus)
    (update : OrderUpdate) : Except ExecutionError Database :=
  match db.getExecutionOrder id with
  | none => .error (.notFound "ExecutionOrder" id)
  | some order => do
    let _ ← validateOrderTransition order.status target
    return db.modifyOrder id (update.apply target)

def listOrdersForDeployment (db : Database) (deploymentId : ℕ) : List ExecutionOrder :=
  db.orders.filter (fun o => o.deploymentId = deploymentId)

def listPendingReconciliationOrders (db : Database) (deploymentId : Option ℕ) :
    List ExecutionOrder :=
  db.orders.filter (fun o => o.status = .unknown ∧ o.reconciliationState = .pending ∧
    ∀ d ∈ deploymentId, o.deploymentId = d)

def recordReconciliationAttempt (db : Database) (id : ℕ) (at_ : Time) (error : String) :
    Except ExecutionError Database :=
  match db.getExecutionOrder id with
  | none => .error (.notFound "ExecutionOrder" id)
  | some _ => .ok (db.modifyOrder id (fun o =>
      { o with reconciliationAttemptedAt := some at_, reconciliationError := some error }))

def finalizeOrderReconciliation (db : Database) (id : ℕ) (reconciledBy : String)
    (detail : Option String) (at_ : Time) : Except ExecutionError Database :=
  match db.getExecutionOrder id with
  | none => .error (.notFound "ExecutionOrder" id)
  | some _ => .ok (db.modifyOrder id (fun o =>
      { o with
        reconciliationState := .reconciled
        reconciledAt := some at_
        reconciledBy := some reconciledBy
        reconciliationDetail := detail
        reconciliationError := none }))

/-- `mark_incomplete_orders_unknown` on the orders listed before the loop. -/
def markOrdersUnknown (reason : String) : List ExecutionOrder → Database →
    Except ExecutionError Database
  | [], db => .ok db
  | order :: rest, db => do
    let db ← db.transitionExecutionOrder order.id .unknown
      { reconciliationState := some .pending, rejectionReason := some reason }
    markOrdersUnknown reason rest db

/-- The orders whose intent was committed and whose outcome was not. -/
def listIncompleteOrders (db : Database) (deploymentId : ℕ) : List ExecutionOrder :=
  (db.listOrdersForDeployment deploymentId).filter
    (fun o => o.status = .intent ∨ o.status = .submitted)

def markIncompleteOrdersUnknown (db : Database) (deploymentId : ℕ) :
    Except ExecutionError (Database × ℕ) := do
  let incomplete := db.listIncompleteOrders deploymentId
  let db ← markOrdersUnknown "recovery: incomplete order intent" incomplete db
  return (db, incomplete.length)

/-! ## Fills, ledger and net positions -/

def getExecutionFillByExternalId (db : Database) (brokerMode : BrokerMode)
    (externalFillId : String) : Option ExecutionFill :=
  db.fills.find? (fun f => f.record.brokerMode = brokerMode ∧
    f.record.externalFillId = externalFillId)

/-- The insert meets `uq_execution_fills_broker_external_id`. -/
def createExecutionFill (db : Database) (fill : ExecutionFill) : Except ExecutionError Database :=
  match db.getExecutionFillByExternalId fill.record.brokerMode fill.record.externalFillId with
  | some _ => .error (.integrity "uq_execution_fills_broker_external_id")
  | none => .ok { db with fills := db.fills ++ [fill] }

def appendLedgerEntry (db : Database) (entry : ExecutionLedgerEntry) : Database :=
  { db with ledgerEntries := db.ledgerEntries ++ [entry] }

/-- The partial unique index keeps at most one open row for each deployment. -/
def openPosition (positions : List ExecutionNetPosition) (deploymentId : ℕ) :
    Option ExecutionNetPosition :=
  positions.find? (fun p => p.deploymentId = deploymentId ∧ p.isOpen)

def getOpenNetPosition (db : Database) (deploymentId : ℕ) : Option ExecutionNetPosition :=
  openPosition db.positions deploymentId

def modifyOpen (positions : List ExecutionNetPosition) (deploymentId : ℕ)
    (f : ExecutionNetPosition → ExecutionNetPosition) : List ExecutionNetPosition :=
  positions.map (fun p => if p.deploymentId = deploymentId ∧ p.isOpen then f p else p)

/-- The position table after `upsert_open_net_position`. A flat target closes the open row; any
other target opens a row or rewrites the open one, whose `opened_at` is kept. -/
def upsertPositions (positions : List ExecutionNetPosition) (deploymentId : ℕ)
    (side : PositionSide) (quantity : ℚ) (averageEntryPrice : Option ℚ) (now : Time) :
    List ExecutionNetPosition :=
  if side = .flat ∨ quantity = 0 then
    match openPosition positions deploymentId with
    | some _ => modifyOpen positions deploymentId (fun p =>
        { p with
          side := .flat, quantity := 0, averageEntryPrice := none
          isOpen := false, closedAt := some now })
    | none => positions ++ [
        { deploymentId, side := .flat, quantity := 0, averageEntryPrice := none
          isOpen := false, closedAt := some now }]
  else
    match openPosition positions deploymentId with
    | none => positions ++ [
        { deploymentId, side, quantity, averageEntryPrice, isOpen := true, openedAt := some now }]
    | some _ => modifyOpen positions deploymentId (fun p =>
        { p with
          side, quantity, averageEntryPrice, isOpen := true
          openedAt := p.openedAt.or (some now), closedAt := none })

def upsertOpenNetPosition (db : Database) (deploymentId : ℕ) (side : PositionSide)
    (quantity : ℚ) (averageEntryPrice : Option ℚ) (now : Time) : Database :=
  { db with
    positions := upsertPositions db.positions deploymentId side quantity averageEntryPrice now }

/-- `sum_realized_pnl_since`. -/
def sumRealizedPnlSince (db : Database) (accountId : ℕ) (since : Time) : ℚ :=
  ((db.ledgerEntries.filter (fun e => e.paperAccountId = accountId ∧
    e.entryType = .realizedPnl ∧ since ≤ e.createdAt)).map (·.amount)).sum

/-! ## Worker leases -/

def getWorkerLease (db : Database) (deploymentId : ℕ) : Option ExecutionWorkerLease :=
  lookup ExecutionWorkerLease.deploymentId db.leases deploymentId

def acquireWorkerLease (db : Database) (deploymentId : ℕ) (workerId leaseToken : String)
    (ttl now : Time) : Except ExecutionError Database :=
  match db.getWorkerLease deploymentId with
  | some current =>
    if now < current.expiresAt ∧ current.workerId ≠ workerId then
      .error (.leaseConflict deploymentId current.workerId)
    else .ok { db with
      leases := modify ExecutionWorkerLease.deploymentId db.leases deploymentId (fun l =>
        { l with
          workerId, leaseToken, acquiredAt := now, expiresAt := now + ttl, heartbeatAt := now }) }
  | none => .ok { db with leases := db.leases ++ [
      { deploymentId, workerId, leaseToken
        acquiredAt := now, expiresAt := now + ttl, heartbeatAt := now }] }

def heartbeatWorkerLease (db : Database) (deploymentId : ℕ) (workerId leaseToken : String)
    (ttl now : Time) : Except ExecutionError Database :=
  match db.getWorkerLease deploymentId with
  | none => .error (.leaseMissing deploymentId)
  | some lease =>
    if lease.workerId ≠ workerId ∨ lease.leaseToken ≠ leaseToken then .error .leaseMismatch
    else .ok { db with
      leases := modify ExecutionWorkerLease.deploymentId db.leases deploymentId (fun l =>
        { l with heartbeatAt := now, expiresAt := now + ttl }) }

def releaseWorkerLease (db : Database) (deploymentId : ℕ) (workerId leaseToken : String) :
    Except ExecutionError Database :=
  match db.getWorkerLease deploymentId with
  | none => .ok db
  | some lease =>
    if lease.workerId ≠ workerId ∨ lease.leaseToken ≠ leaseToken then .error .leaseMismatch
    else .ok { db with leases := db.leases.filter (fun l => l.deploymentId ≠ deploymentId) }

def releaseExpiredLeases (db : Database) (now : Time) : Database :=
  { db with leases := db.leases.filter (fun l => now < l.expiresAt) }

end Database

end QBackend.Execution
