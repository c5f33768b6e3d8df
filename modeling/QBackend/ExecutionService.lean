import QBackend.RiskGate

/-!
# The execution service

`ExecutionService.process_completed_bar` of `execution/service.py`: decision, risk gate, intent
commit, broker call, outcome commit. A database session is a committed database and the
transaction's working copy. What the outside does during one call (the quotes, the clock, the
broker's answers, a crash at a checkpoint) is an argument of the call.
-/

namespace QBackend.Execution

/-! ## Sessions and the world around them -/

structure Session where
  committed : Database
  working : Database
  deriving DecidableEq

/-- One call of `broker.submit_market_order`, with the order table as committed at the call. -/
structure Submission where
  request : MarketOrderRequest
  orders : List ExecutionOrder
  deriving DecidableEq

/-- The orders that callers were told are filled, by committed transactions and by the open
one. -/
structure FillReports where
  durable : List ℕ := []
  pending : List ℕ := []
  deriving DecidableEq

def FillReports.flush (r : FillReports) : FillReports := ⟨r.durable ++ r.pending, []⟩

def FillReports.drop (r : FillReports) : FillReports := ⟨r.durable, []⟩

/-- A session, the supply of fresh identifiers, the broker calls made so far and the fills
reported so far. Identifiers and broker calls are not undone by a rollback. -/
structure World where
  session : Session
  nextId : ℕ
  submissions : List Submission := []
  reports : FillReports := {}
  deriving DecidableEq

namespace World

def commit (w : World) (db : Database) : World :=
  { w with session := ⟨db, db⟩, reports := w.reports.flush }

def rollback (w : World) : World :=
  { w with
    session := ⟨w.session.committed, w.session.committed⟩
    reports := w.reports.drop }

/-- Commits a fill and tells the caller. -/
def commitFill (w : World) (db : Database) (orderId : ℕ) : World :=
  { w with
    session := ⟨db, db⟩
    reports := ⟨w.reports.durable ++ w.reports.pending ++ [orderId], []⟩ }

end World

/-- How a checkpoint interrupts a call: an exception, or the death of the process. -/
inductive Interruption where
  | raise | kill
  deriving DecidableEq, Repr

inductive Failure where
  | raised (error : ExecutionError)
  | killed
  deriving DecidableEq, Repr

def Interruption.failure (i : Interruption) (checkpoint : Checkpoint) : Failure :=
  match i with
  | .raise => .raised (.crashInjected checkpoint)
  | .kill => .killed

/-- A call that fails leaves its session to the owner, whose `with` block closes it: what was
not committed is gone. -/
def World.fail {α : Type} (w : World) (f : Failure) : World × Except Failure α :=
  (w.rollback, .error f)

/-! ## One call -/

structure ServiceConfig where
  workerId : String := "worker"
  pointValue : ℚ := 1
  costConfig : PaperCostConfig := {}
  maxBarAgeSeconds : ℚ := 7200

structure BarCall where
  deploymentId : ℕ
  result : ForwardDecisionResult
  leaseToken : String
  allowLifecycleBypass : Bool := false
  flatten : Bool := false

structure BarEnvironment where
  broker : ExecutionBroker
  quotes : String → Option ExecutableQuote
  now : Time
  crash : Checkpoint → Option Interruption := fun _ => none

structure BarProcessResult where
  deploymentId : ℕ
  barCloseTime : Time
  decisionId : Option ℕ
  outcome : DecisionOutcome
  orderId : Option ℕ := none
  duplicate : Bool := false
  rejection : Option RiskRejection := none
  deriving DecidableEq, Repr

def mapSignalToOrder (signal : SignalAction) (positionSide : PositionSide)
    (positionQuantity : ℚ) (requestedQuantity : Option ℚ) : Option (ExecutionSide × ℚ) :=
  match signal with
  | .hold => none
  | .buy => requestedQuantity.bind (fun q => if q ≤ 0 then none else some (.buy, q))
  | .sell => requestedQuantity.bind (fun q => if q ≤ 0 then none else some (.sell, q))
  | .close =>
    if positionSide = .long ∧ 0 < positionQuantity then some (.sell, positionQuantity)
    else if positionSide = .short ∧ 0 < positionQuantity then some (.buy, positionQuantity)
    else none

def utcDayStart (now : Time) : Time := now - now % 86400000000

/-- Python's `or` on the two risk documents: the deployment's when it has any key. -/
def riskConfigOf (deployment : ExecutionDeployment) (account : PaperAccount) : RiskConfig :=
  if deployment.riskConfig.isEmpty then
    if account.riskConfig.isEmpty then {} else account.riskConfig
  else deployment.riskConfig

def leaseHeld (db : Database) (deploymentId : ℕ) (workerId leaseToken : String) : Bool :=
  match db.getWorkerLease deploymentId with
  | none => false
  | some lease => lease.workerId = workerId ∧ lease.leaseToken = leaseToken

/-- The row that `create_execution_decision` writes before anything is decided. -/
def initialDecision (call : BarCall) (decisionId : ℕ) : ExecutionDecision :=
  { id := decisionId
    deploymentId := call.deploymentId
    barCloseTime := call.result.barCloseTime
    signalAction := call.result.signalAction
    outcome := if call.result.signalAction = .hold then .hold else .signal
    requestedQuantity := call.result.requestedQuantity
    reason := call.result.reason }

/-- The outcome of the decision and, except after an empty flatten, the deployment's watermark. -/
def concludeDecision (db : Database) (call : BarCall) (decisionId : ℕ)
    (outcome : DecisionOutcome) : Except ExecutionError Database := do
  let db ← db.updateExecutionDecisionOutcome decisionId outcome
  db.updateDeploymentLastBarClose call.deploymentId call.result.barCloseTime

/-- What the call has decided when it reaches its first commit. -/
inductive Preparation where
  | concluded (db : Database) (outcome : DecisionOutcome) (rejection : Option RiskRejection)
  | intent (db : Database) (order : ExecutionOrder)

def riskContextOf (cfg : ServiceConfig) (db : Database) (deployment : ExecutionDeployment)
    (account : PaperAccount) (call : BarCall) (env : BarEnvironment) (side : ExecutionSide)
    (quantity : ℚ) (snapshot : BrokerAccountSnapshot) : RiskContext :=
  { lifecycle := deployment.lifecycle
    symbol := deployment.symbol
    barCloseTime := call.result.barCloseTime
    side, quantity
    quote := env.quotes deployment.symbol
    now := env.now
    killSwitchEnabled := db.killSwitchEnabled
    leaseHeld := leaseHeld db deployment.id cfg.workerId call.leaseToken
    hasUnknownOrders := deploymentHasUnknownOrders (db.listOrdersForDeployment deployment.id)
    positionSide := (db.holding deployment.id).side
    positionQuantity := (db.holding deployment.id).quantity
    equity := snapshot.equity
    dailyRealizedPnl := db.sumRealizedPnlSince account.id (utcDayStart env.now)
    maxDailyLoss := (riskConfigOf deployment account).maxDailyLoss
    maxNotional := (riskConfigOf deployment account).maxNotional
    pointValue := cfg.pointValue
    costConfig := cfg.costConfig
    maxBarAgeSeconds := cfg.maxBarAgeSeconds
    allowLifecycleBypass := call.allowLifecycleBypass || call.flatten }

/-- The order row of `create_execution_order_intent`. -/
def intentOrder (deployment : ExecutionDeployment) (call : BarCall) (decisionId orderId : ℕ)
    (side : ExecutionSide) (quantity : ℚ) : ExecutionOrder :=
  { id := orderId, deploymentId := deployment.id, decisionId := some decisionId
    brokerMode := deployment.brokerMode, side, quantity
    details := { flatten := call.flatten, barCloseTime := call.result.barCloseTime } }

/-- The risk gate on a mapped order. -/
def gateOrder (cfg : ServiceConfig) (db : Database) (deployment : ExecutionDeployment)
    (call : BarCall) (env : BarEnvironment) (decisionId orderId : ℕ) (side : ExecutionSide)
    (quantity : ℚ) : Except ExecutionError Preparation :=
  match db.getPaperAccount deployment.paperAccountId with
  | none => .error (.notFound "PaperAccount" deployment.paperAccountId)
  | some account => do
    let snapshot ← accountSnapshot db account.id deployment.id deployment.symbol
      (env.quotes deployment.symbol) cfg.pointValue env.now
    match (riskContextOf cfg db deployment account call env side quantity snapshot).evaluate with
    | some rejection =>
      let db := db.recordRiskEvent
        { deploymentId := deployment.id, decisionId, rejection }
      let db ← concludeDecision db call decisionId .riskRejected
      return .concluded db .riskRejected (some rejection)
    | none =>
      let order := intentOrder deployment call decisionId orderId side quantity
      return .intent (db.createExecutionOrderIntent order) order

/-- From the decision row to the first commit. -/
def prepareOrder (cfg : ServiceConfig) (db : Database) (deployment : ExecutionDeployment)
    (call : BarCall) (env : BarEnvironment) (decisionId orderId : ℕ) :
    Except ExecutionError Preparation := do
  let db ← db.createExecutionDecision (initialDecision call decisionId)
  if call.result.signalAction = .hold ∧ ¬ call.flatten then
    let db ← db.updateDeploymentLastBarClose call.deploymentId call.result.barCloseTime
    return .concluded db .hold none
  else
    let position := db.holding deployment.id
    if call.flatten then
      match mapSignalToOrder .close position.side position.quantity none with
      | none =>
        let db ← db.updateExecutionDecisionOutcome decisionId .hold
        return .concluded db .hold none
      | some (side, quantity) =>
        gateOrder cfg db deployment call env decisionId orderId side quantity
    else
      match mapSignalToOrder call.result.signalAction position.side position.quantity
          call.result.requestedQuantity with
      | none =>
        let db ← concludeDecision db call decisionId .hold
        return .concluded db .hold none
      | some (side, quantity) =>
        gateOrder cfg db deployment call env decisionId orderId side quantity

/-- The request the broker receives for an order. -/
def submissionRequest (deployment : ExecutionDeployment) (order : ExecutionOrder) :
    MarketOrderRequest :=
  { deploymentId := deployment.id, orderId := order.id, symbol := deployment.symbol
    side := order.side, quantity := order.quantity
    externalFillId := "paper:" ++ toString order.id }

/-- The handler of a failed fill: the order is parked for the reconciler in a transaction of
its own. -/
def parkUnpersistedFill (db : Database) (orderId decisionId : ℕ) :
    Except ExecutionError Database := do
  let db ← db.transitionExecutionOrder orderId .unknown
    { reconciliationState := some .pending, rejectionReason := some "fill persistence failed" }
  db.updateExecutionDecisionOutcome decisionId .orderUnknown

def fillApplicationOf (cfg : ServiceConfig) (deployment : ExecutionDeployment) (orderId fillId : ℕ)
    (fill : FillRecord) (reconciling : Bool) (now : Time) : FillApplication :=
  { paperAccountId := deployment.paperAccountId, deploymentId := deployment.id, orderId, fillId
    fill, pointValue := cfg.pointValue, symbol := deployment.symbol, reconciling
    createdAt := now }

def barResult (call : BarCall) (decisionId : ℕ) (outcome : DecisionOutcome) (orderId : Option ℕ)
    (rejection : Option RiskRejection := none) : BarProcessResult :=
  { deploymentId := call.deploymentId, barCloseTime := call.result.barCloseTime
    decisionId := some decisionId, outcome, orderId, rejection }

/-- Writes, commits and reports an outcome, or fails. -/
def World.settle (w : World) (db : Except ExecutionError Database) (result : BarProcessResult) :
    World × Except Failure BarProcessResult :=
  match db with
  | .error e => w.fail (.raised e)
  | .ok db => (w.commit db, .ok result)

/-- The fill, its decision and the watermark in one transaction. An exception in it parks the
order and is raised again; the death of the process parks nothing. -/
def persistFill (cfg : ServiceConfig) (w : World) (deployment : ExecutionDeployment)
    (call : BarCall) (env : BarEnvironment) (decisionId : ℕ) (order : ExecutionOrder)
    (fillId : ℕ) (fill : FillRecord) : World × Except Failure BarProcessResult :=
  let park (e : ExecutionError) : World × Except Failure BarProcessResult :=
    match parkUnpersistedFill w.session.committed order.id decisionId with
    | .error e' => w.fail (.raised e')
    | .ok db => (w.commit db).fail (.raised e)
  match applyFill w.session.working
      (fillApplicationOf cfg deployment order.id fillId fill false env.now) with
  | .error e => park e
  | .ok (db, _) =>
    match env.crash .beforeFillCommit with
    | some .kill => w.fail .killed
    | some .raise => park (.crashInjected .beforeFillCommit)
    | none =>
      match concludeDecision db call decisionId .orderFilled with
      | .error e => park e
      | .ok db =>
        (w.commitFill db order.id, .ok (barResult call decisionId .orderFilled (some order.id)))

/-- What the service writes for the broker's answer. -/
def recordSubmission (cfg : ServiceConfig) (w : World) (deployment : ExecutionDeployment)
    (call : BarCall) (env : BarEnvironment) (decisionId : ℕ) (order : ExecutionOrder)
    (fillId : ℕ) (submission : BrokerSubmissionResult) :
    World × Except Failure BarProcessResult :=
  if submission.outcome = .unknown then
    w.settle (do
        let db ← w.session.working.transitionExecutionOrder order.id .unknown
          { reconciliationState := some .pending, rejectionReason := some "broker outcome unknown"
            externalOrderId := submission.externalOrderId }
        concludeDecision db call decisionId .orderUnknown)
      (barResult call decisionId .orderUnknown (some order.id))
  else
    match submission.accepted, submission.fill with
    | true, some fill => persistFill cfg w deployment call env decisionId order fillId fill
    | _, _ =>
      let reason := (submission.rejection.map (·.message)).getD "broker rejected order"
      w.settle (do
          let db ← w.session.working.transitionExecutionOrder order.id .rejected
            { rejectionReason := some reason, completedAt := some env.now }
          concludeDecision db call decisionId .orderRejected)
        (barResult call decisionId .orderRejected (some order.id))

/-- From the committed intent to the end of the call. -/
def submitIntent (cfg : ServiceConfig) (w : World) (deployment : ExecutionDeployment)
    (call : BarCall) (env : BarEnvironment) (decisionId : ℕ) (order : ExecutionOrder)
    (fillId : ℕ) : World × Except Failure BarProcessResult :=
  match env.crash .afterIntentCommit with
  | some i => w.fail (i.failure .afterIntentCommit)
  | none =>
    let request := submissionRequest deployment order
    let w := { w with submissions := w.submissions ++ [⟨request, w.session.committed.orders⟩] }
    match env.broker.submitMarketOrder request cfg.costConfig with
    | .error e => w.fail (.raised e)
    | .ok submission =>
      match env.crash .afterBrokerResponse with
      | some i => w.fail (i.failure .afterBrokerResponse)
      | none => recordSubmission cfg w deployment call env decisionId order fillId submission

def processCompletedBar (cfg : ServiceConfig) (w : World) (call : BarCall) (env : BarEnvironment) :
    World × Except Failure BarProcessResult :=
  let db := w.session.working
  match db.getExecutionDeployment call.deploymentId with
  | none => w.fail (.raised (.notFound "ExecutionDeployment" call.deploymentId))
  | some deployment =>
    if ¬ call.result.emitsDecision then
      (w, .ok { deploymentId := deployment.id, barCloseTime := call.result.barCloseTime
                decisionId := none, outcome := .hold
                duplicate := call.result.skippedDuplicate })
    else
      match db.getDecisionForBar deployment.id call.result.barCloseTime with
      | some existing =>
        (w, .ok { deploymentId := deployment.id, barCloseTime := call.result.barCloseTime
                  decisionId := some existing.id, outcome := existing.outcome, duplicate := true })
      | none =>
        let decisionId := w.nextId
        let orderId := w.nextId + 1
        let fillId := w.nextId + 2
        let w := { w with nextId := w.nextId + 3 }
        match prepareOrder cfg db deployment call env decisionId orderId with
        | .error e => w.fail (.raised e)
        | .ok (.concluded db outcome rejection) =>
          (w.commit db, .ok (barResult call decisionId outcome none rejection))
        | .ok (.intent db order) =>
          match env.crash .beforeIntentCommit with
          | some i => w.fail (i.failure .beforeIntentCommit)
          | none =>
            submitIntent cfg (w.commit db) deployment call env decisionId order fillId

/-- `flatten_deployment`: a CLOSE decision at the clock's time that bypasses the lifecycle. -/
def flattenCall (deploymentId : ℕ) (leaseToken : String) (now : Time) : BarCall :=
  { deploymentId, leaseToken
    result := { barCloseTime := now, signalAction := .close, reason := some "flatten" }
    allowLifecycleBypass := true, flatten := true }

end QBackend.Execution
