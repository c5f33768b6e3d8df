import QBackend.DeploymentRows
import QBackend.InterleavedCommits
import QBackend.WorkerLeases

/-!
# Sessions of several processes on one database

Workers and API requests each have a session of their own, under read committed isolation and
with `expire_on_commit=False`: a row that a session holds may be as old as the session. A flush
writes the columns that the session changed in its copy of a row and inserts its new rows; the
unique constraints are checked on the result. A transaction is a list of works, the bodies of
the functions that the processes run between two commits.
-/

namespace QBackend.Execution

open KeyedTables FallibleSteps InterleavedCommits

/-! ## Flushes -/

def PaperAccount.merge (loaded written stored : PaperAccount) : PaperAccount :=
  { stored with
    cashBalance := mergeColumn loaded.cashBalance written.cashBalance stored.cashBalance }

def ExecutionDeployment.merge (loaded written stored : ExecutionDeployment) : ExecutionDeployment :=
  { stored with
    lifecycle := mergeColumn loaded.lifecycle written.lifecycle stored.lifecycle
    lastBarCloseTime :=
      mergeColumn loaded.lastBarCloseTime written.lastBarCloseTime stored.lastBarCloseTime
    pendingFlatten := mergeColumn loaded.pendingFlatten written.pendingFlatten stored.pendingFlatten }

def ExecutionDecision.merge (loaded written stored : ExecutionDecision) : ExecutionDecision :=
  { stored with outcome := mergeColumn loaded.outcome written.outcome stored.outcome }

def ExecutionOrder.merge (loaded written stored : ExecutionOrder) : ExecutionOrder :=
  let column {V : Type} [DecidableEq V] (c : ExecutionOrder → V) : V :=
    mergeColumn (c loaded) (c written) (c stored)
  { stored with
    status := column (·.status)
    reconciliationState := column (·.reconciliationState)
    externalOrderId := column (·.externalOrderId)
    rejectionReason := column (·.rejectionReason)
    submittedAt := column (·.submittedAt)
    completedAt := column (·.completedAt)
    reconciliationAttemptedAt := column (·.reconciliationAttemptedAt)
    reconciliationError := column (·.reconciliationError)
    reconciledAt := column (·.reconciledAt)
    reconciledBy := column (·.reconciledBy)
    reconciliationDetail := column (·.reconciliationDetail) }

def ExecutionNetPosition.merge (loaded written stored : ExecutionNetPosition) :
    ExecutionNetPosition :=
  let column {V : Type} [DecidableEq V] (c : ExecutionNetPosition → V) : V :=
    mergeColumn (c loaded) (c written) (c stored)
  { stored with
    side := column (·.side)
    quantity := column (·.quantity)
    averageEntryPrice := column (·.averageEntryPrice)
    isOpen := column (·.isOpen)
    openedAt := column (·.openedAt)
    closedAt := column (·.closedAt) }

def ExecutionWorkerLease.merge (loaded written stored : ExecutionWorkerLease) :
    ExecutionWorkerLease :=
  let column {V : Type} [DecidableEq V] (c : ExecutionWorkerLease → V) : V :=
    mergeColumn (c loaded) (c written) (c stored)
  { stored with
    workerId := column (·.workerId)
    leaseToken := column (·.leaseToken)
    acquiredAt := column (·.acquiredAt)
    expiresAt := column (·.expiresAt)
    heartbeatAt := column (·.heartbeatAt) }

/-- Rows of fills, ledger entries and risk events are never updated. -/
def mergeInserts {Row : Type} : List Row → List Row → List Row → List Row :=
  mergeRows (fun _ _ stored => stored)

/-- The deployments with an open position row, under the partial unique index. -/
def Database.openDeployments (db : Database) : List ℕ :=
  (db.positions.filter (·.isOpen)).map ExecutionNetPosition.deploymentId

/-- The first unique constraint of the models that the tables break. -/
def Database.violated (db : Database) : Option String :=
  if ¬ (db.accounts.map PaperAccount.id).Nodup then some "paper_accounts_pkey"
  else if ¬ (db.orders.map ExecutionOrder.id).Nodup then some "execution_orders_pkey"
  else if ¬ (db.leases.map ExecutionWorkerLease.deploymentId).Nodup then
    some "execution_worker_leases_pkey"
  else if ¬ (db.decisions.map (fun d => (d.deploymentId, d.barCloseTime))).Nodup then
    some "uq_execution_decisions_deployment_bar_close"
  else if ¬ db.recordedKeys.Nodup then some "uq_execution_fills_broker_external_id"
  else if ¬ db.openDeployments.Nodup then some "uq_execution_net_positions_one_open"
  else none

/-- What a flush leaves in the database of a session that loaded one state and changed it into
another. -/
def Database.mergeTables (loaded written stored : Database) : Database where
  accounts := mergeKeyed PaperAccount.id PaperAccount.merge loaded.accounts written.accounts
    stored.accounts
  deployments := mergeKeyed ExecutionDeployment.id ExecutionDeployment.merge loaded.deployments
    written.deployments stored.deployments
  decisions := mergeKeyed ExecutionDecision.id ExecutionDecision.merge loaded.decisions
    written.decisions stored.decisions
  orders := mergeKeyed ExecutionOrder.id ExecutionOrder.merge loaded.orders written.orders
    stored.orders
  fills := mergeInserts loaded.fills written.fills stored.fills
  positions := mergeRows ExecutionNetPosition.merge loaded.positions written.positions
    stored.positions
  ledgerEntries := mergeInserts loaded.ledgerEntries written.ledgerEntries stored.ledgerEntries
  riskEvents := mergeInserts loaded.riskEvents written.riskEvents stored.riskEvents
  leases := mergeKeyed ExecutionWorkerLease.deploymentId ExecutionWorkerLease.merge loaded.leases
    written.leases stored.leases
  killSwitchEnabled :=
    mergeColumn loaded.killSwitchEnabled written.killSwitchEnabled stored.killSwitchEnabled

def Database.flush (loaded written stored : Database) : Except ExecutionError Database :=
  let db := Database.mergeTables loaded written stored
  match db.violated with
  | some name => .error (.integrity name)
  | none => .ok db

/-! ## Works -/

/-- What a process does between two commits. The identifiers of new rows are arguments. -/
inductive Work where
  /-- `process_completed_bar` up to its first commit. -/
  | prepare (call : BarCall) (env : BarEnvironment) (decisionId orderId : ℕ)
  /-- The fill commit of `process_completed_bar`. -/
  | fill (call : BarCall) (decisionId orderId fillId : ℕ) (record : FillRecord) (now : Time)
  /-- The commit of an unknown outcome. -/
  | unknown (call : BarCall) (decisionId orderId : ℕ) (externalOrderId : Option String)
  /-- The commit of a rejection. -/
  | rejected (call : BarCall) (decisionId orderId : ℕ) (reason : String) (now : Time)
  /-- The handler of a failed fill commit. -/
  | park (decisionId orderId : ℕ)
  /-- A reconciliation pass over one deployment or over all. -/
  | reconcile (deploymentId : Option ℕ) (broker : ExecutionBroker) (now : Time) (nextId : ℕ)
  /-- The operator's `resolve_order`. -/
  | resolve (orderId : ℕ) (body : OrderResolutionRequest) (fillId : ℕ) (now : Time)
  /-- `ExecutionRecovery.recover`. -/
  | recover (quotes : String → Option ExecutableQuote) (now : Time)
  | acquireLease (deploymentId : ℕ) (leaseToken : String) (ttl now : Time)
  | heartbeatLease (deploymentId : ℕ) (leaseToken : String) (ttl now : Time)
  | releaseLease (deploymentId : ℕ) (leaseToken : String)
  | operate (command : OperatorCommand)
  | clearPending (deploymentId : ℕ)

/-- The rows that a booking reads: its order, the position of its deployment and its account. -/
structure BookedRows where
  orderId : ℕ
  deploymentId : ℕ
  paperAccountId : ℕ
  deriving DecidableEq, Repr

/-- A write with the rows it books on, if it may book a fill. -/
structure SessionWrite where
  books : Option BookedRows := none
  run : Database → Except ExecutionError Database

/-- A write on the rows of an order and of a deployment that the session has loaded. -/
def bookingWrite (loaded : Database) (orderId deploymentId : ℕ)
    (run : ExecutionDeployment → Database → Except ExecutionError Database) : SessionWrite :=
  match loaded.getExecutionDeployment deploymentId with
  | none => { run := fun _ => .error (.notFound "ExecutionDeployment" deploymentId) }
  | some deployment =>
    { books := some ⟨orderId, deployment.id, deployment.paperAccountId⟩, run := run deployment }

/-- The fill commit: `apply_fill`, the decision and the watermark. -/
def commitFill (cfg : ServiceConfig) (call : BarCall) (decisionId orderId fillId : ℕ)
    (fill : FillRecord) (now : Time) (deployment : ExecutionDeployment) (db : Database) :
    Except ExecutionError Database := do
  let (db, _) ← applyFill db (fillApplicationOf cfg deployment orderId fillId fill false now)
  concludeDecision db call decisionId .orderFilled

/-- One order of a pass. -/
def reconcileWrite (cfg : ServiceConfig) (broker : ExecutionBroker) (now : Time)
    (order : ExecutionOrder) (fillId : ℕ) (deployment : ExecutionDeployment) (db : Database) :
    Except ExecutionError Database :=
  (reconcileOrder cfg broker now db order deployment fillId).map Prod.fst

/-- `resolve_order` on the row that the request has loaded. -/
def resolveWrite (cfg : ServiceConfig) (order : ExecutionOrder) (body : OrderResolutionRequest)
    (fillId : ℕ) (now : Time) (deployment : ExecutionDeployment) (db : Database) :
    Except ExecutionError Database :=
  (resolveOrderManually cfg db order deployment body.outcome body.actor body.reason
    (body.fillFor order now) fillId now).map Prod.fst

/-- The orders of a pass: those whose deployment is known. -/
def passOrders (db : Database) (deploymentId : Option ℕ) : List ExecutionOrder :=
  (db.listPendingReconciliationOrders deploymentId).filter
    (fun o => (db.getExecutionDeployment o.deploymentId).isSome)

/-- The writes of a work, from what its session has loaded when the work begins. -/
def Work.writes (cfg : ServiceConfig) (loaded : Database) : Work → List SessionWrite
  | .prepare call env decisionId orderId =>
    match loaded.getExecutionDeployment call.deploymentId with
    | none => [{ run := fun _ => .error (.notFound "ExecutionDeployment" call.deploymentId) }]
    | some deployment =>
      [{ run := fun db =>
          (prepareOrder cfg db deployment call env decisionId orderId).map Preparation.database }]
  | .fill call decisionId orderId fillId record now =>
    [bookingWrite loaded orderId call.deploymentId
      (commitFill cfg call decisionId orderId fillId record now)]
  | .unknown call decisionId orderId externalOrderId =>
    [{ run := fun db => do
        let db ← db.transitionExecutionOrder orderId .unknown
          { reconciliationState := some .pending, rejectionReason := some "broker outcome unknown"
            externalOrderId }
        concludeDecision db call decisionId .orderUnknown }]
  | .rejected call decisionId orderId reason now =>
    [{ run := fun db => do
        let db ← db.transitionExecutionOrder orderId .rejected
          { rejectionReason := some reason, completedAt := some now }
        concludeDecision db call decisionId .orderRejected }]
  | .park decisionId orderId => [{ run := fun db => parkUnpersistedFill db orderId decisionId }]
  | .reconcile deploymentId broker now nextId =>
    ((passOrders loaded deploymentId).zipIdx nextId).map (fun (order, fillId) =>
      bookingWrite loaded order.id order.deploymentId (reconcileWrite cfg broker now order fillId))
  | .resolve orderId body fillId now =>
    match loaded.getExecutionOrder orderId with
    | none => [{ run := fun _ => .error (.notFound "ExecutionOrder" orderId) }]
    | some order =>
      [bookingWrite loaded orderId order.deploymentId (resolveWrite cfg order body fillId now)]
  | .recover quotes now => [{ run := fun db => (Execution.recover db quotes now).map Prod.fst }]
  | .acquireLease deploymentId leaseToken ttl now =>
    [{ run := fun db => db.acquireWorkerLease deploymentId cfg.workerId leaseToken ttl now }]
  | .heartbeatLease deploymentId leaseToken ttl now =>
    [{ run := fun db => db.heartbeatWorkerLease deploymentId cfg.workerId leaseToken ttl now }]
  | .releaseLease deploymentId leaseToken =>
    [{ run := fun db => db.releaseWorkerLease deploymentId cfg.workerId leaseToken }]
  | .operate command => [{ run := fun db => command.apply db }]
  | .clearPending deploymentId => [{ run := fun db => db.clearPendingDeploymentAction deploymentId }]

/-! ## Transactions and their runs -/

/-- The works between two commits of a process, with the settings of that process. -/
structure Transaction where
  config : ServiceConfig
  works : List Work

/-- Works one after another, each on what the earlier ones left. -/
def runWorks (cfg : ServiceConfig) :
    List Work → Database → Database → Except ExecutionError (Database × Database)
  | [], loaded, stored => .ok (loaded, stored)
  | work :: works, loaded, stored => do
    let (loaded, stored) ← writeThrough SessionWrite.run Database.flush (work.writes cfg loaded)
      loaded stored
    runWorks cfg works loaded stored

def Transaction.execute (t : Transaction) (loaded stored : Database) :
    Except ExecutionError Database :=
  (runWorks t.config t.works loaded stored).map Prod.snd

/-- Every row of the table is what it was in some earlier version of the table. -/
def RowsFrom {Row : Type} (versions : List (List Row)) (rows : List Row) : Prop :=
  ∀ i : ℕ, ∃ version ∈ versions, rows[i]? = version[i]?

/-- Read committed: whatever a session holds was committed, each row at a time of its own. -/
structure ReadCommitted (past : List Database) (loaded : Database) : Prop where
  accounts : RowsFrom (past.map (·.accounts)) loaded.accounts
  deployments : RowsFrom (past.map (·.deployments)) loaded.deployments
  decisions : RowsFrom (past.map (·.decisions)) loaded.decisions
  orders : RowsFrom (past.map (·.orders)) loaded.orders
  fills : RowsFrom (past.map (·.fills)) loaded.fills
  positions : RowsFrom (past.map (·.positions)) loaded.positions
  ledgerEntries : RowsFrom (past.map (·.ledgerEntries)) loaded.ledgerEntries
  riskEvents : RowsFrom (past.map (·.riskEvents)) loaded.riskEvents
  leases : ∀ d, ∃ db ∈ past, loaded.getWorkerLease d = db.getWorkerLease d
  killSwitch : ∃ db ∈ past, loaded.killSwitchEnabled = db.killSwitchEnabled

theorem readCommitted_of_mem {past : List Database} {db : Database} (h : db ∈ past) :
    ReadCommitted past db := by
  have hrows : ∀ {Row : Type} (table : Database → List Row), RowsFrom (past.map table) (table db) :=
    fun table i => ⟨table db, List.mem_map_of_mem h, rfl⟩
  exact ⟨hrows _, hrows _, hrows _, hrows _, hrows _, hrows _, hrows _, hrows _,
    fun _ => ⟨db, h, rfl⟩, db, h, rfl⟩

/-- The commits of any number of processes, in any order. -/
abbrev ConcurrentRun (start : Database) :
    List (Commit Database Transaction) → Database → Prop :=
  Interleaving ReadCommitted Transaction.execute start

theorem flush_eq_ok {loaded written stored db : Database}
    (h : Database.flush loaded written stored = .ok db) :
    db = Database.mergeTables loaded written stored ∧ db.violated = none := by
  unfold Database.flush at h
  dsimp only at h
  split at h
  · cases h
  next hnone =>
    cases h
    exact ⟨rfl, hnone⟩

end QBackend.Execution
