import QBackend.BarCoordinator
import QBackend.ExecutionRuns
import QBackend.StatefulActions

/-!
# The execution worker

`ExecutionWorker` of `execution/worker.py` and `ExecutionRecovery.build_runtime`. A poll is an
action on the worker: an exception closes its session and leaves the runtimes in memory as they
are, the death of the process leaves only what was committed. Every write of the database is an
event of `step`.
-/

namespace QBackend.Execution

open KeyedTables StatefulActions

/-- A leased deployment with its evaluator. The last two fields are histories that nothing reads:
the open position when the evaluator was built, and the closes of the bars that an ingest moved
its watermark past. -/
structure Runtime (S : Type) where
  deploymentId : ℕ
  deployment : ExecutionDeployment
  evaluator : Evaluator S
  leaseToken : String
  builtPosition : Option ExecutionNetPosition := none
  passed : List Time := []

/-- One call of `ingest_completed_bars` by a poll: the bars, the window they were merged into, and
the position row at the call. -/
structure Evaluation where
  deploymentId : ℕ
  bars : List Bar
  rolling : List Bar
  windowBound : ℕ
  openTrade : Option Trade
  position : Option ExecutionNetPosition
  builtPosition : Option ExecutionNetPosition
  deriving DecidableEq

/-- An exception that ended the work on a batch: how many bars behind the watermark were still to
be processed, and whether the decision of the bar at hand, if any, was committed. -/
structure BatchException where
  deploymentId : ℕ
  remaining : ℕ
  decided : Bool
  deriving DecidableEq

/-- The worker and its database. The last two fields are histories that nothing reads. -/
structure Worker (S : Type) where
  world : World
  runtimes : List (Runtime S) := []
  alive : Bool := false
  evaluations : List Evaluation := []
  exceptions : List BatchException := []

/-- The settings, and the strategy of each deployment. `buildStrategy` is the construction of the
strategy object and its window bound from the compiled configuration. -/
structure WorkerConfig (S : Type) where
  service : ServiceConfig := {}
  leaseTtl : Time := 60000000
  initialWindowBars : ℕ := 500
  strategy : ℕ → TradingStrategy S
  buildStrategy : ExecutionDeployment → Except ExecutionError (S × ℕ)

/-- Points of a poll outside the service at which it may be interrupted. -/
inductive PollStage where
  | refreshed | reconciled | flattened | processed
  deriving DecidableEq, Repr

/-- What the outside does during one poll. -/
structure PollEnvironment where
  now : Time
  coordinator : BarCoordinator
  buildCoordinator : ℕ → BarCoordinator
  leaseToken : ℕ → String
  broker : ExecutionBroker
  service : ℕ → Time → BarEnvironment
  flatten : ℕ → BarEnvironment
  interrupt : PollStage → Option Interruption := fun _ => none

variable {S : Type}

abbrev WorkerAction (S : Type) := Action (Worker S) Failure

def Worker.runtime (w : Worker S) (id : ℕ) : Option (Runtime S) :=
  lookup Runtime.deploymentId w.runtimes id

def Worker.updateRuntime (w : Worker S) (id : ℕ) (f : Runtime S → Runtime S) : Worker S :=
  { w with runtimes := modify Runtime.deploymentId w.runtimes id f }

def Worker.working (w : Worker S) : Database := w.world.session.working

/-- A write of the database. -/
def perform (cfg : WorkerConfig S) (e : Event) : WorkerAction S Unit :=
  Action.modify (fun w => { w with world := step cfg.service w.world e })

/-- A write of the open transaction that may raise. -/
def attempt (cfg : WorkerConfig S) (e : Event) (result : Except ExecutionError Database) :
    WorkerAction S Unit :=
  match result with
  | .error error => Action.throw (.raised error)
  | .ok _ => perform cfg e

def interruptAt (env : PollEnvironment) (stage : PollStage) : WorkerAction S Unit :=
  match env.interrupt stage with
  | none => pure ()
  | some .raise => Action.throw (.raised (.external "poll interrupted"))
  | some .kill => Action.throw .killed

def serviceCall (cfg : WorkerConfig S) (call : BarCall) (env : BarEnvironment) :
    WorkerAction S Unit := do
  let w ← Action.get
  perform cfg (.processBar call env)
  match (processCompletedBar cfg.service w.world call env).2 with
  | .error failure => Action.throw failure
  | .ok _ => pure ()

/-! ## Leases and runtimes -/

def Runtime.consumer (r : Runtime S) : DeploymentBarConsumer :=
  { deploymentId := r.deploymentId, symbol := r.deployment.symbol
    timeframe := r.deployment.timeframe, lastEvaluatedClose := r.evaluator.lastEvaluatedClose }

/-- The window and the exit state of a new evaluator, from the bars around its watermark. -/
def warmUp (strategy : TradingStrategy S) (ev : Evaluator S) (batch : Option CompletedBarBatch) :
    Except ExecutionError (Evaluator S) :=
  match batch with
  | none => .ok ev
  | some batch =>
    if batch.frame = [] then .ok ev
    else
      match ev.lastEvaluatedClose with
      | none => .ok (ev.seedWindow batch.frame)
      | some close =>
        match ev.replayRecovery strategy batch.frame (some close) with
        | (_, .error e) => .error e
        | (ev, .ok _) => .ok ev

def openTradeOf (deployment : ExecutionDeployment) (position : Option ExecutionNetPosition)
    (pointValue : ℚ) : Except ExecutionError (Option Trade) :=
  match position with
  | none => .ok none
  | some position => executionPositionToTrade deployment position pointValue

def buildRuntime (cfg : WorkerConfig S) (coordinator : BarCoordinator) (db : Database)
    (deployment : ExecutionDeployment) (leaseToken : String) :
    Except ExecutionError (Runtime S) := do
  let position := db.getOpenNetPosition deployment.id
  let openTrade ← openTradeOf deployment position cfg.service.pointValue
  let (strategy, windowBound) ← cfg.buildStrategy deployment
  let ev : Evaluator S :=
    { symbol := deployment.symbol, timeframe := deployment.timeframe.toUpper, windowBound, strategy
      openTrade, lastEvaluatedClose := deployment.lastBarCloseTime }
  let consumer : DeploymentBarConsumer :=
    { deploymentId := deployment.id, symbol := deployment.symbol, timeframe := deployment.timeframe
      lastEvaluatedClose := deployment.lastBarCloseTime }
  let batches ← coordinator.poll cfg.initialWindowBars [consumer]
  let evaluator ← warmUp (cfg.strategy deployment.id) ev
    (batches.find? (fun b => b.key = consumer.key))
  return { deploymentId := deployment.id, deployment, evaluator, leaseToken, builtPosition := position }

def heartbeat (cfg : WorkerConfig S) (env : PollEnvironment) (r : Runtime S) : WorkerAction S Unit := do
  let w ← Action.get
  attempt cfg (.heartbeatLease r.deploymentId r.leaseToken cfg.leaseTtl env.now)
    (w.working.heartbeatWorkerLease r.deploymentId cfg.service.workerId r.leaseToken cfg.leaseTtl
      env.now)

/-- A running deployment without a runtime: its lease, unless another worker holds it, and its
runtime. -/
def openDeployment (cfg : WorkerConfig S) (env : PollEnvironment)
    (deployment : ExecutionDeployment) : WorkerAction S Unit := do
  let w ← Action.get
  let token := env.leaseToken deployment.id
  match w.working.acquireWorkerLease deployment.id cfg.service.workerId token cfg.leaseTtl env.now with
  | .error _ => pure ()
  | .ok _ =>
    perform cfg (.acquireLease deployment.id token cfg.leaseTtl env.now)
    let w ← Action.get
    match buildRuntime cfg (env.buildCoordinator deployment.id) w.working deployment token with
    | .error e => Action.throw (.raised e)
    | .ok r => Action.modify (fun w => { w with runtimes := w.runtimes ++ [r] })

def refreshDeployment (cfg : WorkerConfig S) (env : PollEnvironment)
    (deployment : ExecutionDeployment) : WorkerAction S Unit := do
  let w ← Action.get
  match w.runtime deployment.id with
  | some r =>
    heartbeat cfg env r
    if deployment.lifecycle = .paused then pure ()
    else Action.modify (fun w => w.updateRuntime deployment.id (fun r => { r with deployment }))
  | none =>
    if deployment.lifecycle = .paused then pure () else openDeployment cfg env deployment

/-- `_release_deployment`; a lease that is no longer the worker's is left alone. -/
def releaseDeployment (cfg : WorkerConfig S) (r : Runtime S) : WorkerAction S Unit := do
  Action.modify (fun w =>
    { w with runtimes := w.runtimes.filter (fun x => x.deploymentId ≠ r.deploymentId) })
  perform cfg (.releaseLease r.deploymentId r.leaseToken)

def refreshDeployments (cfg : WorkerConfig S) (env : PollEnvironment) : WorkerAction S Unit := do
  let w ← Action.get
  let deployments := w.working.listDeployments [.running, .paused]
  Action.each (refreshDeployment cfg env) deployments
  let w ← Action.get
  Action.each (releaseDeployment cfg)
    (w.runtimes.filter (fun r => r.deploymentId ∉ deployments.map ExecutionDeployment.id))

/-! ## One poll -/

def reconcileDeployment (cfg : WorkerConfig S) (env : PollEnvironment) (id : ℕ) :
    WorkerAction S Unit := do
  let w ← Action.get
  match reconcilePending cfg.service env.broker env.now w.working (some id) w.world.nextId with
  | .error e => Action.throw (.raised e)
  | .ok _ => perform cfg (.reconcile (some id) env.broker env.now)

/-- The row of the deployment is read again; a requested flatten runs before any bar. -/
def flattenPending (cfg : WorkerConfig S) (env : PollEnvironment) (id : ℕ) : WorkerAction S Unit := do
  let w ← Action.get
  match w.runtime id, w.working.getExecutionDeployment id with
  | some r, some deployment =>
    Action.modify (fun w => w.updateRuntime id (fun r => { r with deployment }))
    if deployment.pendingFlatten then
      serviceCall cfg (flattenCall id r.leaseToken (env.flatten id).now) (env.flatten id)
      perform cfg (.clearPending id)
    else pure ()
  | _, _ => pure ()

def Worker.noteException (w : Worker S) (deploymentId remaining : ℕ) (decided : Bool) : Worker S :=
  { w with exceptions := w.exceptions ++ [⟨deploymentId, remaining, decided⟩] }

def Worker.isDecided (w : Worker S) (deploymentId : ℕ) (barCloseTime : Time) : Bool :=
  (w.world.session.committed.getDecisionForBar deploymentId barCloseTime).isSome

/-- Only an exception leaves a process to note it. -/
def Worker.noteFailure (deploymentId remaining : ℕ) (barCloseTime : Time) :
    Failure → Worker S → Worker S
  | .raised _, w => w.noteException deploymentId remaining (w.isDecided deploymentId barCloseTime)
  | .killed, w => w

/-- One service call for each evaluated bar. -/
def processResults (cfg : WorkerConfig S) (env : PollEnvironment) (r : Runtime S) :
    List ForwardDecisionResult → WorkerAction S Unit
  | [] => pure ()
  | result :: rest => do
    Action.onFailure
      (serviceCall cfg { deploymentId := r.deploymentId, result, leaseToken := r.leaseToken }
        (env.service r.deploymentId result.barCloseTime))
      (Worker.noteFailure r.deploymentId rest.length result.barCloseTime)
    processResults cfg env r rest

/-- The closes of the bars at or before the watermark. -/
def Evaluator.closesPassed (ev : Evaluator S) (bars : List Bar) : List Time :=
  match barDuration ev.timeframe, ev.lastEvaluatedClose with
  | .ok duration, some watermark =>
    (bars.map (fun b => b.closeTime duration)).filter (· ≤ watermark)
  | _, _ => []

def Worker.noteEvaluation (w : Worker S) (r : Runtime S) (bars : List Bar) : Worker S :=
  { w with
    evaluations := w.evaluations ++
      [{ deploymentId := r.deploymentId, bars, rolling := r.evaluator.rolling
         windowBound := r.evaluator.windowBound, openTrade := r.evaluator.openTrade
         position := w.working.getOpenNetPosition r.deploymentId
         builtPosition := r.builtPosition }] }

/-- The whole batch is evaluated before its first bar is processed. -/
def ingestBatch (cfg : WorkerConfig S) (env : PollEnvironment) (r : Runtime S) (bars : List Bar) :
    WorkerAction S Unit := do
  let (evaluator, results) := r.evaluator.ingestCompletedBars (cfg.strategy r.deploymentId) bars
  Action.modify (fun w => (w.noteEvaluation r bars).updateRuntime r.deploymentId (fun r =>
    { r with evaluator, passed := r.passed ++ evaluator.closesPassed bars }))
  match results with
  | .error e =>
    Action.modify (fun w =>
      w.noteException r.deploymentId (evaluator.closesPassed bars).length true)
    Action.throw (.raised e)
  | .ok results => processResults cfg env r results

def processRuntime (cfg : WorkerConfig S) (env : PollEnvironment)
    (batches : List CompletedBarBatch) (id : ℕ) : WorkerAction S Unit := do
  let w ← Action.get
  match w.runtime id, w.working.getExecutionDeployment id with
  | some r, some deployment =>
    if r.deployment.lifecycle = .running then
      Action.modify (fun w => w.updateRuntime id (fun r => { r with deployment }))
      match batches.find? (fun b => b.key = ⟨deployment.symbol, deployment.timeframe.toUpper⟩) with
      | none => pure ()
      | some batch =>
        match newBarsForConsumer batch r.evaluator.lastEvaluatedClose with
        | .error e => Action.throw (.raised e)
        | .ok bars => if bars = [] then pure () else ingestBatch cfg env r bars
    else pure ()
  | _, _ => pure ()

/-- The part of a poll that needs bars. -/
def processBatches (cfg : WorkerConfig S) (env : PollEnvironment)
    (batches : List CompletedBarBatch) : WorkerAction S Unit := do
  let w ← Action.get
  let ids := w.runtimes.map Runtime.deploymentId
  Action.each (flattenPending cfg env) ids
  interruptAt env .flattened
  Action.each (processRuntime cfg env batches) ids
  interruptAt env .processed
  perform cfg .commit

def pollOnce (cfg : WorkerConfig S) (env : PollEnvironment) : WorkerAction S Unit := do
  refreshDeployments cfg env
  interruptAt env .refreshed
  let w ← Action.get
  Action.each (reconcileDeployment cfg env) (w.runtimes.map Runtime.deploymentId)
  interruptAt env .reconciled
  let w ← Action.get
  let consumers := (w.runtimes.filter (fun r => r.deployment.lifecycle = .running)).map
    Runtime.consumer
  if consumers = [] then perform cfg .commit
  else
    match env.coordinator.poll cfg.initialWindowBars consumers with
    | .error e => Action.throw (.raised e)
    | .ok batches => processBatches cfg env batches

/-! ## Runs -/

/-- The death of the process: the session and everything in memory are gone. -/
def Worker.die (cfg : WorkerConfig S) (w : Worker S) : Worker S :=
  { w with world := step cfg.service w.world .restart, runtimes := [], alive := false }

/-- The `with` block and the handler of `run` around one poll. -/
def Worker.poll (cfg : WorkerConfig S) (env : PollEnvironment) (w : Worker S) : Worker S :=
  match pollOnce cfg env w with
  | (.ok _, w) => w
  | (.error (.raised _), w) => { w with world := step cfg.service w.world .restart }
  | (.error .killed, w) => w.die cfg

/-- The part of `run` before its loop, in a new process: recovery, which may fail closed, and the
reconciliation of everything that is pending. -/
def startup (cfg : WorkerConfig S) (quotes : String → Option ExecutableQuote)
    (broker : ExecutionBroker) (now : Time) : WorkerAction S Unit := do
  let w ← Action.get
  perform cfg (.startup quotes now)
  match recover w.world.session.committed quotes now with
  | .error e => Action.throw (.raised e)
  | .ok (_, result) =>
    if result.failedClosed then Action.throw (.raised (.external result.message))
    else
      let w ← Action.get
      match reconcilePending cfg.service broker now w.working none w.world.nextId with
      | .error e => Action.throw (.raised e)
      | .ok _ =>
        perform cfg (.reconcile none broker now)
        perform cfg .commit
        Action.modify (fun w => { w with alive := true })

def Worker.start (cfg : WorkerConfig S) (quotes : String → Option ExecutableQuote)
    (broker : ExecutionBroker) (now : Time) (w : Worker S) : Worker S :=
  match startup cfg quotes broker now (w.die cfg) with
  | (.ok _, w) => w
  | (.error _, w) => w.die cfg

/-- A graceful end: the leases are released and committed. -/
def Worker.shutdown (cfg : WorkerConfig S) (w : Worker S) : Worker S :=
  match Action.each (releaseDeployment cfg) w.runtimes w with
  | (.ok _, w) => ({ w with world := step cfg.service w.world .commit } : Worker S).die cfg
  | (.error _, w) => w.die cfg

inductive WorkerEvent where
  | start (quotes : String → Option ExecutableQuote) (broker : ExecutionBroker) (now : Time)
  | poll (env : PollEnvironment)
  | operate (command : OperatorCommand)
  | shutdown
  | die

/-- One event. A process that is not alive does not poll. -/
def Worker.step (cfg : WorkerConfig S) (w : Worker S) : WorkerEvent → Worker S
  | .start quotes broker now => if w.alive then w else w.start cfg quotes broker now
  | .poll env => if w.alive then w.poll cfg env else w
  | .operate command => { w with world := Execution.step cfg.service w.world (.operate command) }
  | .shutdown => if w.alive then w.shutdown cfg else w
  | .die => w.die cfg

end QBackend.Execution
