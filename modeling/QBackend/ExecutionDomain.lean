import Mathlib.Data.Rat.Defs

/-!
# Broker-neutral execution types and lifecycle rules

The enumerations, records and transition tables of `execution/domain.py` and the broker
contract of `execution/brokers/base.py`. Identifiers are naturals (the code draws UUIDs),
instants are whole microseconds and decimals are exact rationals.
-/

namespace QBackend.Execution

/-- An instant, in microseconds since the epoch. -/
abbrev Time := ℤ

def secondsBetween (later earlier : Time) : ℚ := ((later - earlier : ℤ) : ℚ) / 1000000

inductive BrokerMode where
  | paper | mt5Live
  deriving DecidableEq, Repr

def BrokerMode.value : BrokerMode → String
  | .paper => "paper"
  | .mt5Live => "mt5_live"

inductive DeploymentLifecycle where
  | draft | running | paused | stopped | error
  deriving DecidableEq, Repr

def DeploymentLifecycle.value : DeploymentLifecycle → String
  | .draft => "draft"
  | .running => "running"
  | .paused => "paused"
  | .stopped => "stopped"
  | .error => "error"

inductive DecisionOutcome where
  | hold | signal | riskRejected | orderIntent | orderFilled | orderRejected | orderUnknown | error
  deriving DecidableEq, Repr

inductive SignalAction where
  | buy | sell | hold | close
  deriving DecidableEq, Repr

inductive ExecutionSide where
  | buy | sell
  deriving DecidableEq, Repr

def ExecutionSide.value : ExecutionSide → String
  | .buy => "buy"
  | .sell => "sell"

inductive ExecutionOrderStatus where
  | intent | submitted | filled | rejected | unknown | cancelled
  deriving DecidableEq, Repr

def ExecutionOrderStatus.value : ExecutionOrderStatus → String
  | .intent => "intent"
  | .submitted => "submitted"
  | .filled => "filled"
  | .rejected => "rejected"
  | .unknown => "unknown"
  | .cancelled => "cancelled"

/-- The statuses no transition leaves. -/
def ExecutionOrderStatus.IsTerminal (s : ExecutionOrderStatus) : Prop :=
  s = .filled ∨ s = .rejected ∨ s = .cancelled

instance (s : ExecutionOrderStatus) : Decidable s.IsTerminal :=
  inferInstanceAs (Decidable (_ ∨ _ ∨ _))

inductive PositionSide where
  | long | short | flat
  deriving DecidableEq, Repr

def PositionSide.value : PositionSide → String
  | .long => "long"
  | .short => "short"
  | .flat => "flat"

inductive ReconciliationState where
  | notApplicable | pending | reconciled | ambiguous
  deriving DecidableEq, Repr

def ReconciliationState.value : ReconciliationState → String
  | .notApplicable => "not_applicable"
  | .pending => "pending"
  | .reconciled => "reconciled"
  | .ambiguous => "ambiguous"

inductive RiskRejectionCode where
  | killSwitch | lifecycle | leaseLost | staleBar | staleQuote | symbolUnavailable
  | invalidQuantity | notionalLimit | onePositionViolation | insufficientEquity
  | dailyLossLimit | databaseUnavailable | brokerUnavailable | unknownPriorOrder
  deriving DecidableEq, Repr

inductive LedgerEntryType where
  | initialBalance | fillCash | realizedPnl | fee | adjustment
  deriving DecidableEq, Repr

/-- The hooks of `CrashInjector`. -/
inductive Checkpoint where
  | beforeIntentCommit | afterIntentCommit | afterBrokerResponse | beforeFillCommit
  deriving DecidableEq, Repr

/-- What the modelled code can raise. -/
inductive ExecutionError where
  | notFound (table : String) (id : ℕ)
  | illegalOrderTransition (current target : ExecutionOrderStatus)
  | illegalDeploymentTransition (current target : DeploymentLifecycle)
  | integrity (constraint : String)
  | onePosition
  | divisionByZero
  | leaseConflict (deployment : ℕ) (holder : String)
  | leaseMismatch
  | leaseMissing (deployment : ℕ)
  | orderNotPending (order : ℕ) (status : ExecutionOrderStatus) (state : ReconciliationState)
  | missingFillDetails
  | crashInjected (checkpoint : Checkpoint)
  | external (message : String)
  deriving DecidableEq, Repr

def Checkpoint.name : Checkpoint → String
  | .beforeIntentCommit => "before_intent_commit"
  | .afterIntentCommit => "after_intent_commit"
  | .afterBrokerResponse => "after_broker_response"
  | .beforeFillCommit => "before_fill_commit"

/-- The text of each exception. -/
def ExecutionError.message : ExecutionError → String
  | .notFound table id => table ++ " " ++ toString id ++ " not found"
  | .illegalOrderTransition current target =>
    "order status cannot transition from " ++ current.value ++ " to " ++ target.value
  | .illegalDeploymentTransition current target =>
    "deployment lifecycle cannot transition from " ++ current.value ++ " to " ++ target.value
  | .integrity constraint => constraint
  | .onePosition => "one-position invariant: order side opposes current position"
  | .divisionByZero => "division by zero"
  | .leaseConflict deployment holder =>
    "deployment " ++ toString deployment ++ " lease held by " ++ holder
  | .leaseMismatch => "lease token mismatch"
  | .leaseMissing deployment => "No lease for deployment " ++ toString deployment
  | .orderNotPending order status state =>
    "order " ++ toString order ++ " is not awaiting reconciliation (status=" ++ status.value ++
      ", reconciliation_state=" ++ state.value ++ ")"
  | .missingFillDetails => "filled resolution requires fill details"
  | .crashInjected checkpoint => "crash injected at " ++ checkpoint.name
  | .external message => message

def deploymentTransitions : DeploymentLifecycle → List DeploymentLifecycle
  | .draft => [.running, .stopped]
  | .running => [.paused, .stopped, .error]
  | .paused => [.running, .stopped, .error]
  | .stopped => []
  | .error => [.stopped]

def orderTransitions : ExecutionOrderStatus → List ExecutionOrderStatus
  | .intent => [.submitted, .rejected, .unknown, .cancelled]
  | .submitted => [.filled, .rejected, .unknown]
  | .unknown => [.filled, .rejected]
  | .filled => []
  | .rejected => []
  | .cancelled => []

def validateDeploymentTransition (current target : DeploymentLifecycle) :
    Except ExecutionError DeploymentLifecycle :=
  if target ∈ deploymentTransitions current then .ok target
  else .error (.illegalDeploymentTransition current target)

def validateOrderTransition (current target : ExecutionOrderStatus) :
    Except ExecutionError ExecutionOrderStatus :=
  if target ∈ orderTransitions current then .ok target
  else .error (.illegalOrderTransition current target)

/-- A terminal status has no successor, and only terminal statuses have none. -/
theorem orderTransitions_eq_nil (s : ExecutionOrderStatus) :
    orderTransitions s = [] ↔ s.IsTerminal := by
  cases s <;> simp [orderTransitions, ExecutionOrderStatus.IsTerminal]

def isDeploymentEvaluating (lifecycle : DeploymentLifecycle) : Bool := lifecycle = .running

def isDeploymentTerminal (lifecycle : DeploymentLifecycle) : Bool :=
  lifecycle = .stopped ∨ lifecycle = .error

/-- One executed fill as a broker or an operator reports it. -/
structure FillRecord where
  brokerMode : BrokerMode
  externalFillId : String
  side : ExecutionSide
  quantity : ℚ
  price : ℚ
  fee : ℚ := 0
  slippage : ℚ := 0
  quoteBid : Option ℚ := none
  quoteAsk : Option ℚ := none
  quoteTimestamp : Option Time := none
  filledAt : Time
  deriving DecidableEq, Repr

structure ExecutableQuote where
  symbol : String
  bid : ℚ
  ask : ℚ
  timestamp : Time
  deriving DecidableEq, Repr

structure PaperCostConfig where
  pointValue : ℚ := 1
  slippagePoints : ℚ := 0
  costPerContract : ℚ := 0
  costBps : ℚ := 0
  maxQuoteAgeSeconds : ℚ := 30
  volumeStep : ℚ := 1
  minVolume : ℚ := 1
  deriving DecidableEq, Repr

structure MarketOrderRequest where
  deploymentId : ℕ
  orderId : ℕ
  symbol : String
  side : ExecutionSide
  quantity : ℚ
  externalFillId : String
  deriving DecidableEq, Repr

inductive BrokerRejectionCode where
  | quoteUnavailable | staleQuote | invalidQuote | invalidQuantity | symbolUnavailable
  | brokerUnavailable | liveLocked | accountNotAllowlisted | tradingDisabled
  | unsupportedFillPolicy | orderCheckFailed | orderSendFailed
  deriving DecidableEq, Repr

/-- The evidence a rejection carries: named decimals, named numbers and named texts. -/
inductive ContextValue where
  | decimal (value : ℚ)
  | text (value : String)
  deriving DecidableEq, Repr

structure BrokerRejection where
  code : BrokerRejectionCode
  message : String
  context : List (String × ContextValue) := []
  deriving DecidableEq, Repr

structure RiskRejection where
  code : RiskRejectionCode
  message : String
  context : List (String × ContextValue) := []
  deriving DecidableEq, Repr

inductive BrokerSubmissionOutcome where
  | filled | rejected | unknown
  deriving DecidableEq, Repr

structure BrokerSubmissionResult where
  outcome : BrokerSubmissionOutcome := .rejected
  fill : Option FillRecord := none
  rejection : Option BrokerRejection := none
  externalOrderId : Option String := none
  deriving DecidableEq, Repr

def BrokerSubmissionResult.accepted (r : BrokerSubmissionResult) : Bool := r.outcome = .filled

inductive BrokerOrderLookupStatus where
  | filled | rejected | notFound | unavailable
  deriving DecidableEq, Repr

def BrokerOrderLookupStatus.value : BrokerOrderLookupStatus → String
  | .filled => "filled"
  | .rejected => "rejected"
  | .notFound => "not_found"
  | .unavailable => "unavailable"

structure BrokerOrderState where
  status : BrokerOrderLookupStatus
  fill : Option FillRecord := none
  message : String := ""
  deriving DecidableEq, Repr

/-- A signal queued at a bar's close for the next bar. -/
structure Signal where
  symbol : String
  action : SignalAction
  strength : ℚ := 1
  exitReason : Option String := none
  deriving DecidableEq, Repr

/-- The evaluation of one completed bar. -/
structure ForwardDecisionResult where
  barCloseTime : Time
  barClosePrice : ℚ := 0
  signalAction : SignalAction
  reason : Option String := none
  requestedQuantity : Option ℚ := none
  queuedExitSignals : List Signal := []
  queuedEntrySignals : List Signal := []
  replay : Bool := false
  skippedDuplicate : Bool := false
  deriving DecidableEq, Repr

/-- Replay and duplicate deliveries create no durable decision. -/
def ForwardDecisionResult.emitsDecision (r : ForwardDecisionResult) : Bool :=
  !r.replay && !r.skippedDuplicate

/-- The two broker calls of the execution service, each of which may raise. A broker that
changes over time is a different value at each call. -/
structure ExecutionBroker where
  submitMarketOrder : MarketOrderRequest → PaperCostConfig →
    Except ExecutionError BrokerSubmissionResult
  lookupOrder : MarketOrderRequest → Except ExecutionError BrokerOrderState

end QBackend.Execution
