import QBackend.ReconciliationCalls
import Mathlib.Data.List.Sort

/-!
# The MT5 live broker

`MetaTraderBroker` of `execution/brokers/metatrader.py` with the activation gates of
`live_gates.py` and the constants of `mt5_constants.py`. The terminal is outside the repository: a
runtime holds what it answers during one call. An order identifier is the integer of its UUID.
-/

namespace QBackend.Execution

/-! ## Activation gates -/

structure LiveExecutionGates where
  enabled : Bool := false
  accountAllowlist : List ℤ := []
  deploymentLiveActivationEnabled : Bool := false
  controlledAccountValidated : Bool := false
  deriving DecidableEq, Repr

def liveLocked (message : String) : BrokerRejection :=
  { code := .liveLocked, message, context := [("capability", .text "live_locked")] }

def evaluateLiveGates (gates : LiveExecutionGates) (accountLogin : Option ℤ) :
    Option BrokerRejection :=
  if !gates.enabled then
    some (liveLocked "live execution is disabled (Q_LIVE_EXECUTION_ENABLED=false)")
  else
    match accountLogin with
    | none => some { code := .brokerUnavailable, message := "MT5 account is not connected" }
    | some login =>
      if login ∉ gates.accountAllowlist then
        some { code := .accountNotAllowlisted
               message := "account is not on the live execution allowlist"
               context := [("account_login", .decimal login)] }
      else if !gates.deploymentLiveActivationEnabled then
        some (liveLocked "deployment live activation is disabled")
      else if !gates.controlledAccountValidated then
        some (liveLocked ("live execution is implemented but operationally unvalidated; " ++
          "controlled-account validation record is missing"))
      else none

/-! ## The terminal -/

structure Mt5Account where
  login : ℤ
  tradeAllowed : Bool := true
  deriving DecidableEq, Repr

structure Mt5SymbolInfo where
  volumeStep : ℚ := 1
  volumeMin : ℚ := 1
  volumeMax : ℚ := 100
  digits : ℕ := 2
  fillingMode : ℕ := 2
  tradeMode : ℤ := 4
  deriving DecidableEq, Repr

/-- Tick and deal times are whole seconds. -/
structure Mt5Tick where
  bid : ℚ
  ask : ℚ
  time : ℤ
  deriving DecidableEq, Repr

/-- A market order request; `action` and `type_time` are constants. -/
structure Mt5Request where
  symbol : String
  volume : ℚ
  type : ℕ
  price : ℚ
  deviation : ℕ
  magic : ℕ
  comment : String
  typeFilling : ℕ
  deriving DecidableEq, Repr

structure Mt5SendResult where
  retcode : ℤ
  order : ℕ := 0
  deal : ℕ := 0
  deriving DecidableEq, Repr

structure Mt5Deal where
  ticket : ℕ
  magic : ℕ := 0
  comment : String := ""
  volume : ℚ
  price : ℚ
  time : ℤ
  deriving DecidableEq, Repr

def Mt5Deal.at (deal : Mt5Deal) : Time := deal.time * 1000000

/-- What the terminal answers during one call of the broker; `none` is a failed call. -/
structure Mt5Runtime where
  isStub : Bool := false
  lastError : ℤ × String := (0, "")
  accountInfo : Option Mt5Account
  symbolSelect : String → Bool := fun _ => true
  symbolInfo : String → Option Mt5SymbolInfo := fun _ => some {}
  symbolInfoTick : String → Option Mt5Tick
  orderCheck : Mt5Request → Option ℤ
  orderSend : Mt5Request → Option Mt5SendResult
  historyDealsGet : (start stop : Time) → Option (List Mt5Deal)

structure MetaTraderBroker where
  runtime : Mt5Runtime
  now : Time
  gates : LiveExecutionGates
  dryRun : Bool := true
  slippageDeviation : ℕ := 20
  maxQuoteAgeSeconds : ℚ := 30
  magicBase : ℕ := 0
  /-- Twenty-four hours. -/
  reconcileLookback : Time := 86400000000

/-! ## Intents -/

def intentMagic (orderId base : ℕ) : ℕ := (base ^^^ (orderId &&& 0x7FFFFFFF)) &&& 0x7FFFFFFF

def hexDigit (n : ℕ) : Char := if n < 10 then Char.ofNat (48 + n) else Char.ofNat (87 + n)

/-- The first twenty-four of the thirty-two hexadecimal digits of a UUID. -/
def intentComment (orderId : ℕ) : String :=
  String.ofList ('q' :: ':' :: (List.range 24).map (fun i => hexDigit (orderId / 16 ^ (31 - i) % 16)))

def Mt5Deal.matchesIntent (deal : Mt5Deal) (magic : ℕ) (comment : String) : Bool :=
  deal.magic = magic ∨ comment.toList <+: deal.comment.toList

/-- `quantize(Decimal("1"))` and `round`: ties go to the even neighbour. -/
def roundHalfEven (x : ℚ) : ℤ :=
  if x - ⌊x⌋ < 1 / 2 then ⌊x⌋
  else if 1 / 2 < x - ⌊x⌋ then ⌊x⌋ + 1
  else if ⌊x⌋ % 2 = 0 then ⌊x⌋ else ⌊x⌋ + 1

def normalizeVolume (quantity step vmin vmax : ℚ) : Except String ℚ :=
  let value := if 0 < step then roundHalfEven (quantity / step) * step else quantity
  if value < vmin then .error "volume below symbol minimum"
  else if 0 < vmax ∧ vmax < value then .error "volume above symbol maximum"
  else .ok value

def normalizePrice (price : ℚ) (digits : ℕ) : ℚ := roundHalfEven (price * 10 ^ digits) / 10 ^ digits

/-- The symbol's filling modes are the bits FOK = 1, IOC = 2 and RETURN = 4; the order's filling
policies are FOK = 0, IOC = 1 and RETURN = 2. -/
def selectFillingMode (mode : ℕ) : Except String ℕ :=
  if mode &&& 1 ≠ 0 then .ok 0
  else if mode &&& 2 ≠ 0 then .ok 1
  else if mode &&& 4 ≠ 0 then .ok 2
  else .error "symbol does not advertise a supported filling mode"

def mapSideToMt5 : ExecutionSide → ℕ
  | .buy => 0
  | .sell => 1

def retcodeLabel : ℤ → String
  | 10004 => "requote"
  | 10006 => "reject"
  | 10014 => "invalid_volume"
  | 10018 => "market_closed"
  | 10009 => "done"
  | 10010 => "done_partial"
  | 10012 => "timeout"
  | 10020 => "price_changed"
  | 10021 => "price_off"
  | 10016 => "invalid_stops"
  | 10017 => "trade_disabled"
  | 10031 => "no_connection"
  | n => "retcode_" ++ toString n

def isSuccessRetcode (retcode : ℤ) : Bool := retcode = 10009 ∨ retcode = 10010

def isUnknownRetcode (retcode : ℤ) : Bool := retcode = 10012 ∨ retcode = 10031

/-! ## Deals to fills -/

/-- The accumulators of the loop over deals. The seen tickets are those of `dealIds`. -/
structure DealTally where
  dealIds : List ℕ := []
  totalQty : ℚ := 0
  notional : ℚ := 0
  latestTime : Time
  deriving DecidableEq, Repr

def DealTally.add (tally : DealTally) (deal : Mt5Deal) : DealTally :=
  if deal.ticket ∈ tally.dealIds ∨ deal.ticket = 0 then tally
  else
    { dealIds := tally.dealIds ++ [deal.ticket]
      totalQty := tally.totalQty + deal.volume
      notional := tally.notional + deal.volume * deal.price
      latestTime := max tally.latestTime deal.at }

/-- A fill with the tickets of its deals. -/
structure ReconciledFill where
  fill : FillRecord
  externalOrderId : Option String
  dealIds : List ℕ
  deriving DecidableEq, Repr

/-- `[deal for deal in matches if ...] or matches`: only the deal that the send result named, if it
is among them. -/
def restrictToDeal (fallbackDealId : Option ℕ) (found : List Mt5Deal) : List Mt5Deal :=
  match fallbackDealId with
  | none => found
  | some ticket =>
    match found.filter (fun d => d.ticket = ticket) with
    | [] => found
    | named => named

def sortByTime (deals : List Mt5Deal) : List Mt5Deal :=
  deals.insertionSort (fun a b => a.time ≤ b.time)

/-- The fill of some deals, in order of time. -/
def fillOfDeals (request : MarketOrderRequest) (now : Time) (externalOrderId : Option String)
    (selected : List Mt5Deal) : Option ReconciledFill :=
  let tally := (sortByTime selected).foldl DealTally.add { latestTime := now }
  if selected = [] ∨ tally.totalQty ≤ 0 then none
  else
    some { fill :=
            { brokerMode := .mt5Live, externalFillId := toString (tally.dealIds.getLast?.getD 0)
              side := request.side, quantity := tally.totalQty
              price := tally.notional / tally.totalQty, fee := 0, slippage := 0
              filledAt := tally.latestTime }
           externalOrderId, dealIds := tally.dealIds }

namespace MetaTraderBroker

variable (b : MetaTraderBroker)

def magic (request : MarketOrderRequest) : ℕ := intentMagic request.orderId b.magicBase

/-- The look-back range that both paths ask the history for. A failed call counts as no deals. -/
def reconcileFill (request : MarketOrderRequest) (externalOrderId : Option String)
    (fallbackDealId : Option ℕ := none) : Option ReconciledFill :=
  let deals := (b.runtime.historyDealsGet (b.now - b.reconcileLookback) b.now).getD []
  let found := deals.filter (·.matchesIntent (b.magic request) (intentComment request.orderId))
  fillOfDeals request b.now externalOrderId (restrictToDeal fallbackDealId found)

def lookupOrder (request : MarketOrderRequest) : BrokerOrderState :=
  if b.runtime.isStub then
    { status := .unavailable, message := "MT5 live adapter unavailable (stub platform)" }
  else
    match b.runtime.accountInfo with
    | none =>
      { status := .unavailable
        message := "MT5 account_info unavailable: " ++ b.runtime.lastError.2 }
    | some _ =>
      match b.reconcileFill request none with
      | none =>
        { status := .notFound, message := "no MT5 deal matches the intent magic/comment" }
      | some reconciled =>
        { status := .filled, fill := some reconciled.fill
          message := "reconciled from MT5 deal history" }

def filledResult (externalOrderId : Option String) (reconciled : ReconciledFill) :
    BrokerSubmissionResult :=
  { outcome := .filled, fill := some reconciled.fill, externalOrderId }

/-- The search when the ticket is still an order and the search when it is not are the same, so the
answer of `orders_get` does not count. -/
def recoverUnknown (request : MarketOrderRequest) (externalOrderId : Option String := none) :
    BrokerSubmissionResult :=
  match b.reconcileFill request externalOrderId with
  | some reconciled => filledResult externalOrderId reconciled
  | none => { outcome := .unknown, externalOrderId }

def preflight (request : MarketOrderRequest) : Option BrokerRejection :=
  match b.runtime.accountInfo with
  | none => some { code := .brokerUnavailable, message := "MT5 account_info is unavailable" }
  | some account =>
    if !account.tradeAllowed then
      some { code := .tradingDisabled, message := "terminal trading is disabled for this account" }
    else if !b.runtime.symbolSelect request.symbol then
      some { code := .symbolUnavailable
             message := "symbol " ++ request.symbol ++ " is not visible in MarketWatch" }
    else
      match b.runtime.symbolInfo request.symbol, b.runtime.symbolInfoTick request.symbol with
      | none, _ => some { code := .symbolUnavailable
                          message := "symbol " ++ request.symbol ++ " is unavailable" }
      | some _, none => some { code := .quoteUnavailable
                               message := "quote for " ++ request.symbol ++ " is unavailable" }
      | some info, some tick =>
        match validateQuote (some { symbol := request.symbol, bid := tick.bid, ask := tick.ask
                                    timestamp := tick.time * 1000000 }) b.now
            b.maxQuoteAgeSeconds with
        | some rejection => some rejection
        | none =>
          if info.tradeMode = 0 then
            some { code := .symbolUnavailable
                   message := "symbol " ++ request.symbol ++ " is not tradable" }
          else none

def rejected (code : BrokerRejectionCode) (message : String)
    (context : List (String × ContextValue) := []) (externalOrderId : Option String := none) :
    BrokerSubmissionResult :=
  { outcome := .rejected, rejection := some { code, message, context }, externalOrderId }

/-- The request that is checked and sent. -/
def mt5Request (request : MarketOrderRequest) (info : Mt5SymbolInfo) (tick : Mt5Tick) :
    Except String Mt5Request := do
  let volume ← normalizeVolume request.quantity info.volumeStep info.volumeMin info.volumeMax
  let filling ← selectFillingMode info.fillingMode
  let price := match request.side with
    | .buy => tick.ask
    | .sell => tick.bid
  return { symbol := request.symbol, volume, type := mapSideToMt5 request.side
           price := normalizePrice price info.digits, deviation := b.slippageDeviation
           magic := b.magic request, comment := intentComment request.orderId
           typeFilling := filling }

/-- The part of `submit_market_order` after `order_send`. -/
def settleSend (request : MarketOrderRequest) (send : Option Mt5SendResult) :
    BrokerSubmissionResult :=
  match send with
  | none =>
    let recovered := b.recoverUnknown request
    if recovered.outcome = .filled then recovered
    else
      { outcome := .unknown
        rejection := some
          { code := .orderSendFailed
            message := "order_send returned None: " ++ b.runtime.lastError.2
            context := [("mt5_error_code", .decimal b.runtime.lastError.1)] } }
  | some send =>
    let externalOrderId := if send.order = 0 then none else some (toString send.order)
    if isUnknownRetcode send.retcode then
      let recovered := b.recoverUnknown request externalOrderId
      if recovered.outcome ≠ .unknown then recovered
      else
        { outcome := .unknown
          rejection := some
            { code := .orderSendFailed
              message := "ambiguous send outcome: " ++ retcodeLabel send.retcode
              context := [("retcode", .decimal send.retcode)] }
          externalOrderId }
    else if !isSuccessRetcode send.retcode then
      rejected .orderSendFailed ("order_send rejected: " ++ retcodeLabel send.retcode)
        [("retcode", .decimal send.retcode)] externalOrderId
    else
      match b.reconcileFill request externalOrderId
          (if send.deal = 0 then none else some send.deal) with
      | none => { outcome := .unknown, externalOrderId }
      | some reconciled => filledResult externalOrderId reconciled

def submitMarketOrder (request : MarketOrderRequest) : BrokerSubmissionResult :=
  match evaluateLiveGates b.gates (b.runtime.accountInfo.map Mt5Account.login) with
  | some rejection => { outcome := .rejected, rejection := some rejection }
  | none =>
    match b.preflight request, b.runtime.symbolInfo request.symbol,
        b.runtime.symbolInfoTick request.symbol with
    | none, some info, some tick =>
      match b.mt5Request request info tick with
      | .error message =>
        rejected (if message = "symbol does not advertise a supported filling mode"
          then .unsupportedFillPolicy else .invalidQuantity) message
      | .ok mt5 =>
        match b.runtime.orderCheck mt5 with
        | none => rejected .orderCheckFailed ("order_check failed: " ++ b.runtime.lastError.2)
            [("mt5_error_code", .decimal b.runtime.lastError.1)]
        | some retcode =>
          if !isSuccessRetcode retcode then
            rejected .orderCheckFailed ("order_check rejected: " ++ retcodeLabel retcode)
              [("retcode", .decimal retcode)]
          else if b.dryRun then
            { outcome := .rejected
              rejection := some (liveLocked ("live adapter is implemented and order_check passed, " ++
                "but dry_run prevents order_send in this environment")) }
          else b.settleSend request (b.runtime.orderSend mt5)
    | rejection, _, _ => { outcome := .rejected, rejection }

/-- The adapter as the reconciler and the service see it. -/
def toBroker : ExecutionBroker where
  submitMarketOrder request _ := .ok (b.submitMarketOrder request)
  lookupOrder request := .ok (b.lookupOrder request)

end MetaTraderBroker

end QBackend.Execution
