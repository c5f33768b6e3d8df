import QBackend.JsonValues

/-!
# Window results and their staged form

The codec of `tasks/serialization.py` for the partial result of one walk-forward window, with the
dump and the validation of the trades it carries. Dates pass through their ISO text; the fields of
parameters and metrics are JSON already. Strings that name numbers, which the validation of a trade
would convert, are refused here: no dump holds one in a number's place.
-/

namespace QBackend.Optimization

open IsoTimestamps JsonValues FallibleSteps

inductive OrderAction where
  | buy | sell
  deriving DecidableEq, Repr

inductive TradeStatus where
  | opened | closed
  deriving DecidableEq, Repr

inductive WindowStatus where
  | completed | noResult
  deriving DecidableEq, Repr

def OrderAction.value : OrderAction → String
  | .buy => "BUY"
  | .sell => "SELL"

def TradeStatus.value : TradeStatus → String
  | .opened => "OPEN"
  | .closed => "CLOSED"

def WindowStatus.value : WindowStatus → String
  | .completed => "completed"
  | .noResult => "no_result"

/-- The executed trade of `backtesting/models.py`. -/
structure ExecutedTrade (F : Type) where
  id : String
  orderId : String
  symbol : String
  action : OrderAction
  quantity : F
  entryTime : Timestamp
  entryPrice : F
  exitTime : Option Timestamp
  exitPrice : Option F
  status : TradeStatus
  pnl : Option F
  commission : F
  pointValue : F
  exitReason : Option String

/-- A window with its dates. -/
structure DatedWindow where
  index : ℕ
  trainStart : Timestamp
  trainEnd : Timestamp
  testStart : Timestamp
  testEnd : Timestamp

structure WindowResult (F : Type) extends DatedWindow where
  status : WindowStatus
  bestParams : Dict F := []
  isMetrics : Option (Dict F) := none
  oosMetrics : Option (Dict F) := none
  oosTrades : List (ExecutedTrade F) := []

variable {F : Type}

/-! ## Dump -/

/-- `Trade.model_dump(mode="json")`. -/
def ExecutedTrade.modelDump (trade : ExecutedTrade F) : Json F :=
  .obj [
    ("id", .str trade.id),
    ("order_id", .str trade.orderId),
    ("symbol", .str trade.symbol),
    ("action", .str trade.action.value),
    ("quantity", .float trade.quantity),
    ("entry_time", .str trade.entryTime.zuluformat),
    ("entry_price", .float trade.entryPrice),
    ("exit_time", Json.ofOption (fun t => .str t.zuluformat) trade.exitTime),
    ("exit_price", Json.ofOption .float trade.exitPrice),
    ("status", .str trade.status.value),
    ("pnl", Json.ofOption .float trade.pnl),
    ("commission", .float trade.commission),
    ("point_value", .float trade.pointValue),
    ("exit_reason", Json.ofOption .str trade.exitReason)]

def windowPartialToDict (result : WindowResult F) (isObjective : Option F) : Json F :=
  .obj [
    ("index", .int result.index),
    ("train_start", .str result.trainStart.isoformat),
    ("train_end", .str result.trainEnd.isoformat),
    ("test_start", .str result.testStart.isoformat),
    ("test_end", .str result.testEnd.isoformat),
    ("status", .str result.status.value),
    ("best_params", .obj result.bestParams),
    ("is_metrics", Json.ofOption .obj result.isMetrics),
    ("oos_metrics", Json.ofOption .obj result.oosMetrics),
    ("oos_trades", .list (result.oosTrades.map ExecutedTrade.modelDump)),
    ("is_objective", Json.ofOption .float isObjective)]

/-! ## Load -/

def OrderAction.ofValue (value : String) : Except Failure OrderAction :=
  if value = "BUY" then .ok .buy
  else if value = "SELL" then .ok .sell
  else .error (.valueError "Input should be 'BUY' or 'SELL'")

def TradeStatus.ofValue (value : String) : Except Failure TradeStatus :=
  if value = "OPEN" then .ok .opened
  else if value = "CLOSED" then .ok .closed
  else .error (.valueError "Input should be 'OPEN' or 'CLOSED'")

def WindowStatus.ofValue (value : String) : Except Failure WindowStatus :=
  if value = "completed" then .ok .completed
  else if value = "no_result" then .ok .noResult
  else .error (.valueError value)

/-- A field with a default. -/
def fieldOr {α : Type} (fields : Dict F) (key : String) (default : α)
    (read : Json F → Except Failure α) : Except Failure α :=
  match fields.lookup key with
  | some value => read value
  | none => .ok default

section Load

variable [IntCast F]

/-- `Trade.model_validate`, with the defaults of the fields that have one. -/
def ExecutedTrade.modelValidate (payload : Json F) : Except Failure (ExecutedTrade F) := do
  let fields ← payload.asObject
  let id ← (← require fields "id").asText
  let orderId ← (← require fields "order_id").asText
  let symbol ← (← require fields "symbol").asText
  let action ← OrderAction.ofValue (← (← require fields "action").asText)
  let quantity ← (← require fields "quantity").asFloat
  let entryTime ← (← require fields "entry_time").asTimestamp
  let entryPrice ← (← require fields "entry_price").asFloat
  let exitTime ← fieldOr fields "exit_time" none (Json.asOption Json.asTimestamp)
  let exitPrice ← fieldOr fields "exit_price" none (Json.asOption Json.asFloat)
  let status ← fieldOr fields "status" .opened (fun s => s.asText >>= TradeStatus.ofValue)
  let pnl ← fieldOr fields "pnl" none (Json.asOption Json.asFloat)
  let commission ← fieldOr fields "commission" ((0 : ℤ) : F) Json.asFloat
  let pointValue ← fieldOr fields "point_value" ((1 : ℤ) : F) Json.asFloat
  let exitReason ← fieldOr fields "exit_reason" none (Json.asOption Json.asText)
  return { id, orderId, symbol, action, quantity, entryTime, entryPrice, exitTime, exitPrice,
           status, pnl, commission, pointValue, exitReason }

def windowPartialFromDict (payload : Json F) : Except Failure (WindowResult F × Option F) := do
  let fields ← payload.asObject
  let index ← (← require fields "index").asNat
  let trainStart ← (← require fields "train_start").asTimestamp
  let trainEnd ← (← require fields "train_end").asTimestamp
  let testStart ← (← require fields "test_start").asTimestamp
  let testEnd ← (← require fields "test_end").asTimestamp
  let status ← WindowStatus.ofValue (← (← require fields "status").asText)
  -- `or {}`: a null counts as no parameters
  let bestParams ← Json.asOption Json.asObject (getOrNull fields "best_params")
  let isMetrics ← Json.asOption Json.asObject (getOrNull fields "is_metrics")
  let oosMetrics ← Json.asOption Json.asObject (getOrNull fields "oos_metrics")
  let trades ← fieldOr fields "oos_trades" [] Json.asList
  let oosTrades ← trades.mapM ExecutedTrade.modelValidate
  let isObjective ← Json.asOption Json.asFloat (getOrNull fields "is_objective")
  return ({ index, trainStart, trainEnd, testStart, testEnd, status,
            bestParams := bestParams.getD [], isMetrics, oosMetrics, oosTrades }, isObjective)

/-! ## What is staged is what is loaded -/

@[simp] theorem OrderAction.ofValue_value (action : OrderAction) :
    OrderAction.ofValue action.value = .ok action := by
  cases action <;> rfl

@[simp] theorem TradeStatus.ofValue_value (status : TradeStatus) :
    TradeStatus.ofValue status.value = .ok status := by
  cases status <;> rfl

@[simp] theorem WindowStatus.ofValue_value (status : WindowStatus) :
    WindowStatus.ofValue status.value = .ok status := by
  cases status <;> rfl

omit [IntCast F] in
theorem asOption_timestamp (x : Option Timestamp) :
    Json.asOption Json.asTimestamp (Json.ofOption (fun t => (.str t.zuluformat : Json F)) x) =
      .ok x :=
  Json.asOption_ofOption Json.asTimestamp_zuluformat (by simp) x

theorem asOption_float (x : Option F) :
    Json.asOption Json.asFloat (Json.ofOption (.float : F → Json F) x) = .ok x := by
  apply Json.asOption_ofOption
  · intro a
    rfl
  · simp

omit [IntCast F] in
theorem asOption_text (x : Option String) :
    Json.asOption Json.asText (Json.ofOption (.str : String → Json F) x) = .ok x := by
  apply Json.asOption_ofOption
  · intro a
    rfl
  · simp

omit [IntCast F] in
theorem asOption_object (x : Option (Dict F)) :
    Json.asOption Json.asObject (Json.ofOption (.obj : Dict F → Json F) x) = .ok x := by
  apply Json.asOption_ofOption
  · intro a
    rfl
  · simp

theorem modelValidate_modelDump (trade : ExecutedTrade F) :
    ExecutedTrade.modelValidate trade.modelDump = .ok trade := by
  unfold ExecutedTrade.modelValidate ExecutedTrade.modelDump
  -- the identifiers and the action
  iterate 9 refine bind_of_ok rfl ?_
  refine bind_of_ok (OrderAction.ofValue_value _) ?_
  -- the entry
  iterate 3 refine bind_of_ok rfl ?_
  refine bind_of_ok (Json.asTimestamp_zuluformat _) ?_
  iterate 2 refine bind_of_ok rfl ?_
  -- the exit
  refine bind_of_ok (asOption_timestamp _) ?_
  refine bind_of_ok (asOption_float _) ?_
  refine bind_of_ok (TradeStatus.ofValue_value _) ?_
  refine bind_of_ok (asOption_float _) ?_
  iterate 2 refine bind_of_ok rfl ?_
  refine bind_of_ok (asOption_text _) ?_
  rfl

theorem windowPartialFromDict_toDict (result : WindowResult F) (isObjective : Option F) :
    windowPartialFromDict (windowPartialToDict result isObjective) = .ok (result, isObjective) := by
  unfold windowPartialFromDict windowPartialToDict
  iterate 3 refine bind_of_ok rfl ?_
  -- the dates
  iterate 4
    refine bind_of_ok rfl ?_
    refine bind_of_ok (Json.asTimestamp_isoformat _) ?_
  iterate 2 refine bind_of_ok rfl ?_
  refine bind_of_ok (WindowStatus.ofValue_value _) ?_
  refine bind_of_ok rfl ?_
  refine bind_of_ok (asOption_object _) ?_
  refine bind_of_ok (asOption_object _) ?_
  refine bind_of_ok rfl ?_
  refine bind_of_ok (Json.mapM_map_ok modelValidate_modelDump result.oosTrades) ?_
  refine bind_of_ok (asOption_float _) ?_
  rfl

end Load

end QBackend.Optimization
