import QBackend.ExecutionDomain
import Mathlib.Algebra.Order.Ring.Rat
import Mathlib.Data.Rat.Floor

/-!
# The paper broker

`execution/brokers/paper.py`: quote and quantity validation, the fill price and the commission,
and the broker that fills every valid market order at once and keeps no order state of its own.
-/

namespace QBackend.Execution

def validateQuote (quote : Option ExecutableQuote) (now : Time) (maxAgeSeconds : ℚ) :
    Option BrokerRejection :=
  match quote with
  | none => some { code := .quoteUnavailable, message := "executable quote is unavailable" }
  | some quote =>
    let prices := [("bid", ContextValue.decimal quote.bid), ("ask", .decimal quote.ask)]
    let age := secondsBetween now quote.timestamp
    if quote.bid ≤ 0 ∨ quote.ask ≤ 0 then
      some { code := .invalidQuote, message := "quote prices must be positive", context := prices }
    else if quote.ask ≤ quote.bid then
      some { code := .invalidQuote, message := "quote is crossed or zero spread"
             context := prices }
    else if maxAgeSeconds < age then
      some { code := .staleQuote, message := "quote is stale"
             context := [("age_seconds", .decimal age),
               ("max_age_seconds", .decimal maxAgeSeconds)] }
    else none

/-- `Decimal.__mod__` on positive operands. -/
def decimalMod (quantity step : ℚ) : ℚ := quantity - step * ⌊quantity / step⌋

def validateQuantity (quantity volumeStep minVolume : ℚ) : Option BrokerRejection :=
  if quantity ≤ 0 then
    some { code := .invalidQuantity, message := "quantity must be positive"
           context := [("quantity", .decimal quantity)] }
  else if quantity < minVolume then
    some { code := .invalidQuantity, message := "quantity is below minimum volume"
           context := [("quantity", .decimal quantity), ("min_volume", .decimal minVolume)] }
  else if decimalMod quantity volumeStep ≠ 0 then
    some { code := .invalidQuantity, message := "quantity is not aligned to volume step"
           context := [("quantity", .decimal quantity), ("volume_step", .decimal volumeStep)] }
  else none

def executableFillPrice (side : ExecutionSide) (quote : ExecutableQuote) (slippagePoints : ℚ) : ℚ :=
  match side with
  | .buy => quote.ask + slippagePoints
  | .sell => quote.bid - slippagePoints

def computeCommission (cost : PaperCostConfig) (price quantity : ℚ) : ℚ :=
  cost.costPerContract * quantity +
    cost.costBps / 10000 * (price * quantity * cost.pointValue)

/-- `PaperBroker.submit_market_order` with the quote and the clock it reads. -/
def paperSubmit (quotes : String → Option ExecutableQuote) (now : Time)
    (request : MarketOrderRequest) (cost : PaperCostConfig) : BrokerSubmissionResult :=
  match validateQuote (quotes request.symbol) now cost.maxQuoteAgeSeconds, quotes request.symbol with
  | some rejection, _ => { outcome := .rejected, rejection := some rejection }
  | none, none => { outcome := .rejected }
  | none, some quote =>
    match validateQuantity request.quantity cost.volumeStep cost.minVolume with
    | some rejection => { outcome := .rejected, rejection := some rejection }
    | none =>
      let price := executableFillPrice request.side quote cost.slippagePoints
      { outcome := .filled
        fill := some
          { brokerMode := .paper, externalFillId := request.externalFillId, side := request.side
            quantity := request.quantity, price
            fee := computeCommission cost price request.quantity
            slippage := cost.slippagePoints, quoteBid := some quote.bid
            quoteAsk := some quote.ask, quoteTimestamp := some quote.timestamp
            filledAt := now } }

/-- A paper fill exists only as a row of Q's own ledger, so a lookup never finds one. -/
def paperLookup : BrokerOrderState :=
  { status := .notFound
    message := "paper broker keeps no external order state; Q ledger is authoritative" }

def paperBroker (quotes : String → Option ExecutableQuote) (now : Time) : ExecutionBroker where
  submitMarketOrder request cost := .ok (paperSubmit quotes now request cost)
  lookupOrder _ := .ok paperLookup

/-- A paper fill is the request itself, for a strictly positive quantity. -/
theorem paperSubmit_fill {quotes : String → Option ExecutableQuote} {now : Time}
    {request : MarketOrderRequest} {cost : PaperCostConfig} {fill : FillRecord}
    (h : (paperSubmit quotes now request cost).fill = some fill) :
    fill.brokerMode = .paper ∧ fill.externalFillId = request.externalFillId ∧
      fill.side = request.side ∧ fill.quantity = request.quantity ∧ 0 < fill.quantity := by
  unfold paperSubmit at h
  split at h
  · cases h
  · cases h
  · split at h
    · cases h
    next hquantity =>
      simp only [Option.some.injEq] at h
      subst h
      refine ⟨rfl, rfl, rfl, rfl, ?_⟩
      by_contra hneg
      simp [validateQuantity, not_lt.mp hneg] at hquantity

end QBackend.Execution
