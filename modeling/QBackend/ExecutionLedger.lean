import QBackend.ExecutionDatabase
import Mathlib.Algebra.Order.Ring.Abs
import Mathlib.Algebra.Order.Ring.Rat

/-!
# The durable paper ledger

`execution/ledger.py`: the transition of the single net position under a fill, the realized
and unrealized profit, and `ExecutionLedger.apply_fill`, which writes a fill, its ledger
entries, the cash balance, the position and the order status in one transaction.
-/

namespace QBackend.Execution

open KeyedTables

/-- A net position as a value. A deployment without an open row holds `Holding.flat`. -/
structure Holding where
  side : PositionSide
  quantity : ℚ
  entry : Option ℚ
  deriving DecidableEq, Repr

def Holding.flat : Holding := ⟨.flat, 0, none⟩

def ExecutionNetPosition.holding (p : ExecutionNetPosition) : Holding :=
  ⟨p.side, p.quantity, p.averageEntryPrice⟩

def markPriceForPosition (side : PositionSide) (quote : ExecutableQuote) : ℚ :=
  match side with
  | .long => quote.bid
  | .short => quote.ask
  | .flat => (quote.bid + quote.ask) / 2

def unrealizedPnl (side : PositionSide) (quantity averageEntryPrice markPrice pointValue : ℚ) : ℚ :=
  match side with
  | .long => (markPrice - averageEntryPrice) * quantity * pointValue
  | .short => (averageEntryPrice - markPrice) * quantity * pointValue
  | .flat => 0

def realizedPnlForClose (closingSide : PositionSide)
    (quantity entryPrice exitPrice pointValue : ℚ) : ℚ :=
  match closingSide with
  | .long => (exitPrice - entryPrice) * quantity * pointValue
  | .short => (entryPrice - exitPrice) * quantity * pointValue
  | .flat => 0

structure PositionTransition where
  newSide : PositionSide
  newQuantity : ℚ
  newAverageEntryPrice : Option ℚ
  closeQuantity : ℚ
  closingSide : Option PositionSide
  openQuantity : ℚ
  openingSide : Option PositionSide
  deriving DecidableEq, Repr

/-- Python's `current_entry or fill_price`: a missing or a zero entry price gives way. -/
def entryOr (entry : Option ℚ) (fillPrice : ℚ) : ℚ :=
  match entry with
  | some e => if e = 0 then fillPrice else e
  | none => fillPrice

def openingSideOf : ExecutionSide → PositionSide
  | .buy => .long
  | .sell => .short

def isReducing (side : PositionSide) (orderSide : ExecutionSide) : Bool :=
  (side = .long ∧ orderSide = .sell) ∨ (side = .short ∧ orderSide = .buy)

def isSameSideAdd (side : PositionSide) (orderSide : ExecutionSide) : Bool :=
  (side = .long ∧ orderSide = .buy) ∨ (side = .short ∧ orderSide = .sell)

def transitionPosition (current : Holding) (orderSide : ExecutionSide)
    (orderQuantity fillPrice : ℚ) : Except ExecutionError PositionTransition :=
  if current.side = .flat ∨ current.quantity = 0 then
    .ok { newSide := openingSideOf orderSide
          newQuantity := orderQuantity
          newAverageEntryPrice := some fillPrice
          closeQuantity := 0
          closingSide := none
          openQuantity := orderQuantity
          openingSide := some (openingSideOf orderSide) }
  else if isSameSideAdd current.side orderSide then
    let newQuantity := current.quantity + orderQuantity
    let entry := entryOr current.entry fillPrice
    if newQuantity = 0 then .error .divisionByZero
    else .ok { newSide := current.side
               newQuantity
               newAverageEntryPrice :=
                 some ((entry * current.quantity + fillPrice * orderQuantity) / newQuantity)
               closeQuantity := 0
               closingSide := none
               openQuantity := orderQuantity
               openingSide := some current.side }
  else if ¬ isReducing current.side orderSide then .error .onePosition
  else
    let closeQuantity := min current.quantity orderQuantity
    let remainingOrder := orderQuantity - closeQuantity
    let entry := entryOr current.entry fillPrice
    if remainingOrder = 0 then
      let newQuantity := current.quantity - closeQuantity
      if newQuantity = 0 then
        .ok { newSide := .flat
              newQuantity := 0
              newAverageEntryPrice := none
              closeQuantity
              closingSide := some current.side
              openQuantity := 0
              openingSide := none }
      else
        .ok { newSide := current.side
              newQuantity
              newAverageEntryPrice := some entry
              closeQuantity
              closingSide := some current.side
              openQuantity := 0
              openingSide := none }
    else
      .ok { newSide := openingSideOf orderSide
            newQuantity := remainingOrder
            newAverageEntryPrice := some fillPrice
            closeQuantity
            closingSide := some current.side
            openQuantity := remainingOrder
            openingSide := some (openingSideOf orderSide) }

/-- The profit `apply_fill` books for the closed part of a transition. -/
def PositionTransition.realized (t : PositionTransition) (entry : Option ℚ)
    (price pointValue : ℚ) : ℚ :=
  match t.closingSide with
  | some side =>
    if 0 < t.closeQuantity then
      realizedPnlForClose side t.closeQuantity (entryOr entry price) price pointValue
    else 0
  | none => 0

/-- The arguments of one `apply_fill` call, with the identifier and the creation time that the
new rows receive. -/
structure FillApplication where
  paperAccountId : ℕ
  deploymentId : ℕ
  orderId : ℕ
  fillId : ℕ
  fill : FillRecord
  pointValue : ℚ
  symbol : String
  reconciling : Bool := false
  createdAt : Time
  deriving DecidableEq, Repr

structure LedgerApplyResult where
  fillId : ℕ
  cashBalance : ℚ
  realizedPnl : ℚ
  fee : ℚ
  position : Holding
  idempotent : Bool := false
  deriving DecidableEq, Repr

/-- The net position `apply_fill` starts from. -/
def Database.holding (db : Database) (deploymentId : ℕ) : Holding :=
  match db.getOpenNetPosition deploymentId with
  | some p => p.holding
  | none => .flat

/-- The ledger rows of a fill: the realized profit when it is not zero, then the fee when it
is not zero. Both carry the balance after the whole fill. -/
def ledgerEntriesOf (a : FillApplication) (t : PositionTransition) (realized cash : ℚ) :
    List ExecutionLedgerEntry :=
  (if realized ≠ 0 then [
    { paperAccountId := a.paperAccountId, deploymentId := a.deploymentId, fillId := a.fillId
      entryType := .realizedPnl, amount := realized, balanceAfter := cash
      description := a.symbol ++ " close " ++ toString t.closeQuantity
      createdAt := a.createdAt }] else []) ++
  (if a.fill.fee ≠ 0 then [
    { paperAccountId := a.paperAccountId, deploymentId := a.deploymentId, fillId := a.fillId
      entryType := .fee, amount := -a.fill.fee, balanceAfter := cash
      description := a.symbol ++ " commission"
      createdAt := a.createdAt }] else [])

/-- Reconciled orders are UNKNOWN and go straight to FILLED; a submitted order passes through
SUBMITTED. -/
def settleOrder (db : Database) (a : FillApplication) : Except ExecutionError Database :=
  if a.reconciling then
    db.transitionExecutionOrder a.orderId .filled
      { submittedAt := some a.fill.filledAt, completedAt := some a.fill.filledAt }
  else do
    let db ← db.transitionExecutionOrder a.orderId .submitted
      { submittedAt := some a.fill.filledAt }
    db.transitionExecutionOrder a.orderId .filled { completedAt := some a.fill.filledAt }

def applyFill (db : Database) (a : FillApplication) :
    Except ExecutionError (Database × LedgerApplyResult) :=
  match db.getExecutionFillByExternalId a.fill.brokerMode a.fill.externalFillId with
  | some existing =>
    match db.getPaperAccount a.paperAccountId with
    | none => .error (.notFound "PaperAccount" a.paperAccountId)
    | some account =>
      .ok (db, { fillId := existing.id
                 cashBalance := account.cashBalance
                 realizedPnl := 0
                 fee := existing.record.fee
                 position := db.holding a.deploymentId
                 idempotent := true })
  | none =>
    match db.getPaperAccount a.paperAccountId with
    | none => .error (.notFound "PaperAccount" a.paperAccountId)
    | some account => do
      let current := db.holding a.deploymentId
      let t ← transitionPosition current a.fill.side a.fill.quantity a.fill.price
      let realized := t.realized current.entry a.fill.price a.pointValue
      let cash := account.cashBalance + realized - a.fill.fee
      let db ← db.createExecutionFill
        { id := a.fillId, deploymentId := a.deploymentId, orderId := a.orderId
          record := a.fill, createdAt := a.createdAt }
      let db := { db with
        ledgerEntries := db.ledgerEntries ++ ledgerEntriesOf a t realized cash }
      let db ← db.updatePaperCashBalance a.paperAccountId cash
      let db := db.upsertOpenNetPosition a.deploymentId t.newSide t.newQuantity
        t.newAverageEntryPrice a.fill.filledAt
      let db ← settleOrder db a
      return (db, { fillId := a.fillId
                    cashBalance := cash
                    realizedPnl := realized
                    fee := a.fill.fee
                    position := ⟨t.newSide, t.newQuantity, t.newAverageEntryPrice⟩ })

structure BrokerPositionSnapshot where
  deploymentId : ℕ
  symbol : String
  side : PositionSide
  quantity : ℚ
  averageEntryPrice : Option ℚ
  unrealizedPnl : ℚ
  markPrice : Option ℚ
  deriving DecidableEq, Repr

structure BrokerAccountSnapshot where
  accountId : ℕ
  cashBalance : ℚ
  equity : ℚ
  unrealizedPnl : ℚ
  realizedPnl : ℚ
  totalFees : ℚ
  positions : List BrokerPositionSnapshot
  asOf : Time
  deriving DecidableEq, Repr

def ledgerTotal (db : Database) (accountId : ℕ) (entryType : LedgerEntryType) : ℚ :=
  ((db.ledgerEntries.filter (fun e => e.paperAccountId = accountId ∧
    e.entryType = entryType)).map (·.amount)).sum

/-- `account_snapshot` values the open position of one deployment only. -/
def accountSnapshot (db : Database) (accountId deploymentId : ℕ) (symbol : String)
    (quote : Option ExecutableQuote) (pointValue : ℚ) (asOf : Time) :
    Except ExecutionError BrokerAccountSnapshot :=
  match db.getPaperAccount accountId with
  | none => .error (.notFound "PaperAccount" accountId)
  | some account =>
    let positions : List BrokerPositionSnapshot :=
      match db.getOpenNetPosition deploymentId with
      | none => []
      | some position =>
        if 0 < position.quantity then
          let mark := quote.map (markPriceForPosition position.side)
          [{ deploymentId, symbol, side := position.side, quantity := position.quantity
             averageEntryPrice := position.averageEntryPrice
             unrealizedPnl := (mark.map (fun m => unrealizedPnl position.side position.quantity
               (position.averageEntryPrice.getD 0) m pointValue)).getD 0
             markPrice := mark }]
        else []
    let unrealized := (positions.map (·.unrealizedPnl)).sum
    .ok { accountId
          cashBalance := account.cashBalance
          equity := account.cashBalance + unrealized
          unrealizedPnl := unrealized
          realizedPnl := ledgerTotal db accountId .realizedPnl
          totalFees := |ledgerTotal db accountId .fee|
          positions, asOf }

end QBackend.Execution
