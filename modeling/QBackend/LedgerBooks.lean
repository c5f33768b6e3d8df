import QBackend.ExecutionLedger
import QBackend.FallibleSteps
import Mathlib.Algebra.BigOperators.Group.Finset.Basic
import Mathlib.Algebra.Order.Field.Basic
import Mathlib.Tactic.FieldSimp
import Mathlib.Tactic.LinearCombination
import Mathlib.Tactic.Positivity
import Mathlib.Tactic.Ring

/-!
# Books: what the ledger is for

The abstract side of the ledger. `Books` is a holding for each deployment, a cash balance for
each account and the journal; `Books.post` enters one fill. `applyFill_cases` says everything
a successful `apply_fill` does to the tables, and `applyFill_books` that on the books it is
either nothing (a repeated external fill id) or one `post`.
-/

namespace QBackend.Execution

open KeyedTables FallibleSteps

/-! ## Signed quantities and valuation -/

def signedQuantity (side : ExecutionSide) (quantity : ℚ) : ℚ :=
  match side with
  | .buy => quantity
  | .sell => -quantity

def Holding.signed (h : Holding) : ℚ :=
  match h.side with
  | .long => h.quantity
  | .short => -h.quantity
  | .flat => 0

def Holding.unrealized (h : Holding) (mark pointValue : ℚ) : ℚ :=
  unrealizedPnl h.side h.quantity (h.entry.getD 0) mark pointValue

/-- Flat with nothing recorded, or a strictly positive quantity at a strictly positive entry
price on one side. -/
inductive Holding.WellFormed : Holding → Prop where
  | flat : WellFormed .flat
  | open {side quantity entry} (hside : side ≠ .flat) (hquantity : 0 < quantity)
      (hentry : 0 < entry) : WellFormed ⟨side, quantity, some entry⟩

theorem Holding.WellFormed.side_eq {h : Holding} (hw : h.WellFormed) :
    (0 < h.signed ∧ h.side = .long ∧ h.quantity = h.signed) ∨
    (h.signed < 0 ∧ h.side = .short ∧ h.quantity = -h.signed) ∨
    (h.signed = 0 ∧ h = .flat) := by
  cases hw with
  | flat => exact .inr (.inr ⟨rfl, rfl⟩)
  | @«open» side quantity entry hside hquantity hentry =>
    cases side with
    | long => exact .inl ⟨hquantity, rfl, rfl⟩
    | short => exact .inr (.inl ⟨by simpa [signed] using hquantity, rfl, by simp [signed]⟩)
    | flat => exact absurd rfl hside

/-- The holding a transition leaves: `upsert_open_net_position` closes the row of a flat side
or of a zero quantity. -/
def PositionTransition.holding (t : PositionTransition) : Holding :=
  if t.newSide = .flat ∨ t.newQuantity = 0 then .flat
  else ⟨t.newSide, t.newQuantity, t.newAverageEntryPrice⟩

private theorem entryOr_pos {e p : ℚ} (he : 0 < e) : entryOr (some e) p = e := by
  simp [entryOr, he.ne']

/-- What one fill does to a well-formed position: the signed quantities add up, and profit
booked plus profit still open grows by what the fill itself is worth at the mark. -/
structure TransitionSpec (h : Holding) (side : ExecutionSide) (q p : ℚ)
    (t : PositionTransition) : Prop where
  wellFormed : t.holding.WellFormed
  signed : t.holding.signed = h.signed + signedQuantity side q
  value : ∀ m pv, t.realized h.entry p pv + t.holding.unrealized m pv =
    h.unrealized m pv + signedQuantity side q * (m - p) * pv

private theorem transition_flat (side : ExecutionSide) {q p : ℚ} (hq : 0 < q) (hp : 0 < p) :
    ∃ t, transitionPosition .flat side q p = .ok t ∧ TransitionSpec .flat side q p t := by
  refine ⟨_, by rw [transitionPosition, if_pos (.inl rfl)], ?_⟩
  have hne : openingSideOf side ≠ .flat := by cases side <;> simp [openingSideOf]
  constructor
  · simp only [PositionTransition.holding, hne, hq.ne', or_self, if_false]
    exact .open hne hq hp
  · cases side <;>
      simp [PositionTransition.holding, openingSideOf, hq.ne', Holding.signed, Holding.flat,
        signedQuantity]
  · intro m pv
    cases side <;>
      simp only [PositionTransition.holding, PositionTransition.realized, openingSideOf, hq.ne',
        Holding.unrealized, unrealizedPnl, Holding.flat, signedQuantity, reduceCtorEq, or_self,
        if_false, Option.getD_some] <;> ring

/-- Adding to a position averages the entry price over the joined quantity. -/
private theorem transition_add {s : PositionSide} {side : ExecutionSide} {Q e q p : ℚ}
    (hs : s ≠ .flat) (hQ : 0 < Q) (he : 0 < e) (hq : 0 < q) (hp : 0 < p)
    (hadd : isSameSideAdd s side) :
    ∃ t, transitionPosition ⟨s, Q, some e⟩ side q p = .ok t ∧
      TransitionSpec ⟨s, Q, some e⟩ side q p t := by
  have hsum : Q + q ≠ 0 := (add_pos hQ hq).ne'
  have havg : 0 < (e * Q + p * q) / (Q + q) := by positivity
  have hcancel : (e * Q + p * q) / (Q + q) * (Q + q) = e * Q + p * q := div_mul_cancel₀ _ hsum
  simp only [transitionPosition, hs, hQ.ne', or_self, if_false, hadd, if_true, hsum,
    entryOr_pos he]
  refine ⟨_, rfl, ?_, ?_, ?_⟩
  · simp only [PositionTransition.holding, hs, hsum, or_self, if_false]
    exact .open hs (add_pos hQ hq) havg
  · simp only [PositionTransition.holding, hs, hsum, or_self, if_false]
    cases s <;> cases side <;> simp [isSameSideAdd] at hadd hs <;>
      simp only [Holding.signed, signedQuantity] <;> ring
  · intro m pv
    simp only [PositionTransition.holding, hs, hsum, or_self, if_false]
    cases s <;> cases side <;> simp [isSameSideAdd] at hadd hs <;>
      simp only [PositionTransition.realized, Holding.unrealized, unrealizedPnl, signedQuantity,
        Option.getD_some]
    · linear_combination (-pv) * hcancel
    · linear_combination pv * hcancel

/-- A partial close keeps the entry price, an exact close leaves nothing, and a larger order
closes the whole position and opens the rest on the other side at its own price. -/
private theorem transition_reduce {s : PositionSide} {side : ExecutionSide} {Q e q p : ℚ}
    (hs : s ≠ .flat) (hQ : 0 < Q) (he : 0 < e) (hq : 0 < q) (hp : 0 < p)
    (hadd : ¬ isSameSideAdd s side) :
    ∃ t, transitionPosition ⟨s, Q, some e⟩ side q p = .ok t ∧
      TransitionSpec ⟨s, Q, some e⟩ side q p t := by
  have hred : isReducing s side := by
    cases s <;> cases side <;> simp_all [isSameSideAdd, isReducing]
  simp only [transitionPosition, hs, hQ.ne', or_self, if_false, hadd, hred, not_true_eq_false,
    entryOr_pos he]
  rcases lt_trichotomy q Q with hlt | heq | hgt
  · have hrest : Q - q ≠ 0 := (sub_pos.mpr hlt).ne'
    simp only [min_eq_right hlt.le, sub_self, if_true, hrest, if_false]
    refine ⟨_, rfl, ?_, ?_, ?_⟩
    · simp only [PositionTransition.holding, hs, hrest, or_self, if_false]
      exact .open hs (sub_pos.mpr hlt) he
    · simp only [PositionTransition.holding, hs, hrest, or_self, if_false]
      cases s <;> cases side <;> simp [isSameSideAdd] at hadd hs <;>
        simp only [Holding.signed, signedQuantity] <;> ring
    · intro m pv
      simp only [PositionTransition.holding, hs, hrest, or_self, if_false]
      cases s <;> cases side <;> simp [isSameSideAdd] at hadd hs <;>
        simp only [PositionTransition.realized, Holding.unrealized, unrealizedPnl, hq, if_true,
          realizedPnlForClose, signedQuantity, entryOr_pos he, Option.getD_some] <;> ring
  · subst heq
    simp only [min_self, sub_self, if_true]
    refine ⟨_, rfl, ?_, ?_, ?_⟩
    · simpa [PositionTransition.holding] using Holding.WellFormed.flat
    · cases s <;> cases side <;> simp [isSameSideAdd] at hadd hs <;>
        simp [PositionTransition.holding, Holding.signed, Holding.flat, signedQuantity]
    · intro m pv
      cases s <;> cases side <;> simp [isSameSideAdd] at hadd hs <;>
        simp only [PositionTransition.holding, PositionTransition.realized, Holding.unrealized,
          Holding.flat, unrealizedPnl, hq, if_true, true_or, realizedPnlForClose, signedQuantity,
          entryOr_pos he, Option.getD_some] <;> ring
  · have hrest : q - Q ≠ 0 := (sub_pos.mpr hgt).ne'
    have hne : openingSideOf side ≠ .flat := by cases side <;> simp [openingSideOf]
    simp only [min_eq_left hgt.le, hrest, if_false]
    refine ⟨_, rfl, ?_, ?_, ?_⟩
    · simp only [PositionTransition.holding, hne, hrest, or_self, if_false]
      exact .open hne (sub_pos.mpr hgt) hp
    · simp only [PositionTransition.holding, hne, hrest, or_self, if_false]
      cases s <;> cases side <;> simp [isSameSideAdd] at hadd hs <;>
        simp only [openingSideOf, Holding.signed, signedQuantity] <;> ring
    · intro m pv
      simp only [PositionTransition.holding, hne, hrest, or_self, if_false]
      cases s <;> cases side <;> simp [isSameSideAdd] at hadd hs <;>
        simp only [PositionTransition.realized, openingSideOf, Holding.unrealized, unrealizedPnl,
          hQ, if_true, realizedPnlForClose, signedQuantity, entryOr_pos he, Option.getD_some] <;>
        ring

theorem transitionPosition_spec {h : Holding} (hw : h.WellFormed) (side : ExecutionSide)
    {q p : ℚ} (hq : 0 < q) (hp : 0 < p) :
    ∃ t, transitionPosition h side q p = .ok t ∧ TransitionSpec h side q p t := by
  cases hw with
  | flat => exact transition_flat side hq hp
  | @«open» s Q e hs hQ he =>
    by_cases hadd : isSameSideAdd s side
    · exact transition_add hs hQ he hq hp hadd
    · exact transition_reduce hs hQ he hq hp hadd

/-! ## Books -/

/-- What the ledger is about: the holding of each deployment, the cash of each account and the
journal. -/
@[ext] structure Books where
  holding : ℕ → Holding
  cash : ℕ → ℚ
  journal : List ExecutionLedgerEntry

def Database.cash (db : Database) (accountId : ℕ) : ℚ :=
  ((db.getPaperAccount accountId).map (·.cashBalance)).getD 0

def Database.books (db : Database) : Books := ⟨db.holding, db.cash, db.ledgerEntries⟩

/-- Enters one fill. -/
def Books.post (b : Books) (a : FillApplication) : Books :=
  match transitionPosition (b.holding a.deploymentId) a.fill.side a.fill.quantity a.fill.price with
  | .error _ => b
  | .ok t =>
    let realized := t.realized (b.holding a.deploymentId).entry a.fill.price a.pointValue
    let cash := b.cash a.paperAccountId + realized - a.fill.fee
    { holding := Function.update b.holding a.deploymentId t.holding
      cash := Function.update b.cash a.paperAccountId cash
      journal := b.journal ++ ledgerEntriesOf a t realized cash }

/-- The row that `apply_fill` inserts. -/
def FillApplication.row (a : FillApplication) : ExecutionFill :=
  { id := a.fillId, deploymentId := a.deploymentId, orderId := a.orderId, record := a.fill
    createdAt := a.createdAt }

/-- The order row after `apply_fill`, by either path through the statuses. -/
def FillApplication.settled (a : FillApplication) (o : ExecutionOrder) : ExecutionOrder :=
  { o with
    status := .filled
    submittedAt := some a.fill.filledAt
    completedAt := some a.fill.filledAt }

/-- What identifies a fill: the pair under the unique constraint. -/
def FillApplication.externalKey (a : FillApplication) : BrokerMode × String :=
  (a.fill.brokerMode, a.fill.externalFillId)

def Database.recordedKeys (db : Database) : List (BrokerMode × String) :=
  db.fills.map (fun f => (f.record.brokerMode, f.record.externalFillId))

theorem getExecutionFillByExternalId_eq_none {db : Database} {a : FillApplication} :
    db.getExecutionFillByExternalId a.fill.brokerMode a.fill.externalFillId = none ↔
      a.externalKey ∉ db.recordedKeys := by
  simp only [Database.getExecutionFillByExternalId, List.find?_eq_none, decide_eq_true_eq,
    Database.recordedKeys, List.mem_map, FillApplication.externalKey, Prod.mk.injEq, not_exists,
    not_and]

/-! ## The position table -/

section PositionTable

variable {positions : List ExecutionNetPosition} {d d' : ℕ}
  {f : ExecutionNetPosition → ExecutionNetPosition}

private theorem openPosition_modifyOpen (hd : ∀ p, (f p).deploymentId = p.deploymentId)
    (hopen : ∀ p, (f p).isOpen = true) :
    Database.openPosition (Database.modifyOpen positions d f) d =
      (Database.openPosition positions d).map f := by
  unfold Database.openPosition Database.modifyOpen
  induction positions with
  | nil => rfl
  | cons p ps ih =>
    by_cases hp : p.deploymentId = d ∧ p.isOpen
    · simp [hp, hd, hopen]
    · simp only [List.map_cons, hp, if_false, List.find?_cons, decide_false]
      exact ih

private theorem openPosition_modifyOpen_closed (hclosed : ∀ p, (f p).isOpen = false) :
    Database.openPosition (Database.modifyOpen positions d f) d = none := by
  simp only [Database.openPosition, Database.modifyOpen, List.find?_eq_none, List.mem_map]
  rintro _ ⟨p, -, rfl⟩
  by_cases hp : p.deploymentId = d ∧ p.isOpen
  · simp [hp, hclosed]
  · simp [hp]

private theorem openPosition_modifyOpen_of_ne (hd : ∀ p, (f p).deploymentId = p.deploymentId)
    (hne : d' ≠ d) :
    Database.openPosition (Database.modifyOpen positions d f) d' =
      Database.openPosition positions d' := by
  unfold Database.openPosition Database.modifyOpen
  induction positions with
  | nil => rfl
  | cons p ps ih =>
    by_cases hp : p.deploymentId = d ∧ p.isOpen
    · simp only [List.map_cons, hp, and_self, if_true, List.find?_cons, hd, hne.symm, false_and,
        decide_false]
      exact ih
    · simp only [List.map_cons, hp, if_false, List.find?_cons]
      rw [ih]

/-- The open row after an upsert: `opened_at` is the old row's, when there was one. -/
theorem openPosition_upsertPositions (side : PositionSide) (q : ℚ) (e : Option ℚ) (now : Time) :
    Database.openPosition (Database.upsertPositions positions d side q e now) d =
      if side = .flat ∨ q = 0 then none else some
        { deploymentId := d, side, quantity := q, averageEntryPrice := e, isOpen := true
          openedAt := ((Database.openPosition positions d).bind ExecutionNetPosition.openedAt).or
            (some now) } := by
  by_cases hflat : side = .flat ∨ q = 0
  · simp only [Database.upsertPositions, hflat, if_true]
    cases hopen : Database.openPosition positions d with
    | some p => simp [openPosition_modifyOpen_closed]
    | none =>
      unfold Database.openPosition at hopen ⊢
      rw [List.find?_append, hopen]
      simp
  · simp only [Database.upsertPositions, hflat, if_false]
    cases hopen : Database.openPosition positions d with
    | some p =>
      have hd : p.deploymentId = d := by
        have hfound := List.find?_some hopen
        simp only [decide_eq_true_eq] at hfound
        exact hfound.1
      simp [openPosition_modifyOpen, hopen, hd]
    | none =>
      unfold Database.openPosition at hopen ⊢
      rw [List.find?_append, hopen]
      simp

theorem openPosition_upsertPositions_self (side : PositionSide) (q : ℚ) (e : Option ℚ)
    (now : Time) :
    ((Database.openPosition (Database.upsertPositions positions d side q e now) d).map
      ExecutionNetPosition.holding).getD .flat =
      if side = .flat ∨ q = 0 then .flat else ⟨side, q, e⟩ := by
  rw [openPosition_upsertPositions]
  split <;> rfl

theorem openPosition_upsertPositions_of_ne (side : PositionSide) (q : ℚ) (e : Option ℚ)
    (now : Time) (hne : d' ≠ d) :
    Database.openPosition (Database.upsertPositions positions d side q e now) d' =
      Database.openPosition positions d' := by
  by_cases hflat : side = .flat ∨ q = 0
  · simp only [Database.upsertPositions, hflat, if_true]
    cases hopen : Database.openPosition positions d with
    | some p => simp [openPosition_modifyOpen_of_ne, hne]
    | none => simp [Database.openPosition, hne.symm]
  · simp only [Database.upsertPositions, hflat, if_false]
    cases hopen : Database.openPosition positions d with
    | some p => simp [openPosition_modifyOpen_of_ne, hne]
    | none => simp [Database.openPosition, hne.symm]

end PositionTable

theorem Database.holding_eq (db : Database) (d : ℕ) :
    db.holding d = ((Database.openPosition db.positions d).map
      ExecutionNetPosition.holding).getD .flat := by
  unfold Database.holding Database.getOpenNetPosition
  cases Database.openPosition db.positions d <;> rfl

/-! ## Everything `apply_fill` does -/

theorem transitionExecutionOrder_ok {db db' : Database} {id : ℕ} {target : ExecutionOrderStatus}
    {u : Database.OrderUpdate} (h : db.transitionExecutionOrder id target u = .ok db') :
    ∃ order, db.getExecutionOrder id = some order ∧ target ∈ orderTransitions order.status ∧
      db' = db.modifyOrder id (u.apply target) := by
  unfold Database.transitionExecutionOrder at h
  cases horder : db.getExecutionOrder id with
  | none => simp [horder] at h
  | some order =>
    simp only [horder, bind_eq_ok, pure_eq_ok] at h
    obtain ⟨status, hstatus, rfl⟩ := h
    unfold validateOrderTransition at hstatus
    split at hstatus
    · exact ⟨order, rfl, ‹_›, rfl⟩
    · cases hstatus

theorem Database.modifyOrder_modifyOrder (db : Database) (id : ℕ) {f g : ExecutionOrder → ExecutionOrder}
    (hf : ∀ o, (f o).id = o.id) :
    (db.modifyOrder id f).modifyOrder id g = db.modifyOrder id (fun o => g (f o)) := by
  simp only [modifyOrder, modify_modify hf]

theorem settleOrder_ok {db db' : Database} {a : FillApplication}
    (h : settleOrder db a = .ok db') :
    ∃ order, db.getExecutionOrder a.orderId = some order ∧
      (if a.reconciling then .filled ∈ orderTransitions order.status
        else order.status = .intent) ∧
      db' = db.modifyOrder a.orderId a.settled := by
  unfold settleOrder at h
  by_cases hr : a.reconciling
  · simp only [hr, if_true] at h ⊢
    obtain ⟨order, horder, hstatus, rfl⟩ := transitionExecutionOrder_ok h
    exact ⟨order, horder, hstatus, rfl⟩
  · simp only [hr, if_false, bind_eq_ok, Bool.false_eq_true] at h ⊢
    obtain ⟨mid, hmid, h⟩ := h
    obtain ⟨order, horder, hstatus, rfl⟩ := transitionExecutionOrder_ok hmid
    obtain ⟨-, -, -, rfl⟩ := transitionExecutionOrder_ok h
    refine ⟨order, horder, ?_, ?_⟩
    · cases hs : order.status <;> simp_all [orderTransitions]
    · exact Database.modifyOrder_modifyOrder db a.orderId (fun _ => rfl)

/-- A call that raises nothing either finds the external fill id and changes nothing, or
inserts its row and moves the books, the position table and the order together. -/
theorem applyFill_ok {db db' : Database} {a : FillApplication} {r : LedgerApplyResult}
    (h : applyFill db a = .ok (db', r)) :
    (∃ existing, db.getExecutionFillByExternalId a.fill.brokerMode a.fill.externalFillId =
        some existing ∧ r.idempotent = true ∧ db' = db) ∨
    (db.getExecutionFillByExternalId a.fill.brokerMode a.fill.externalFillId = none ∧
      r.idempotent = false ∧ ∃ account t order,
      db.getPaperAccount a.paperAccountId = some account ∧
      transitionPosition (db.holding a.deploymentId) a.fill.side a.fill.quantity a.fill.price =
        .ok t ∧
      db.getExecutionOrder a.orderId = some order ∧
      (if a.reconciling then .filled ∈ orderTransitions order.status
        else order.status = .intent) ∧
      db' = { db with
        fills := db.fills ++ [a.row]
        ledgerEntries := db.ledgerEntries ++ ledgerEntriesOf a t r.realizedPnl r.cashBalance
        accounts := modify PaperAccount.id db.accounts a.paperAccountId
          (fun c => { c with cashBalance := r.cashBalance })
        positions := Database.upsertPositions db.positions a.deploymentId t.newSide t.newQuantity
          t.newAverageEntryPrice a.fill.filledAt
        orders := modify ExecutionOrder.id db.orders a.orderId a.settled } ∧
      r.realizedPnl = t.realized (db.holding a.deploymentId).entry a.fill.price a.pointValue ∧
      r.cashBalance = account.cashBalance + r.realizedPnl - a.fill.fee) := by
  unfold applyFill at h
  cases hfill : db.getExecutionFillByExternalId a.fill.brokerMode a.fill.externalFillId with
  | some existing =>
    cases haccount : db.getPaperAccount a.paperAccountId with
    | none => simp [hfill, haccount] at h
    | some account =>
      simp only [hfill, haccount, Except.ok.injEq, Prod.mk.injEq] at h
      obtain ⟨rfl, rfl⟩ := h
      exact .inl ⟨existing, rfl, rfl, rfl⟩
  | none =>
    cases haccount : db.getPaperAccount a.paperAccountId with
    | none => simp [hfill, haccount] at h
    | some account =>
      simp only [hfill, haccount, bind_eq_ok, pure_eq_ok, Prod.mk.injEq] at h
      obtain ⟨t, ht, db1, h1, db2, h2, db3, h3, rfl, rfl⟩ := h
      simp only [Database.createExecutionFill, hfill, Except.ok.injEq] at h1
      subst h1
      simp only [Database.updatePaperCashBalance, Database.getPaperAccount] at h2 haccount
      simp only [haccount, Except.ok.injEq] at h2
      subst h2
      obtain ⟨order, horder, hstatus, rfl⟩ := settleOrder_ok h3
      exact .inr ⟨rfl, rfl, account, t, order, rfl, ht, horder, hstatus, rfl, rfl, rfl⟩

theorem holding_upsertOpenNetPosition (db : Database) (d : ℕ) (t : PositionTransition)
    (now : Time) :
    (db.upsertOpenNetPosition d t.newSide t.newQuantity t.newAverageEntryPrice now).holding =
      Function.update db.holding d t.holding := by
  funext d'
  by_cases hd : d' = d
  · subst hd
    rw [Function.update_self, Database.holding_eq]
    exact openPosition_upsertPositions_self _ _ _ _
  · rw [Function.update_of_ne hd, Database.holding_eq, Database.holding_eq]
    simp only [Database.upsertOpenNetPosition]
    rw [openPosition_upsertPositions_of_ne _ _ _ _ hd]

theorem cash_modify (db : Database) {account : PaperAccount} {id : ℕ} (c : ℚ)
    (h : db.getPaperAccount id = some account) :
    Database.cash { db with
      accounts := modify PaperAccount.id db.accounts id (fun a => { a with cashBalance := c }) } =
      Function.update db.cash id c := by
  funext id'
  unfold Database.cash Database.getPaperAccount at *
  by_cases hid : id' = id
  · subst hid
    rw [Function.update_self]
    dsimp only
    rw [lookup_modify_self (fun _ => by rfl), h]
    rfl
  · rw [Function.update_of_ne hid]
    dsimp only
    rw [lookup_modify_of_ne (fun _ => by rfl) hid]

theorem Database.cash_of_account {db : Database} {id : ℕ} {account : PaperAccount}
    (h : db.getPaperAccount id = some account) : db.cash id = account.cashBalance := by
  simp [cash, h]

theorem applyFill_books {db db' : Database} {a : FillApplication} {r : LedgerApplyResult}
    (h : applyFill db a = .ok (db', r)) (hr : r.idempotent = false) :
    db'.books = db.books.post a := by
  rcases applyFill_ok h with ⟨_, _, hi, _⟩ | ⟨-, -, account, t, order, haccount, ht, -, -, rfl, hpnl,
    hcash⟩
  · simp [hr] at hi
  · simp only [Books.post, Database.books, ht, Database.cash_of_account haccount, ← hpnl, ← hcash]
    ext1
    · exact holding_upsertOpenNetPosition db a.deploymentId t a.fill.filledAt
    · exact cash_modify db r.cashBalance haccount
    · rfl

end QBackend.Execution
