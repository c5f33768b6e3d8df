import QBackend.LedgerBooks
import QBackend.RunInvariants

/-!
# Conservation of the ledger

Postings on one account conserve value: whatever the marks, cash and open profit together are
the initial cash, less the fees, plus what every fill is worth at its mark. The law is proved
for one posting, carried along a list of postings, and read at the tables of a run of
`apply_fill` calls.
-/

namespace QBackend.Execution

open KeyedTables RunInvariants

def FillApplication.signed (a : FillApplication) : ℚ :=
  signedQuantity a.fill.side a.fill.quantity

/-! ## One posting -/

section Posting

variable {accountId : ℕ} {pointValue : ℕ → ℚ} {initialCash : ℚ}

/-- A call on the account with a strictly positive quantity and price. -/
structure FillApplication.Valid (accountId : ℕ) (pointValue : ℕ → ℚ) (a : FillApplication) :
    Prop where
  account : a.paperAccountId = accountId
  pointValue : a.pointValue = pointValue a.deploymentId
  quantity_pos : 0 < a.fill.quantity
  price_pos : 0 < a.fill.price

/-- The books of one account after the fills, posted on an account that held nothing. -/
structure Books.Balanced (accountId : ℕ) (pointValue : ℕ → ℚ) (initialCash : ℚ)
    (fills : List FillApplication) (b : Books) : Prop where
  wellFormed : ∀ d, (b.holding d).WellFormed
  signed : ∀ d, (b.holding d).signed =
    ((fills.filter (fun a => a.deploymentId = d)).map FillApplication.signed).sum
  cash : b.cash accountId = initialCash + (b.journal.map (·.amount)).sum
  value : ∀ (mark : ℕ → ℚ) (D : Finset ℕ), (∀ a ∈ fills, a.deploymentId ∈ D) →
    b.cash accountId + ∑ d ∈ D, (b.holding d).unrealized (mark d) (pointValue d) =
      initialCash - (fills.map (fun a => a.fill.fee)).sum +
        (fills.map (fun a => a.signed * (mark a.deploymentId - a.fill.price) *
          pointValue a.deploymentId)).sum

theorem sum_ledgerEntriesOf (a : FillApplication) (t : PositionTransition) (realized cash : ℚ) :
    ((ledgerEntriesOf a t realized cash).map (·.amount)).sum = realized - a.fill.fee := by
  by_cases hr : realized = 0 <;> by_cases hf : a.fill.fee = 0 <;>
    simp [ledgerEntriesOf, hr, hf, sub_eq_add_neg]

theorem sum_unrealized_update (h : ℕ → Holding) (d : ℕ) (new : Holding) (mark : ℕ → ℚ)
    {D : Finset ℕ} (hd : d ∈ D) :
    ∑ e ∈ D, (Function.update h d new e).unrealized (mark e) (pointValue e) =
      ∑ e ∈ D, (h e).unrealized (mark e) (pointValue e) -
        (h d).unrealized (mark d) (pointValue d) + new.unrealized (mark d) (pointValue d) := by
  rw [← Finset.add_sum_erase D _ hd, ← Finset.add_sum_erase D _ hd]
  have hrest : ∀ e ∈ D.erase d,
      (Function.update h d new e).unrealized (mark e) (pointValue e) =
        (h e).unrealized (mark e) (pointValue e) := by
    intro e he
    rw [Function.update_of_ne (Finset.ne_of_mem_erase he)]
  rw [Finset.sum_congr rfl hrest, Function.update_self]
  ring

theorem Books.Balanced.post {fills : List FillApplication} {b : Books} {a : FillApplication}
    (h : b.Balanced accountId pointValue initialCash fills)
    (ha : a.Valid accountId pointValue) :
    (b.post a).Balanced accountId pointValue initialCash (fills ++ [a]) := by
  obtain ⟨t, ht, hspec⟩ := transitionPosition_spec (h.wellFormed a.deploymentId) a.fill.side
    ha.quantity_pos ha.price_pos
  simp only [Books.post, ht]
  refine ⟨fun d => ?_, fun d => ?_, ?_, fun mark D hD => ?_⟩
  · by_cases hd : d = a.deploymentId
    · subst hd
      simpa using hspec.wellFormed
    · simpa [Function.update_of_ne hd] using h.wellFormed d
  · by_cases hd : d = a.deploymentId
    · subst hd
      have hs : t.holding.signed = (b.holding a.deploymentId).signed + a.signed := hspec.signed
      simpa [List.filter_append, h.signed] using hs
    · have hne : a.deploymentId ≠ d := fun e => hd e.symm
      simpa [Function.update_of_ne hd, List.filter_append, hne] using h.signed d
  · dsimp only
    rw [ha.account, Function.update_self, List.map_append, List.sum_append,
      sum_ledgerEntriesOf, h.cash]
    ring
  · have hfills : ∀ x ∈ fills, x.deploymentId ∈ D := fun x hx => hD x (by simp [hx])
    have hold := h.value mark D hfills
    have hstep := hspec.value (mark a.deploymentId) (pointValue a.deploymentId)
    dsimp only
    rw [sum_unrealized_update _ _ _ _ (hD a (by simp)), ha.account, Function.update_self,
      ha.pointValue]
    simp only [List.map_append, List.map_cons, List.map_nil, List.sum_append, List.sum_cons,
      List.sum_nil, add_zero, FillApplication.signed]
    simp only [FillApplication.signed] at hold
    linear_combination hold + hstep

theorem Books.balanced_foldl_post {b : Books} (calls fills : List FillApplication)
    (h : b.Balanced accountId pointValue initialCash fills)
    (hcalls : ∀ a ∈ calls, a.Valid accountId pointValue) :
    (calls.foldl Books.post b).Balanced accountId pointValue initialCash (fills ++ calls) := by
  induction calls generalizing b fills with
  | nil => simpa using h
  | cons a calls ih =>
    have hstep := ih (fills ++ [a]) (h.post (hcalls a (by simp)))
      (fun x hx => hcalls x (by simp [hx]))
    simpa using hstep

end Posting

/-! ## Runs of `apply_fill` calls -/

/-- One call in a transaction of its own: what a call that raises has written is rolled back. -/
def applyFillStep (db : Database) (a : FillApplication) : Database :=
  match applyFill db a with
  | .ok (db', _) => db'
  | .error _ => db

def returns (db : Database) (a : FillApplication) : Bool := (applyFill db a).isOk

/-- The call returns and its external fill id was new. -/
def inserts (db : Database) (a : FillApplication) : Bool :=
  match applyFill db a with
  | .ok (_, r) => !r.idempotent
  | .error _ => false

/-- The calls of a run that meet a condition in the state they find. -/
def callsWhere (p : Database → FillApplication → Bool) :
    Database → List FillApplication → List FillApplication
  | _, [] => []
  | db, a :: calls =>
    if p db a then a :: callsWhere p (applyFillStep db a) calls
    else callsWhere p (applyFillStep db a) calls

/-- The statuses from which a call may settle its order. -/
def FillApplication.ready (a : FillApplication) (status : ExecutionOrderStatus) : Bool :=
  if a.reconciling then .filled ∈ orderTransitions status else status = .intent

theorem applyFillStep_cases (db : Database) (a : FillApplication) :
    (inserts db a = true ∧ returns db a = true ∧ a.externalKey ∉ db.recordedKeys ∧
      (applyFillStep db a).fills = db.fills ++ [a.row] ∧
      (applyFillStep db a).books = db.books.post a) ∨
    (inserts db a = false ∧ applyFillStep db a = db ∧
      (returns db a = true → a.externalKey ∈ db.recordedKeys)) := by
  cases hcall : applyFill db a with
  | error e => exact .inr (by simp [inserts, applyFillStep, returns, hcall, Except.isOk, Except.toBool])
  | ok result =>
    obtain ⟨db', r⟩ := result
    rcases applyFill_ok hcall with ⟨existing, hfound, hr, rfl⟩ | ⟨hnew, hr, account, t, order, -, -, -,
      -, hdb, -, -⟩
    · refine .inr ⟨by simp [inserts, hcall, hr], by simp [applyFillStep, hcall], fun _ => ?_⟩
      by_contra hkey
      rw [getExecutionFillByExternalId_eq_none.mpr hkey] at hfound
      cases hfound
    · refine .inl ⟨by simp [inserts, hcall, hr], by simp [returns, hcall, Except.isOk, Except.toBool],
        getExecutionFillByExternalId_eq_none.mp hnew, ?_, ?_⟩
      · simp [applyFillStep, hcall, hdb]
      · simpa [applyFillStep, hcall] using applyFill_books hcall hr

/-- What a run has inserted so far, beside the run. -/
structure Recorded (start : Books) (db : Database) (fills : List FillApplication) : Prop where
  rows : db.fills = fills.map FillApplication.row
  nodup : (fills.map FillApplication.externalKey).Nodup
  books : db.books = fills.foldl Books.post start

theorem Recorded.keys {start : Books} {db : Database} {fills : List FillApplication}
    (h : Recorded start db fills) :
    db.recordedKeys = fills.map FillApplication.externalKey := by
  rw [Database.recordedKeys, h.rows, List.map_map]
  rfl

theorem Recorded.run {start : Books} {db : Database} {fills : List FillApplication}
    (h : Recorded start db fills) (calls : List FillApplication) :
    Recorded start (run applyFillStep db calls) (fills ++ callsWhere inserts db calls) ∧
      ∀ a ∈ callsWhere returns db calls,
        a.externalKey ∈ (fills ++ callsWhere inserts db calls).map FillApplication.externalKey := by
  induction calls generalizing db fills with
  | nil => exact ⟨by simpa [callsWhere] using h, by simp [callsWhere]⟩
  | cons a calls ih =>
    rcases applyFillStep_cases db a with ⟨hins, hret, hkey, hfills, hbooks⟩ | ⟨hins, hsame, hdup⟩
    · have hnext : Recorded start (applyFillStep db a) (fills ++ [a]) := by
        refine ⟨?_, ?_, ?_⟩
        · simp [hfills, h.rows]
        · rw [h.keys] at hkey
          rw [List.map_append, List.map_singleton]
          exact List.Nodup.append h.nodup (by simp)
            (List.disjoint_singleton.mpr hkey)
        · simp [hbooks, h.books]
      obtain ⟨hrun, hall⟩ := ih hnext
      simp only [run_cons, callsWhere, hins, hret, if_true]
      rw [List.append_assoc, List.singleton_append] at hrun hall
      refine ⟨hrun, fun x hx => ?_⟩
      rcases List.mem_cons.mp hx with rfl | hx
      · simp
      · exact hall x hx
    · obtain ⟨hrun, hall⟩ := ih h
      simp only [run_cons, callsWhere, hins, hsame, Bool.false_eq_true, if_false]
      refine ⟨hrun, fun x hx => ?_⟩
      by_cases hret : returns db a
      · simp only [hret, if_true, List.mem_cons] at hx
        rcases hx with rfl | hx
        · have := hdup hret
          rw [h.keys] at this
          rw [List.map_append]
          exact List.mem_append_left _ this
        · exact hall x hx
      · simp only [hret, if_false, Bool.false_eq_true] at hx
        exact hall x hx

theorem callsWhere_inserts_sublist (db : Database) (calls : List FillApplication) :
    (callsWhere inserts db calls).Sublist (callsWhere returns db calls) := by
  induction calls generalizing db with
  | nil => exact .refl _
  | cons a calls ih =>
    rcases applyFillStep_cases db a with ⟨hins, hret, -⟩ | ⟨hins, -⟩
    · simpa [callsWhere, hins, hret] using ih _
    · by_cases hret : returns db a
      · simpa [callsWhere, hins, hret] using (ih _).cons a
      · simpa [callsWhere, hins, hret] using ih _

theorem callsWhere_sublist (p : Database → FillApplication → Bool) (db : Database)
    (calls : List FillApplication) : (callsWhere p db calls).Sublist calls := by
  induction calls generalizing db with
  | nil => exact .refl _
  | cons a calls ih =>
    by_cases h : p db a
    · simpa [callsWhere, h] using ih _
    · simpa [callsWhere, h] using (ih _).cons a

private theorem transitionExecutionOrder_of_mem {db : Database} {id : ℕ} {order : ExecutionOrder}
    {target : ExecutionOrderStatus} {u : Database.OrderUpdate}
    (h : db.getExecutionOrder id = some order) (ht : target ∈ orderTransitions order.status) :
    db.transitionExecutionOrder id target u = .ok (db.modifyOrder id (u.apply target)) := by
  simp [Database.transitionExecutionOrder, h, validateOrderTransition, ht, bind, Except.bind, pure,
    Except.pure]

private theorem settleOrder_ne_error {db : Database} {a : FillApplication}
    {order : ExecutionOrder} {e : ExecutionError}
    (h : db.getExecutionOrder a.orderId = some order) (hr : a.ready order.status) :
    settleOrder db a ≠ .error e := by
  suffices hok : ∃ db', settleOrder db a = .ok db' by
    obtain ⟨db', hok⟩ := hok
    simp [hok]
  unfold settleOrder FillApplication.ready at *
  by_cases hrec : a.reconciling
  · simp only [hrec, if_true, decide_eq_true_eq] at hr ⊢
    exact ⟨_, transitionExecutionOrder_of_mem h hr⟩
  · simp only [hrec, if_false, Bool.false_eq_true, decide_eq_true_eq] at hr ⊢
    rw [transitionExecutionOrder_of_mem h (by simp [hr, orderTransitions])]
    have hmid : Database.getExecutionOrder (db.modifyOrder a.orderId
        (Database.OrderUpdate.apply { submittedAt := some a.fill.filledAt } .submitted)) a.orderId =
        some (Database.OrderUpdate.apply { submittedAt := some a.fill.filledAt } .submitted order) := by
      simp only [Database.getExecutionOrder, Database.modifyOrder] at h ⊢
      rw [lookup_modify_self (fun _ => by rfl), h]
      rfl
    exact ⟨_, transitionExecutionOrder_of_mem hmid
      (by simp [Database.OrderUpdate.apply, orderTransitions])⟩

/-- Which calls return: repetitions, and fills for an order that may still be settled. -/
theorem returns_iff {db : Database} {a : FillApplication}
    (haccount : (db.getPaperAccount a.paperAccountId).isSome)
    (hw : (db.holding a.deploymentId).WellFormed) (hq : 0 < a.fill.quantity)
    (hp : 0 < a.fill.price) :
    returns db a = true ↔ a.externalKey ∈ db.recordedKeys ∨
      ∃ order, db.getExecutionOrder a.orderId = some order ∧ a.ready order.status = true := by
  obtain ⟨account, haccount⟩ := Option.isSome_iff_exists.mp haccount
  obtain ⟨t, ht, -⟩ := transitionPosition_spec hw a.fill.side hq hp
  constructor
  · intro hret
    cases hcall : applyFill db a with
    | error e => simp [returns, hcall, Except.isOk, Except.toBool] at hret
    | ok result =>
      rcases applyFill_ok hcall with ⟨existing, hfound, -⟩ | ⟨-, -, _, _, order, -, -, horder, hs, -⟩
      · left
        by_contra hkey
        rw [getExecutionFillByExternalId_eq_none.mpr hkey] at hfound
        cases hfound
      · refine .inr ⟨order, horder, ?_⟩
        unfold FillApplication.ready
        split <;> simp_all
  · intro h
    by_cases hkey : a.externalKey ∈ db.recordedKeys
    · cases hfound : db.getExecutionFillByExternalId a.fill.brokerMode a.fill.externalFillId with
      | none => exact absurd hkey (getExecutionFillByExternalId_eq_none.mp hfound)
      | some existing => simp [returns, applyFill, hfound, haccount, Except.isOk, Except.toBool]
    · have hnew := getExecutionFillByExternalId_eq_none.mpr hkey
      obtain ⟨order, horder, hready⟩ := h.resolve_left hkey
      have haccount' := haccount
      simp only [Database.getPaperAccount] at haccount'
      simp only [returns, applyFill, hnew, ht, Database.createExecutionFill, bind,
        Except.bind, Database.updatePaperCashBalance, Database.getPaperAccount, haccount']
      split
      next e herror =>
        refine absurd herror (settleOrder_ne_error ?_ hready)
        exact horder
      next => rfl

theorem applyFillStep_account (db : Database) (a : FillApplication) (id : ℕ) :
    ((applyFillStep db a).getPaperAccount id).isSome = (db.getPaperAccount id).isSome := by
  unfold applyFillStep
  split
  next db' r hcall =>
    rcases applyFill_ok hcall with ⟨_, _, _, rfl⟩ | ⟨-, -, _, _, _, -, -, -, -, rfl, -, -⟩
    · rfl
    · simp only [Database.getPaperAccount]
      by_cases hid : id = a.paperAccountId
      · subst hid
        rw [lookup_modify_self (fun _ => by rfl), Option.isSome_map]
      · rw [lookup_modify_of_ne (fun _ => by rfl) hid]
  next => rfl

/-- An account with cash on it and nothing booked yet. -/
structure Database.Fresh (db : Database) (accountId : ℕ) : Prop where
  account : (db.getPaperAccount accountId).isSome
  fills : db.fills = []
  positions : db.positions = []
  ledgerEntries : db.ledgerEntries = []

theorem Database.Fresh.balanced {db : Database} {accountId : ℕ} (h : db.Fresh accountId)
    (pointValue : ℕ → ℚ) : db.books.Balanced accountId pointValue (db.cash accountId) [] := by
  have hflat : ∀ d, db.holding d = .flat := by
    intro d
    simp [Database.holding_eq, h.positions, Database.openPosition]
  refine ⟨fun d => ?_, fun d => ?_, ?_, fun mark D _ => ?_⟩
  · simpa [Database.books, hflat] using Holding.WellFormed.flat
  · simp [Database.books, hflat, Holding.signed, Holding.flat]
  · simp [Database.books, h.ledgerEntries]
  · simp [Database.books, hflat, Holding.unrealized, Holding.flat, unrealizedPnl]

/-- Every run of `apply_fill` calls on one account leaves the fold over its distinct fills: the
signed positions add up, cash is the initial cash and the journal, and value is conserved at
every assignment of marks. -/
theorem ledger_conservation (db : Database) (accountId : ℕ) (pointValue : ℕ → ℚ)
    (hdb : db.Fresh accountId) (calls : List FillApplication)
    (hcalls : ∀ a ∈ calls, a.Valid accountId pointValue) :
    let final := run applyFillStep db calls
    let fills := callsWhere inserts db calls
    (fills.Sublist (callsWhere returns db calls) ∧ (fills.map FillApplication.externalKey).Nodup ∧
      (∀ a ∈ callsWhere returns db calls,
        a.externalKey ∈ fills.map FillApplication.externalKey) ∧
      ∀ n (h : n < calls.length), returns (run applyFillStep db (calls.take n)) calls[n] = true ↔
        calls[n].externalKey ∈ (run applyFillStep db (calls.take n)).recordedKeys ∨
          ∃ order, (run applyFillStep db (calls.take n)).getExecutionOrder calls[n].orderId =
            some order ∧ calls[n].ready order.status = true) ∧
    final.fills = fills.map FillApplication.row ∧
    final.books = fills.foldl Books.post db.books ∧
    (∀ d, let net := ((fills.filter (fun a => a.deploymentId = d)).map FillApplication.signed).sum
      (0 < net ∧ (final.holding d).side = .long ∧ (final.holding d).quantity = net) ∨
      (net < 0 ∧ (final.holding d).side = .short ∧ (final.holding d).quantity = -net) ∨
      (net = 0 ∧ final.holding d = .flat)) ∧
    final.cash accountId = db.cash accountId + (final.ledgerEntries.map (·.amount)).sum ∧
    ∀ (mark : ℕ → ℚ) (D : Finset ℕ), (∀ a ∈ fills, a.deploymentId ∈ D) →
      final.cash accountId + ∑ d ∈ D, (final.holding d).unrealized (mark d) (pointValue d) =
        db.cash accountId - (fills.map (fun a => a.fill.fee)).sum +
          (fills.map (fun a => a.signed * (mark a.deploymentId - a.fill.price) *
            pointValue a.deploymentId)).sum := by
  intro final fills
  have hstart : Recorded db.books db [] := ⟨by simp [hdb.fills], by simp, by simp⟩
  have hbalanced : ∀ cs : List FillApplication, (∀ a ∈ cs, a.Valid accountId pointValue) →
      (run applyFillStep db cs).books.Balanced accountId pointValue (db.cash accountId)
        (callsWhere inserts db cs) := by
    intro cs hcs
    obtain ⟨hrec, -⟩ := hstart.run cs
    rw [hrec.books, List.nil_append]
    simpa using Books.balanced_foldl_post (callsWhere inserts db cs) [] (hdb.balanced pointValue)
      (fun a ha => hcs a ((callsWhere_sublist _ _ _).mem ha))
  obtain ⟨hrec, hall⟩ := hstart.run calls
  have hb := hbalanced calls hcalls
  refine ⟨⟨callsWhere_inserts_sublist db calls, hrec.nodup, hall, fun n hn => ?_⟩, hrec.rows,
    hrec.books, fun d => ?_, hb.cash, hb.value⟩
  · have haccount : ((run applyFillStep db (calls.take n)).getPaperAccount accountId).isSome :=
      invariant (fun s : Database => (s.getPaperAccount accountId).isSome) hdb.account
        (fun s a hs => by rwa [applyFillStep_account]) _
    have hvalid := hcalls _ (List.getElem_mem hn)
    have hw := (hbalanced (calls.take n) (fun a ha => hcalls a (List.mem_of_mem_take ha))).wellFormed
    exact returns_iff (by rwa [hvalid.account]) (hw _) hvalid.quantity_pos hvalid.price_pos
  · have hside := (hb.wellFormed d).side_eq
    rw [hb.signed d] at hside
    exact hside

/-- Two deployments on one account with an order for each of the calls below. -/
def sharedAccountDatabase : Database :=
  { accounts := [{ id := 1, initialBalance := 1000, cashBalance := 1000 }]
    orders := [
      { id := 10, deploymentId := 7, decisionId := none, brokerMode := .paper, side := .buy
        quantity := 2, details := { barCloseTime := 60 } },
      { id := 11, deploymentId := 7, decisionId := none, brokerMode := .paper, side := .buy
        quantity := 1, details := { barCloseTime := 120 } },
      { id := 12, deploymentId := 7, decisionId := none, brokerMode := .paper, side := .sell
        quantity := 5, status := .unknown, reconciliationState := .pending
        details := { barCloseTime := 180 } },
      { id := 13, deploymentId := 8, decisionId := none, brokerMode := .paper, side := .sell
        quantity := 1, details := { barCloseTime := 60 } }] }

/-- Open, add, a repeated fill id, a flip by a reconciled fill, and a second deployment. -/
def sharedAccountCalls : List FillApplication :=
  let call (deployment order : ℕ) (side : ExecutionSide) (quantity price : ℚ)
      (reconciling : Bool) : FillApplication :=
    { paperAccountId := 1, deploymentId := deployment, orderId := order, fillId := order
      fill := { brokerMode := .paper, externalFillId := "paper:" ++ toString order, side
                quantity, price, fee := 3, filledAt := 200 }
      pointValue := 10, symbol := "WIN", reconciling, createdAt := 200 }
  [call 7 10 .buy 2 100 false, call 7 11 .buy 1 130 false, call 7 10 .buy 2 100 false,
    call 7 12 .sell 5 120 true, call 8 13 .sell 1 50 false]

theorem ledger_conservation_shared_account :
    callsWhere inserts sharedAccountDatabase sharedAccountCalls =
      sharedAccountCalls.eraseIdx 2 ∧
    (run applyFillStep sharedAccountDatabase sharedAccountCalls).cash 1 =
      sharedAccountDatabase.cash 1 + ((run applyFillStep sharedAccountDatabase
        sharedAccountCalls).ledgerEntries.map (·.amount)).sum ∧
    (run applyFillStep sharedAccountDatabase sharedAccountCalls).holding 7 =
      ⟨.short, 2, some 120⟩ := by
  refine ⟨by decide +kernel, ?_, by decide +kernel⟩
  refine (ledger_conservation sharedAccountDatabase 1 (fun _ => 10) ⟨?_, ?_, ?_, ?_⟩
    sharedAccountCalls ?_).2.2.2.2.1
  · decide
  · rfl
  · rfl
  · rfl
  · intro a ha
    simp only [sharedAccountCalls, List.mem_cons, List.not_mem_nil, or_false] at ha
    rcases ha with rfl | rfl | rfl | rfl | rfl <;>
      exact ⟨rfl, rfl, by decide +kernel, by decide +kernel⟩

end QBackend.Execution
