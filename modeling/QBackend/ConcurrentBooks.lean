import QBackend.ConcurrentSessions
import QBackend.LedgerConservation

/-!
# The books under concurrent transactions

A booking reads the cash of its account, the position of its deployment and the status of its
order, and writes absolute values back. `Booked` is what such a write does; a session whose copies
of the three rows are current books on the database as if it were alone, and every serial booking
keeps the books. A session with an older copy loses what was committed in between.
-/

namespace QBackend.Execution

open KeyedTables FallibleSteps InterleavedCommits

/-! ## What is kept -/

def ExecutionFill.signed (f : ExecutionFill) : ℚ := signedQuantity f.record.side f.record.quantity

/-- The ledger total of an account. -/
def Database.entryTotal (db : Database) (accountId : ℕ) : ℚ :=
  ((db.ledgerEntries.filter (fun e => e.paperAccountId = accountId)).map (·.amount)).sum

def Database.filledTotal (db : Database) (deploymentId : ℕ) : ℚ :=
  ((db.fills.filter (fun f => f.deploymentId = deploymentId)).map ExecutionFill.signed).sum

/-- The books agree with the rows they are summed from. -/
structure Database.InBalance (db : Database) : Prop where
  cash : ∀ account ∈ db.accounts,
    account.cashBalance = account.initialBalance + db.entryTotal account.id
  position : ∀ d, (db.holding d).signed = db.filledTotal d
  fills : ∀ orderId, db.fillCount orderId ≤ 1

/-- The books with what keeps them: an order owns a fill exactly when it is FILLED. -/
structure Database.BooksKept (db : Database) : Prop where
  accountIds : (db.accounts.map PaperAccount.id).Nodup
  orderIds : (db.orders.map ExecutionOrder.id).Nodup
  cash : ∀ account ∈ db.accounts,
    account.cashBalance = account.initialBalance + db.entryTotal account.id
  position : ∀ d, (db.holding d).signed = db.filledTotal d
  fillCount : ∀ o ∈ db.orders, db.fillCount o.id = if o.status = .filled then 1 else 0
  fillOwner : ∀ f ∈ db.fills, ∃ o ∈ db.orders, o.id = f.orderId

theorem Database.BooksKept.inBalance {db : Database} (h : db.BooksKept) : db.InBalance := by
  refine ⟨h.cash, h.position, fun orderId => ?_⟩
  by_cases hid : ∃ o ∈ db.orders, o.id = orderId
  · obtain ⟨o, ho, rfl⟩ := hid
    rw [h.fillCount o ho]
    split <;> simp
  · have hzero : db.fillCount orderId = 0 := by
      rw [Database.fillCount, List.countP_eq_zero]
      intro f hf hfid
      obtain ⟨o, ho, hof⟩ := h.fillOwner f hf
      exact hid ⟨o, ho, hof.trans (by simpa using hfid)⟩
    omega

/-! ## One booking -/

/-- The signed quantity that a transition leaves, read off its two columns. -/
theorem PositionTransition.signed_holding (t : PositionTransition) :
    t.holding.signed = Holding.signed ⟨t.newSide, t.newQuantity, t.newAverageEntryPrice⟩ := by
  unfold PositionTransition.holding
  by_cases h : t.newSide = .flat ∨ t.newQuantity = 0
  · rw [if_pos h]
    rcases h with h | h
    · simp [Holding.signed, Holding.flat, h]
    · cases hs : t.newSide <;> simp [Holding.signed, Holding.flat, h]
  · rw [if_neg h]

theorem signed_transitionPosition {h : Holding} {side : ExecutionSide} {q p : ℚ}
    {t : PositionTransition} (ht : transitionPosition h side q p = .ok t) :
    t.holding.signed = h.signed + signedQuantity side q := by
  obtain ⟨s, Q, e⟩ := h
  rw [PositionTransition.signed_holding]
  unfold transitionPosition at ht
  dsimp only at ht
  split at ht
  next hflat =>
    have hzero : Holding.signed ⟨s, Q, e⟩ = 0 := by
      rcases hflat with rfl | rfl
      · rfl
      · cases s <;> simp [Holding.signed]
    cases ht
    rw [hzero]
    cases side <;> simp [Holding.signed, openingSideOf, signedQuantity]
  next hopen =>
    split at ht
    next hadd =>
      split at ht
      · cases ht
      · cases ht
        cases s <;> cases side <;> simp [isSameSideAdd] at hadd <;>
          simp only [Holding.signed, signedQuantity] <;> ring
    next hadd =>
      split at ht
      · cases ht
      next hred =>
        split at ht
        next hrest =>
          split at ht
          next hclosed =>
            cases ht
            cases s <;> cases side <;> simp [isReducing] at hred <;>
              simp only [Holding.signed, signedQuantity] <;> linarith
          · cases ht
            cases s <;> cases side <;> simp [isReducing] at hred <;>
              simp only [Holding.signed, signedQuantity] <;> linarith
        next hrest =>
          have hmin : min Q q = Q := by
            rcases min_choice Q q with hm | hm
            · exact hm
            · rw [hm, sub_self] at hrest
              exact absurd rfl hrest
          rw [hmin] at ht
          cases ht
          cases s <;> cases side <;> simp [isReducing] at hred <;>
            simp only [Holding.signed, signedQuantity, openingSideOf] <;> linarith

/-- Nothing that the books are summed from is touched. -/
structure UntouchedBooks (db db' : Database) : Prop where
  accounts : db'.accounts = db.accounts
  fills : db'.fills = db.fills
  positions : db'.positions = db.positions
  ledgerEntries : db'.ledgerEntries = db.ledgerEntries

/-- What a write may do to the order it is for and to the books. -/
inductive Booked (rows : BookedRows) (db db' : Database) : Prop where
  /-- Nothing is booked: the order keeps its status, is parked or is refused. -/
  | settled (f : ExecutionOrder → ExecutionOrder) (hbooks : UntouchedBooks db db')
      (horders : db'.orders = modify ExecutionOrder.id db.orders rows.orderId f)
      (hidentity : ∀ o, (f o).identity = o.identity)
      (hstatus : ∀ o, db.getExecutionOrder rows.orderId = some o →
        (f o).status = o.status ∨ (o.status ≠ .filled ∧ (f o).status ≠ .filled))
  /-- A fill is booked on an order that is not filled yet. -/
  | filled (a : FillApplication) (t : PositionTransition) (account : PaperAccount)
      (o : ExecutionOrder) (realized cash : ℚ) (f : ExecutionOrder → ExecutionOrder)
      (hrows : rows = ⟨a.orderId, a.deploymentId, a.paperAccountId⟩)
      (haccount : db.getPaperAccount a.paperAccountId = some account)
      (ht : transitionPosition (db.holding a.deploymentId) a.fill.side a.fill.quantity
        a.fill.price = .ok t)
      (ho : db.getExecutionOrder a.orderId = some o) (hopen : o.status ≠ .filled)
      (hcash : cash = account.cashBalance + realized - a.fill.fee)
      (hfills : db'.fills = db.fills ++ [a.row])
      (hentries : db'.ledgerEntries = db.ledgerEntries ++ ledgerEntriesOf a t realized cash)
      (haccounts : db'.accounts = modify PaperAccount.id db.accounts a.paperAccountId
        (fun c => { c with cashBalance := cash }))
      (hpositions : db'.positions = Database.upsertPositions db.positions a.deploymentId t.newSide
        t.newQuantity t.newAverageEntryPrice a.fill.filledAt)
      (horders : db'.orders = modify ExecutionOrder.id db.orders a.orderId f)
      (hidentity : ∀ o, (f o).identity = o.identity) (hstatus : (f o).status = .filled)

/-! ## Every booking keeps the books -/

section Keeping

variable {rows : BookedRows} {db db' : Database}

theorem entryTotal_append (db : Database) (a : FillApplication) (t : PositionTransition)
    (realized cash : ℚ) (accountId : ℕ)
    (h : db'.ledgerEntries = db.ledgerEntries ++ ledgerEntriesOf a t realized cash) :
    db'.entryTotal accountId = db.entryTotal accountId +
      if a.paperAccountId = accountId then realized - a.fill.fee else 0 := by
  have hnew : ((ledgerEntriesOf a t realized cash).filter
      (fun e => e.paperAccountId = accountId)) =
      if a.paperAccountId = accountId then ledgerEntriesOf a t realized cash else [] := by
    by_cases hid : a.paperAccountId = accountId <;> by_cases hr : realized = 0 <;>
      by_cases hf : a.fill.fee = 0 <;> simp [ledgerEntriesOf, hid, hr, hf]
  rw [Database.entryTotal, h, List.filter_append, hnew, List.map_append, List.sum_append]
  by_cases hid : a.paperAccountId = accountId
  · simp only [hid, if_true, sum_ledgerEntriesOf, Database.entryTotal]
  · simp [hid, Database.entryTotal]

theorem filledTotal_append (db : Database) (a : FillApplication) (d : ℕ)
    (h : db'.fills = db.fills ++ [a.row]) :
    db'.filledTotal d = db.filledTotal d + if a.deploymentId = d then a.signed else 0 := by
  by_cases hd : a.deploymentId = d
  · simp [Database.filledTotal, h, FillApplication.row, hd, ExecutionFill.signed,
      FillApplication.signed]
  · simp [Database.filledTotal, h, FillApplication.row, hd]

theorem fillCount_append (db : Database) (a : FillApplication) (n : ℕ)
    (h : db'.fills = db.fills ++ [a.row]) :
    db'.fillCount n = db.fillCount n + if a.orderId = n then 1 else 0 := by
  by_cases hn : a.orderId = n
  · simp [Database.fillCount, h, FillApplication.row, hn]
  · simp [Database.fillCount, h, FillApplication.row, hn]

theorem holding_of_positions (h : db'.positions = db.positions) (d : ℕ) :
    db'.holding d = db.holding d := by
  rw [Database.holding_eq, Database.holding_eq, h]

theorem Database.BooksKept.settled {f : ExecutionOrder → ExecutionOrder} (h : db.BooksKept)
    (hbooks : UntouchedBooks db db')
    (horders : db'.orders = modify ExecutionOrder.id db.orders rows.orderId f)
    (hidentity : ∀ o, (f o).identity = o.identity)
    (hstatus : ∀ o, db.getExecutionOrder rows.orderId = some o →
      (f o).status = o.status ∨ (o.status ≠ .filled ∧ (f o).status ≠ .filled)) :
    db'.BooksKept := by
  have hrew : Rewritten db rows.orderId f db' := ⟨horders, hidentity⟩
  have hid : ∀ o, (f o).id = o.id := fun o => ExecutionOrder.id_of_identity (hidentity o)
  refine ⟨?_, ?_, ?_, fun d => ?_, ?_, ?_⟩
  · rw [hbooks.accounts]
    exact h.accountIds
  · rw [hrew.map_eq ExecutionOrder.id_of_identity]
    exact h.orderIds
  · simp only [hbooks.accounts, Database.entryTotal, hbooks.ledgerEntries]
    exact h.cash
  · rw [holding_of_positions hbooks.positions, h.position d, Database.filledTotal,
      Database.filledTotal, hbooks.fills]
  · simp only [Database.fillCount, hbooks.fills]
    refine hrew.forall_orders h.fillCount (fun o ho hoid => ?_)
    have hcount := h.fillCount o ho
    have hlookup : db.getExecutionOrder rows.orderId = some o :=
      hoid ▸ lookup_of_mem h.orderIds ho
    rw [hid]
    rcases hstatus o hlookup with hsame | ⟨hnot, hnot'⟩
    · rw [hsame]
      exact hcount
    · rw [if_neg hnot']
      rw [if_neg hnot] at hcount
      exact hcount
  · rw [hbooks.fills]
    exact fun x hx => hrew.exists_id (h.fillOwner x hx)

theorem Database.BooksKept.booked (h : db.BooksKept) (hb : Booked rows db db') :
    db'.BooksKept := by
  cases hb with
  | settled f hbooks horders hidentity hstatus =>
    exact h.settled hbooks horders hidentity hstatus
  | filled a t account o realized cash f hrows haccount ht ho hopen hcash hfills hentries haccounts
      hpositions horders hidentity hstatus =>
    have hrew : Rewritten db a.orderId f db' := ⟨horders, hidentity⟩
    have hid : ∀ o, (f o).id = o.id := fun o => ExecutionOrder.id_of_identity (hidentity o)
    obtain ⟨homem, hoid⟩ := getExecutionOrder_mem ho
    refine ⟨?_, ?_, ?_, fun d => ?_, ?_, ?_⟩
    · have hids : db'.accounts.map PaperAccount.id = db.accounts.map PaperAccount.id := by
        rw [haccounts]
        exact map_modify (fun _ => rfl)
      rw [hids]
      exact h.accountIds
    · rw [hrew.map_eq ExecutionOrder.id_of_identity]
      exact h.orderIds
    · intro x hx
      rw [haccounts, mem_modify_of_lookup h.accountIds haccount] at hx
      rw [entryTotal_append db a t realized cash _ hentries]
      rcases hx with rfl | ⟨hx, hne⟩
      · have hkept := h.cash account (mem_of_lookup haccount)
        have hkey : account.id = a.paperAccountId := key_of_lookup haccount
        simp only [hkey, if_true] at hkept ⊢
        rw [hcash, hkept]
        ring
      · rw [if_neg (fun e => hne e.symm), add_zero]
        exact h.cash x hx
    · have hholding : db'.holding = Function.update db.holding a.deploymentId t.holding := by
        rw [← holding_upsertOpenNetPosition db a.deploymentId t a.fill.filledAt]
        funext e
        exact holding_of_positions hpositions e
      rw [hholding, filledTotal_append db a d hfills]
      by_cases hd : d = a.deploymentId
      · subst hd
        rw [Function.update_self, signed_transitionPosition ht, h.position, if_pos rfl]
        rfl
      · rw [Function.update_of_ne hd, if_neg (fun e => hd e.symm), add_zero, h.position d]
    · intro x hx
      rw [fillCount_append db a _ hfills]
      rcases (hrew.mem_iff h.orderIds ho).mp hx with rfl | ⟨hx, hne⟩
      · have hzero := h.fillCount o homem
        rw [if_neg hopen] at hzero
        rw [hid, hzero, hstatus, hoid]
        simp
      · have hother : ¬ a.orderId = x.id := fun e => hne e.symm
        rw [h.fillCount x hx, if_neg hother, add_zero]
    · rw [hfills]
      intro x hx
      rcases List.mem_append.mp hx with hx | hx
      · exact hrew.exists_id (h.fillOwner x hx)
      · rw [List.mem_singleton.mp hx]
        exact hrew.exists_id ⟨o, homem, hoid⟩

end Keeping

/-! ## Fill commits, passes and resolutions are bookings -/

section Bookings

variable {cfg : ServiceConfig} {rows : BookedRows} {db db₁ db' : Database}

theorem UntouchedBooks.refl (db : Database) : UntouchedBooks db db := ⟨rfl, rfl, rfl, rfl⟩

/-- A booking and a further write that leaves the books and the status of the order alone. -/
theorem Booked.annotated {g : ExecutionOrder → ExecutionOrder} (h : Booked rows db db₁)
    (hbooks : UntouchedBooks db₁ db')
    (horders : db'.orders = modify ExecutionOrder.id db₁.orders rows.orderId g)
    (hidentity : ∀ o, (g o).identity = o.identity) (hstatus : ∀ o, (g o).status = o.status) :
    Booked rows db db' := by
  cases h with
  | settled f hb ho hi hs =>
    have hid : ∀ o, (f o).id = o.id := fun o => ExecutionOrder.id_of_identity (hi o)
    refine .settled (fun o => g (f o)) ⟨?_, ?_, ?_, ?_⟩ ?_ (fun o => (hidentity _).trans (hi o))
      (fun o h => by simpa only [hstatus] using hs o h)
    · rw [hbooks.accounts, hb.accounts]
    · rw [hbooks.fills, hb.fills]
    · rw [hbooks.positions, hb.positions]
    · rw [hbooks.ledgerEntries, hb.ledgerEntries]
    · rw [horders, ho, modify_modify hid]
  | filled a t account o realized cash f hrows haccount ht ho hopen hcash hfills hentries haccounts
      hpositions hos hi hs =>
    have hid : ∀ o, (f o).id = o.id := fun o => ExecutionOrder.id_of_identity (hi o)
    refine .filled a t account o realized cash (fun o => g (f o)) hrows haccount ht ho hopen hcash
      ?_ ?_ ?_ ?_ ?_ (fun o => (hidentity _).trans (hi o)) ((hstatus _).trans hs)
    · rw [hbooks.fills, hfills]
    · rw [hbooks.ledgerEntries, hentries]
    · rw [hbooks.accounts, haccounts]
    · rw [hbooks.positions, hpositions]
    · rw [horders, hos, hrows, modify_modify hid]

theorem Booked.quiet (h : Booked rows db db₁) (hbooks : UntouchedBooks db₁ db')
    (horders : db'.orders = db₁.orders) : Booked rows db db' := by
  refine h.annotated hbooks (g := id) ?_ (fun _ => rfl) (fun _ => rfl)
  simp [horders, KeyedTables.modify]

theorem untouched_updateExecutionDecisionOutcome {id : ℕ} {outcome : DecisionOutcome}
    (h : db.updateExecutionDecisionOutcome id outcome = .ok db') :
    UntouchedBooks db db' ∧ db'.orders = db.orders := by
  unfold Database.updateExecutionDecisionOutcome at h
  split at h
  · cases h
  · cases h
    exact ⟨⟨rfl, rfl, rfl, rfl⟩, rfl⟩

theorem untouched_updateDeploymentLastBarClose {id : ℕ} {t : Time}
    (h : db.updateDeploymentLastBarClose id t = .ok db') :
    UntouchedBooks db db' ∧ db'.orders = db.orders := by
  unfold Database.updateDeploymentLastBarClose at h
  split at h
  · cases h
  · cases h
    exact ⟨⟨rfl, rfl, rfl, rfl⟩, rfl⟩

theorem Booked.concludeDecision {call : BarCall} {decisionId : ℕ} {outcome : DecisionOutcome}
    (h : Booked rows db db₁)
    (hc : Execution.concludeDecision db₁ call decisionId outcome = .ok db') : Booked rows db db' := by
  simp only [Execution.concludeDecision, bind_eq_ok] at hc
  obtain ⟨mid, hmid, hc⟩ := hc
  obtain ⟨hb, ho⟩ := untouched_updateExecutionDecisionOutcome hmid
  obtain ⟨hb', ho'⟩ := untouched_updateDeploymentLastBarClose hc
  exact (h.quiet hb ho).quiet hb' ho'

theorem Booked.recordDecisionOutcome {order : ExecutionOrder} {outcome : DecisionOutcome}
    (h : Booked rows db db₁)
    (hc : Execution.recordDecisionOutcome db₁ order outcome = .ok db') : Booked rows db db' := by
  unfold Execution.recordDecisionOutcome at hc
  split at hc
  · cases hc
    exact h
  · obtain ⟨hb, ho⟩ := untouched_updateExecutionDecisionOutcome hc
    exact h.quiet hb ho

theorem Booked.finalize {reconciledBy : String} {detail : Option String} {at_ : Time}
    (h : Booked rows db db₁)
    (hc : db₁.finalizeOrderReconciliation rows.orderId reconciledBy detail at_ = .ok db') :
    Booked rows db db' := by
  obtain ⟨g, rfl, hg⟩ := finalizeOrderReconciliation_ok hc
  exact h.annotated ⟨rfl, rfl, rfl, rfl⟩ rfl (fun o => (hg o).1) (fun o => (hg o).2.2.1)

theorem booked_applyFill {a : FillApplication} {r : LedgerApplyResult}
    (h : applyFill db a = .ok (db', r)) :
    Booked ⟨a.orderId, a.deploymentId, a.paperAccountId⟩ db db' := by
  rcases applyFill_ok h with ⟨_, -, -, rfl⟩ | ⟨-, -, account, t, o, haccount, ht, ho, hs, hdb, -, hcash⟩
  · refine .settled id (.refl db') ?_ (fun _ => rfl) (fun _ _ => .inl rfl)
    simp [KeyedTables.modify]
  · have hopen : o.status ≠ .filled := by
      intro hfilled
      split at hs
      · simp [hfilled, orderTransitions] at hs
      · simp [hfilled] at hs
    refine .filled a t account o r.realizedPnl r.cashBalance a.settled rfl haccount ht ho hopen hcash
      ?_ ?_ ?_ ?_ ?_ (fun _ => rfl) rfl <;> rw [hdb]

theorem booked_transition {target : ExecutionOrderStatus} {u : Database.OrderUpdate}
    (hne : target ≠ .filled)
    (h : db.transitionExecutionOrder rows.orderId target u = .ok db') : Booked rows db db' := by
  obtain ⟨o, ho, hmem, rfl⟩ := transitionExecutionOrder_ok h
  refine .settled (u.apply target) ⟨rfl, rfl, rfl, rfl⟩ rfl (fun _ => rfl) (fun o' ho' => ?_)
  rw [ho, Option.some.injEq] at ho'
  subst ho'
  refine .inr ⟨fun hfilled => ?_, hne⟩
  simp [hfilled, orderTransitions] at hmem

theorem booked_applyFilledResolution {order : ExecutionOrder} {deployment : ExecutionDeployment}
    {fill : FillRecord} {fillId : ℕ} {reconciledBy : String} {detail : Option String} {at_ : Time}
    (h : applyFilledResolution cfg db order deployment fill fillId reconciledBy detail at_ =
      .ok db') :
    Booked ⟨order.id, deployment.id, deployment.paperAccountId⟩ db db' := by
  simp only [applyFilledResolution, bind_eq_ok] at h
  obtain ⟨⟨db₁, r⟩, h₁, db₂, h₂, h₃⟩ := h
  exact ((booked_applyFill h₁).finalize h₂).recordDecisionOutcome h₃

theorem booked_applyFailedResolution {order : ExecutionOrder} {reconciledBy : String}
    {detail : Option String} {reason : String} {at_ : Time} (horder : order.id = rows.orderId)
    (h : applyFailedResolution db order reconciledBy detail reason at_ = .ok db') :
    Booked rows db db' := by
  simp only [applyFailedResolution, bind_eq_ok, horder] at h
  obtain ⟨db₁, h₁, db₂, h₂, h₃⟩ := h
  exact ((booked_transition (by simp) h₁).finalize h₂).recordDecisionOutcome h₃

theorem booked_recordReconciliationAttempt {at_ : Time} {error : String}
    (h : db.recordReconciliationAttempt rows.orderId at_ error = .ok db') : Booked rows db db' := by
  obtain ⟨f, rfl, hf⟩ := recordReconciliationAttempt_ok h
  exact .settled f ⟨rfl, rfl, rfl, rfl⟩ rfl (fun o => (hf o).1) (fun o _ => .inl (hf o).2.1)

theorem booked_reconcileWrite {broker : ExecutionBroker} {now : Time} {order : ExecutionOrder}
    {fillId : ℕ} {deployment : ExecutionDeployment}
    (h : reconcileWrite cfg broker now order fillId deployment db = .ok db') :
    Booked ⟨order.id, deployment.id, deployment.paperAccountId⟩ db db' := by
  unfold reconcileWrite at h
  cases hcall : reconcileOrder cfg broker now db order deployment fillId with
  | error e =>
    rw [hcall] at h
    cases h
  | ok result =>
    rw [hcall] at h
    cases h
    obtain ⟨db', outcome⟩ := result
    simp only [reconcileOrder, bind_eq_ok] at hcall
    obtain ⟨state, -, hcall⟩ := hcall
    split at hcall
    · split at hcall <;> simp only [bind_eq_ok, pure_eq_ok, Prod.mk.injEq] at hcall <;>
        obtain ⟨db₁, h₁, rfl, -⟩ := hcall
      · exact booked_recordReconciliationAttempt h₁
      · exact booked_applyFilledResolution h₁
    all_goals
      simp only [bind_eq_ok, pure_eq_ok, Prod.mk.injEq] at hcall
      obtain ⟨db₁, h₁, rfl, -⟩ := hcall
    · exact booked_applyFailedResolution rfl h₁
    · exact booked_applyFailedResolution rfl h₁
    · exact booked_recordReconciliationAttempt h₁

theorem booked_resolveWrite {order : ExecutionOrder} {body : OrderResolutionRequest} {fillId : ℕ}
    {now : Time} {deployment : ExecutionDeployment}
    (h : resolveWrite cfg order body fillId now deployment db = .ok db') :
    Booked ⟨order.id, deployment.id, deployment.paperAccountId⟩ db db' := by
  unfold resolveWrite at h
  cases hcall : resolveOrderManually cfg db order deployment body.outcome body.actor body.reason
      (body.fillFor order now) fillId now with
  | error e =>
    rw [hcall] at h
    cases h
  | ok result =>
    rw [hcall] at h
    cases h
    obtain ⟨db', outcome⟩ := result
    simp only [resolveOrderManually, bind_eq_ok] at hcall
    obtain ⟨-, -, hcall⟩ := hcall
    split at hcall
    · split at hcall
      · cases hcall
      · simp only [bind_eq_ok, pure_eq_ok, Prod.mk.injEq] at hcall
        obtain ⟨db₁, h₁, rfl, -⟩ := hcall
        exact booked_applyFilledResolution h₁
    · simp only [bind_eq_ok, pure_eq_ok, Prod.mk.injEq] at hcall
      obtain ⟨db₁, h₁, rfl, -⟩ := hcall
      exact booked_applyFailedResolution rfl h₁

/-- A write that does nothing but book on its rows. -/
def SessionWrite.Booking (w : SessionWrite) : Prop :=
  ∀ db db', w.run db = .ok db' → ∃ rows, w.books = some rows ∧ Booked rows db db'

theorem booking_bookingWrite {loaded : Database} {orderId deploymentId : ℕ}
    {run : ExecutionDeployment → Database → Except ExecutionError Database}
    (h : ∀ deployment db db', run deployment db = .ok db' →
      Booked ⟨orderId, deployment.id, deployment.paperAccountId⟩ db db') :
    (bookingWrite loaded orderId deploymentId run).Booking := by
  intro db db' hrun
  unfold bookingWrite at hrun ⊢
  cases hd : loaded.getExecutionDeployment deploymentId with
  | none =>
    rw [hd] at hrun
    cases hrun
  | some deployment =>
    rw [hd] at hrun
    exact ⟨_, rfl, h deployment db db' hrun⟩

/-- Fill commits, reconciliation passes and resolutions. -/
def Work.IsBooking : Work → Prop
  | .fill .. | .reconcile .. | .resolve .. => True
  | _ => False

theorem Work.booking_writes {work : Work} (h : work.IsBooking) (loaded : Database) :
    ∀ w ∈ work.writes cfg loaded, w.Booking := by
  intro w hw
  cases work <;> simp only [Work.IsBooking] at h
  case fill call decisionId orderId fillId record now =>
    simp only [Work.writes, List.mem_singleton] at hw
    subst hw
    refine booking_bookingWrite (fun deployment db db' hrun => ?_)
    simp only [commitFill, bind_eq_ok] at hrun
    obtain ⟨⟨db₁, r⟩, h₁, hrun⟩ := hrun
    exact (booked_applyFill h₁).concludeDecision hrun
  case reconcile deploymentId broker now nextId =>
    simp only [Work.writes, List.mem_map] at hw
    obtain ⟨⟨order, fillId⟩, -, rfl⟩ := hw
    exact booking_bookingWrite (fun _ _ _ hrun => booked_reconcileWrite hrun)
  case resolve orderId body fillId now =>
    simp only [Work.writes] at hw
    split at hw
    next =>
      rw [List.mem_singleton] at hw
      subst hw
      intro db db' hrun
      cases hrun
    next order horder =>
      rw [List.mem_singleton] at hw
      subst hw
      have hid : order.id = orderId := key_of_lookup horder
      rw [← hid]
      exact booking_bookingWrite (fun _ _ _ hrun => booked_resolveWrite hrun)

end Bookings

/-! ## Booking through a flush -/

section Merges

theorem PaperAccount.merge_self (l s : PaperAccount) : l.merge l s = s := by
  simp [PaperAccount.merge]

theorem ExecutionOrder.merge_self (l s : ExecutionOrder) : l.merge l s = s := by
  simp [ExecutionOrder.merge]

theorem ExecutionNetPosition.merge_self (l s : ExecutionNetPosition) : l.merge l s = s := by
  simp [ExecutionNetPosition.merge]

/-- A current copy of an order is written as the session has it. -/
theorem ExecutionOrder.merge_current {l w : ExecutionOrder} (h : w.identity = l.identity) :
    l.merge w l = w := by
  simp only [ExecutionOrder.identity, Prod.mk.injEq] at h
  cases w
  simp_all [ExecutionOrder.merge]

theorem ExecutionNetPosition.merge_current {l w : ExecutionNetPosition}
    (h : w.deploymentId = l.deploymentId) : l.merge w l = w := by
  cases w
  simp_all [ExecutionNetPosition.merge]

theorem mergeInserts_append {Row : Type} (loaded stored new : List Row) :
    mergeInserts loaded (loaded ++ new) stored = stored ++ new :=
  mergeRows_append (fun _ _ => rfl) new

theorem mergeInserts_self {Row : Type} (loaded stored : List Row) :
    mergeInserts loaded loaded stored = stored :=
  mergeRows_self (fun _ _ => rfl)

end Merges

/-- The session's copies of the rows of a booking are those of the database. -/
structure RowsCurrent (rows : BookedRows) (loaded stored : Database) : Prop where
  order : loaded.getExecutionOrder rows.orderId = stored.getExecutionOrder rows.orderId
  account : loaded.getPaperAccount rows.paperAccountId = stored.getPaperAccount rows.paperAccountId
  position : ∀ (i : ℕ) p, p.deploymentId = rows.deploymentId →
    (loaded.positions[i]? = some p ↔ stored.positions[i]? = some p)

section Through

variable {rows : BookedRows} {loaded written stored : Database}

theorem openPosition_of_rows {positions positions' : List ExecutionNetPosition} {d : ℕ}
    (h : ∀ (i : ℕ) p, p.deploymentId = d → (positions[i]? = some p ↔ positions'[i]? = some p)) :
    Database.openPosition positions' d = Database.openPosition positions d := by
  refine find?_eq_of_rows _ (fun i r hr hp => ?_) (fun i r hr hp => ?_)
  · have hd : r.deploymentId = d := (of_decide_eq_true hp).1
    exact (h i r hd).mp hr
  · have hd : r.deploymentId = d := (of_decide_eq_true hp).1
    exact (h i r hd).mpr hr

theorem modifyOpen_through {positions positions' : List ExecutionNetPosition} {d : ℕ}
    {f : ExecutionNetPosition → ExecutionNetPosition}
    (hf : ∀ p, (f p).deploymentId = p.deploymentId)
    (h : ∀ (i : ℕ) p, p.deploymentId = d → (positions[i]? = some p ↔ positions'[i]? = some p)) :
    mergeRows ExecutionNetPosition.merge positions (Database.modifyOpen positions d f) positions' =
      Database.modifyOpen positions' d f :=
  mergeRows_map (fun p : ExecutionNetPosition => p.deploymentId = d ∧ p.isOpen)
    ExecutionNetPosition.merge_self
    (fun r _ => ExecutionNetPosition.merge_current (hf r)) (fun i r hr hp => (h i r hp.1).mp hr)
    (fun i r hr hp => (h i r hp.1).mpr hr)

theorem upsertPositions_through {positions positions' : List ExecutionNetPosition} {d : ℕ}
    (side : PositionSide) (q : ℚ) (e : Option ℚ) (now : Time)
    (h : ∀ (i : ℕ) p, p.deploymentId = d → (positions[i]? = some p ↔ positions'[i]? = some p)) :
    mergeRows ExecutionNetPosition.merge positions
      (Database.upsertPositions positions d side q e now) positions' =
      Database.upsertPositions positions' d side q e now := by
  unfold Database.upsertPositions
  rw [openPosition_of_rows h]
  by_cases hflat : side = .flat ∨ q = 0
  · simp only [hflat, if_true]
    cases Database.openPosition positions d with
    | none => exact mergeRows_append ExecutionNetPosition.merge_self _
    | some p => exact modifyOpen_through (fun _ => rfl) h
  · simp only [hflat, if_false]
    cases Database.openPosition positions d with
    | none => exact mergeRows_append ExecutionNetPosition.merge_self _
    | some p => exact modifyOpen_through (fun _ => rfl) h

theorem holding_of_rows {d : ℕ} (h : ∀ (i : ℕ) p, p.deploymentId = d →
    (loaded.positions[i]? = some p ↔ stored.positions[i]? = some p)) :
    stored.holding d = loaded.holding d := by
  rw [Database.holding_eq, Database.holding_eq, openPosition_of_rows h]

theorem orders_through {f : ExecutionOrder → ExecutionOrder} {id : ℕ} {o : ExecutionOrder}
    (hidentity : ∀ o, (f o).identity = o.identity)
    (hids : (stored.orders.map ExecutionOrder.id).Nodup)
    (hloaded : loaded.getExecutionOrder id = some o) (hstored : stored.getExecutionOrder id = some o) :
    mergeKeyed ExecutionOrder.id ExecutionOrder.merge loaded.orders
      (modify ExecutionOrder.id loaded.orders id f) stored.orders =
      modify ExecutionOrder.id stored.orders id f :=
  mergeKeyed_modify_current ExecutionOrder.merge_self
    (fun o => ExecutionOrder.id_of_identity (hidentity o)) hids hloaded hstored
    (ExecutionOrder.merge_current (hidentity o))

theorem untouched_through (h : UntouchedBooks loaded written) :
    UntouchedBooks stored (Database.mergeTables loaded written stored) := by
  refine ⟨?_, ?_, ?_, ?_⟩
  · rw [Database.mergeTables, h.accounts]
    exact mergeKeyed_self PaperAccount.merge_self
  · rw [Database.mergeTables, h.fills]
    exact mergeInserts_self _ _
  · rw [Database.mergeTables, h.positions]
    exact mergeRows_self ExecutionNetPosition.merge_self
  · rw [Database.mergeTables, h.ledgerEntries]
    exact mergeInserts_self _ _

theorem Booked.through (h : Booked rows loaded written) (hrows : RowsCurrent rows loaded stored)
    (hkept : stored.BooksKept) :
    Booked rows stored (Database.mergeTables loaded written stored) := by
  cases h with
  | settled f hbooks horders hidentity hstatus =>
    cases ho : loaded.getExecutionOrder rows.orderId with
    | none =>
      -- the order is in neither, so nothing is written
      refine .settled id (untouched_through hbooks) ?_ (fun _ => rfl) (fun _ _ => .inl rfl)
      have hsame : written.orders = loaded.orders := horders.trans (modify_of_lookup_none ho)
      rw [Database.mergeTables, hsame]
      refine (mergeKeyed_self ExecutionOrder.merge_self).trans ?_
      simp [KeyedTables.modify]
    | some o =>
      have ho' : stored.getExecutionOrder rows.orderId = some o := hrows.order ▸ ho
      refine .settled f (untouched_through hbooks) ?_ hidentity (fun x hx => ?_)
      · rw [Database.mergeTables, horders]
        exact orders_through hidentity hkept.orderIds ho ho'
      · rw [ho', Option.some.injEq] at hx
        exact hx ▸ hstatus o ho
  | filled a t account o realized cash f hr haccount ht ho hopen hcash hfills hentries haccounts
      hpositions horders hidentity hstatus =>
    subst hr
    have ho' : stored.getExecutionOrder a.orderId = some o := hrows.order ▸ ho
    have haccount' : stored.getPaperAccount a.paperAccountId = some account :=
      hrows.account ▸ haccount
    have hholding := holding_of_rows hrows.position
    refine .filled a t account o realized cash f rfl haccount' (by rw [hholding]; exact ht) ho'
      hopen hcash ?_ ?_ ?_ ?_ ?_ hidentity hstatus
    · rw [Database.mergeTables, hfills]
      exact mergeInserts_append _ _ _
    · rw [Database.mergeTables, hentries]
      exact mergeInserts_append _ _ _
    · rw [Database.mergeTables, haccounts]
      exact mergeKeyed_modify_current PaperAccount.merge_self (fun _ => rfl) hkept.accountIds
        haccount haccount' (by simp [PaperAccount.merge])
    · rw [Database.mergeTables, hpositions]
      exact upsertPositions_through _ _ _ _ hrows.position
    · rw [Database.mergeTables, horders]
      exact orders_through hidentity hkept.orderIds ho ho'

end Through

/-! ## Runs -/

/-- The condition on a write: its session's copies of the rows it books on are current. -/
def CurrentWrite (w : SessionWrite) (loaded stored : Database) : Prop :=
  ∀ rows, w.books = some rows → RowsCurrent rows loaded stored

/-- Every write of the works finds its session's copies current. -/
def CurrentWorks (cfg : ServiceConfig) : List Work → Database → Database → Prop
  | [], _, _ => True
  | work :: works, loaded, stored =>
    Along SessionWrite.run Database.flush CurrentWrite (work.writes cfg loaded) loaded stored ∧
      ∀ loaded' stored', writeThrough SessionWrite.run Database.flush (work.writes cfg loaded)
        loaded stored = .ok (loaded', stored') → CurrentWorks cfg works loaded' stored'

/-- A commit of fills, passes and resolutions. -/
def IsBookingCommit (c : Commit Database Transaction) : Prop :=
  ∀ work ∈ c.transaction.works, work.IsBooking

/-- No other transaction has committed a change of a row between the moment at which the session
read it and the moment at which it books on it. -/
def CommitsCurrent (c : Commit Database Transaction) : Prop :=
  CurrentWorks c.transaction.config c.transaction.works c.loaded c.before

theorem booksKept_writeThrough {ws : List SessionWrite} {loaded stored loaded' stored' : Database}
    (hbooking : ∀ w ∈ ws, w.Booking)
    (hcurrent : Along SessionWrite.run Database.flush CurrentWrite ws loaded stored)
    (h : writeThrough SessionWrite.run Database.flush ws loaded stored = .ok (loaded', stored'))
    (hkept : stored.BooksKept) : stored'.BooksKept := by
  refine writeThrough_invariant Database.BooksKept ?_ hcurrent h hkept
  intro w hw loaded stored written next hcurrent hwritten hnext hkept
  obtain ⟨rows, hrows, hbooked⟩ := hbooking w hw loaded written hwritten
  have hthrough := hbooked.through (hcurrent rows hrows) hkept
  rw [(flush_eq_ok hnext).1]
  exact hkept.booked hthrough

theorem booksKept_runWorks {cfg : ServiceConfig} {works : List Work}
    {loaded stored loaded' stored' : Database} (hbooking : ∀ work ∈ works, work.IsBooking)
    (hcurrent : CurrentWorks cfg works loaded stored)
    (h : runWorks cfg works loaded stored = .ok (loaded', stored')) (hkept : stored.BooksKept) :
    stored'.BooksKept := by
  induction works generalizing loaded stored with
  | nil =>
    cases h
    exact hkept
  | cons work works ih =>
    simp only [runWorks, bind_eq_ok] at h
    obtain ⟨⟨l, s⟩, hwrites, h⟩ := h
    have hkept' : s.BooksKept :=
      booksKept_writeThrough (Work.booking_writes (hbooking work (by simp)) loaded) hcurrent.1
        hwrites hkept
    exact ih (fun x hx => hbooking x (by simp [hx])) (hcurrent.2 l s hwrites) h hkept'

/-- Concurrent fill commits, reconciliation passes and resolutions keep the books in every
committed state of every run in which no session books on an outdated copy of its rows. -/
theorem concurrent_bookings_balance (start final : Database)
    (commits : List (Commit Database Transaction)) (hstart : start.BooksKept)
    (hrun : ConcurrentRun start commits final) (hbooking : ∀ c ∈ commits, IsBookingCommit c)
    (hcurrent : ∀ c ∈ commits, CommitsCurrent c) :
    ∀ db ∈ start :: commits.map Commit.after, db.InBalance := by
  have hkept := hrun.invariant Database.BooksKept hstart (fun c hc hexecute hbefore => by
    unfold Transaction.execute at hexecute
    cases hworks : runWorks c.transaction.config c.transaction.works c.loaded c.before with
    | error e =>
      rw [hworks] at hexecute
      cases hexecute
    | ok result =>
      rw [hworks] at hexecute
      have hafter : result.2 = c.after := Except.ok.inj hexecute
      rw [← hafter]
      exact booksKept_runWorks (hbooking c hc) (hcurrent c hc) hworks hbefore)
  exact fun db hdb => (hkept.2 db hdb).inBalance

/-- A transaction that finds the given rows, with what it leaves. -/
def Transaction.commitOn (t : Transaction) (loaded before : Database) : Commit Database Transaction :=
  { transaction := t, loaded, before, after := (t.execute loaded before).toOption.getD before }

theorem Transaction.execute_commitOn {t : Transaction} {loaded before : Database}
    (h : (t.execute loaded before).toOption.isSome = true) :
    t.execute loaded before = .ok (t.commitOn loaded before).after := by
  obtain ⟨after, hafter⟩ := exists_ok_of_isSome h
  rw [Transaction.commitOn, hafter]
  rfl

/-- A single write of a session that has just read the database. -/
theorem commitsCurrent_of_single (cfg : ServiceConfig) (work : Work) (db : Database)
    (h : (work.writes cfg db).length ≤ 1) :
    CommitsCurrent (({ config := cfg, works := [work] } : Transaction).commitOn db db) := by
  refine ⟨?_, fun _ _ _ => trivial⟩
  show Along SessionWrite.run Database.flush CurrentWrite (work.writes cfg db) db db
  cases hw : work.writes cfg db with
  | nil => trivial
  | cons w ws =>
    have hnil : ws = [] := by
      rw [hw, List.length_cons] at h
      exact List.length_eq_zero_iff.mp (by omega)
    rw [hnil]
    exact ⟨fun rows _ => ⟨rfl, rfl, fun _ _ _ => Iff.rfl⟩, fun _ _ _ _ => trivial⟩

/-- Two deployments of one account, the first one long by one fill, each with an order of unknown
outcome. -/
def unknownOrderStart : Database :=
  { accounts := [{ id := 1, initialBalance := 1000, cashBalance := 1000 }]
    deployments := [{ id := 7, paperAccountId := 1, brokerMode := .mt5Live, symbol := "WIN"
                      timeframe := "M1" },
                    { id := 8, paperAccountId := 1, brokerMode := .mt5Live, symbol := "WDO"
                      timeframe := "M1" }]
    orders := [
      { id := 10, deploymentId := 7, decisionId := none, brokerMode := .mt5Live, side := .buy
        quantity := 1, status := .filled, details := { barCloseTime := 60 } },
      { id := 12, deploymentId := 7, decisionId := none, brokerMode := .mt5Live, side := .buy
        quantity := 2, status := .unknown, reconciliationState := .pending
        details := { barCloseTime := 120 } },
      { id := 13, deploymentId := 8, decisionId := none, brokerMode := .mt5Live, side := .sell
        quantity := 1, status := .unknown, reconciliationState := .pending
        details := { barCloseTime := 120 } }]
    fills := [
      { id := 30, deploymentId := 7, orderId := 10, createdAt := 60
        record := { brokerMode := .mt5Live, externalFillId := "70", side := .buy, quantity := 1
                    price := 100, filledAt := 60 } }]
    positions := [
      { deploymentId := 7, side := .long, quantity := 1, averageEntryPrice := some 100
        isOpen := true, openedAt := some 60 }] }

/-- The pass of a worker whose broker reports the fill of the unknown order. -/
def reportedFillPass : Transaction where
  config := {}
  works := [.reconcile (some 7)
    { submitMarketOrder := fun _ _ => .error (.external "not asked")
      lookupOrder := fun _ => .ok
        { status := .filled
          fill := some { brokerMode := .mt5Live, externalFillId := "71", side := .buy, quantity := 2
                         price := 100, fee := 3, filledAt := 120 } } } 200 31]

/-- An operator who asserts that an order was filled. -/
def assertedFill (orderId fillId : ℕ) : Transaction where
  config := {}
  works := [.resolve orderId
    { outcome := .filled, actor := "operator", reason := "seen at the broker", price := some 100
      fee := some 3 } fillId 201]

theorem booksKept_unknownOrderStart : unknownOrderStart.BooksKept := by
  refine ⟨by decide, by decide, by decide +kernel, fun d => ?_, by decide +kernel,
    by decide +kernel⟩
  by_cases hd : d = 7
  · subst hd
    decide +kernel
  · have hd' : (7 : ℕ) ≠ d := fun e => hd e.symm
    simp [Database.holding, Database.getOpenNetPosition, Database.openPosition, unknownOrderStart,
      Database.filledTotal, hd', Holding.flat, Holding.signed]

/-- The request was read before the pass committed: the fee of the pass is lost, the position
misses a fill, and the order owns two. -/
theorem overlapping_resolutions_break_books :
    ∃ commits final, ConcurrentRun unknownOrderStart commits final ∧
      unknownOrderStart.BooksKept ∧ (∀ c ∈ commits, IsBookingCommit c) ∧
      (∃ account ∈ final.accounts,
        account.cashBalance ≠ account.initialBalance + final.entryTotal account.id) ∧
      (final.holding 7).signed ≠ final.filledTotal 7 ∧ final.fillCount 12 = 2 := by
  let first := reportedFillPass.commitOn unknownOrderStart unknownOrderStart
  let second := (assertedFill 12 32).commitOn unknownOrderStart first.after
  have hfirst : ConcurrentRun unknownOrderStart ([] ++ [first]) first.after :=
    .commit first .start rfl (readCommitted_of_mem (by simp [first, Transaction.commitOn]))
      (Transaction.execute_commitOn (by decide +kernel))
  have hsecond : ConcurrentRun unknownOrderStart ([first] ++ [second]) second.after :=
    .commit second hfirst rfl (readCommitted_of_mem (by simp [second, Transaction.commitOn]))
      (Transaction.execute_commitOn (by decide +kernel))
  refine ⟨_, _, hsecond, booksKept_unknownOrderStart, ?_, ?_, ?_, ?_⟩
  · intro c hc work hwork
    simp only [List.cons_append, List.nil_append, List.mem_cons, List.not_mem_nil, or_false] at hc
    rcases hc with rfl | rfl
    · have hpass := List.mem_singleton.mp hwork
      rw [hpass]
      trivial
    · have hresolve := List.mem_singleton.mp hwork
      rw [hresolve]
      trivial
  · decide +kernel
  · decide +kernel
  · decide +kernel

/-- A request that is read after the commit of the pass books on the new balance. -/
theorem consecutive_bookings_balance :
    ((assertedFill 13 32).commitOn
      (reportedFillPass.commitOn unknownOrderStart unknownOrderStart).after
      (reportedFillPass.commitOn unknownOrderStart unknownOrderStart).after).after.InBalance := by
  let first := reportedFillPass.commitOn unknownOrderStart unknownOrderStart
  let second := (assertedFill 13 32).commitOn first.after first.after
  have hfirst : ConcurrentRun unknownOrderStart ([] ++ [first]) first.after :=
    .commit first .start rfl
      (readCommitted_of_mem (by simp [first, Transaction.commitOn]))
      (Transaction.execute_commitOn (by decide +kernel))
  have hsecond : ConcurrentRun unknownOrderStart ([first] ++ [second]) second.after :=
    .commit second hfirst rfl
      (readCommitted_of_mem (by simp [second, Transaction.commitOn]))
      (Transaction.execute_commitOn (by decide +kernel))
  refine concurrent_bookings_balance unknownOrderStart second.after [first, second]
    booksKept_unknownOrderStart hsecond ?_ ?_ second.after (by simp)
  · simp [IsBookingCommit, first, second, Transaction.commitOn, reportedFillPass, assertedFill,
      Work.IsBooking]
  · intro c hc
    simp only [List.mem_cons, List.not_mem_nil, or_false] at hc
    rcases hc with rfl | rfl
    · exact commitsCurrent_of_single _ _ _ (by decide +kernel)
    · exact commitsCurrent_of_single _ _ _ (by decide +kernel)

end QBackend.Execution
