import QBackend.LedgerBooks
import QBackend.OrderReconciliation
import Mathlib.Logic.Relation

/-!
# What the execution code writes

Between two commits every part of the execution code writes the order table in one of five
ways: not at all, an annotation of one order, a new intent together with its decision, a new
status for an open order, or a fill. `Write` says what each of them may change; the lemmas
below it say which of them the functions of the service, of recovery and of the reconciler are.
-/

namespace QBackend.Execution

open KeyedTables FallibleSteps

/-! ## The five kinds of writes -/

/-- The bar an order was decided on. -/
def ExecutionOrder.barKey (o : ExecutionOrder) : ℕ × Time := (o.deploymentId, o.details.barCloseTime)

/-- The columns of an order that are never rewritten. -/
def ExecutionOrder.identity (o : ExecutionOrder) :
    ℕ × ℕ × Option ℕ × BrokerMode × ExecutionSide × ℚ × OrderDetails :=
  (o.id, o.deploymentId, o.decisionId, o.brokerMode, o.side, o.quantity, o.details)

/-- An order is UNKNOWN exactly while it is waiting for reconciliation. -/
def ExecutionOrder.Consistent (o : ExecutionOrder) : Prop :=
  o.status = .unknown ↔ o.reconciliationState = .pending

def Database.decisionKeys (db : Database) : List (ℕ × Time) :=
  db.decisions.map (fun d => (d.deploymentId, d.barCloseTime))

/-- The account and the symbol of each deployment, which no execution code rewrites. -/
def Database.accountView (db : Database) (deploymentId : ℕ) : Option (ℕ × String) :=
  (db.getExecutionDeployment deploymentId).map (fun d => (d.paperAccountId, d.symbol))

/-- The deployments with their timeframes, which no execution code rewrites either. -/
def Database.timeframes (db : Database) : List (ℕ × String) :=
  db.deployments.map (fun d => (d.id, d.timeframe))

/-- Decisions are never withdrawn and never made twice, and a deployment keeps its account, its
symbol and its timeframe. -/
structure Grown (db db' : Database) : Prop where
  accountView : db'.accountView = db.accountView
  timeframes : db'.timeframes = db.timeframes
  decisionKeys : ∀ k ∈ db.decisionKeys, k ∈ db'.decisionKeys
  distinct : db.decisionKeys.Nodup → db'.decisionKeys.Nodup

/-- Nothing is booked. -/
structure Unbooked (db db' : Database) : Prop extends Grown db db' where
  fills : db'.fills = db.fills
  books : db'.books = db.books
  positions : db'.positions = db.positions

/-- Neither orders nor books are touched. -/
structure Frame (db db' : Database) : Prop extends Unbooked db db' where
  orders : db'.orders = db.orders

/-- One row of the order table was rewritten, identity apart. -/
structure Rewritten (db : Database) (id : ℕ) (f : ExecutionOrder → ExecutionOrder)
    (db' : Database) : Prop where
  orders : db'.orders = modify ExecutionOrder.id db.orders id f
  identity : ∀ o, (f o).identity = o.identity

/-- A new intent, committed with its decision, for a deployment without an unknown order. -/
structure IntentWrite (db : Database) (o : ExecutionOrder) (db' : Database) : Prop
    extends Unbooked db db' where
  fresh : o.barKey ∉ db.decisionKeys
  recorded : o.barKey ∈ db'.decisionKeys
  status : o.status = .intent
  reconciliationState : o.reconciliationState = .notApplicable
  orders : db'.orders = db.orders ++ [o]
  gate : ∀ x ∈ db.orders, x.deploymentId = o.deploymentId → x.status ≠ .unknown

/-- An open order is parked or refused. -/
structure SettleWrite (db : Database) (id : ℕ) (db' : Database) : Prop
    extends Unbooked db db' where
  change : ∃ o f, db.getExecutionOrder id = some o ∧ ¬ o.status.IsTerminal ∧
    Rewritten db id f db' ∧ ((f o).status = .unknown ∨ (f o).status = .rejected) ∧
    (o.Consistent → (f o).Consistent)

/-- An open order is filled by a fill whose external id is new. -/
structure FillWrite (pointValue : ℚ) (db : Database) (a : FillApplication) (db' : Database) : Prop
    extends Grown db db' where
  newKey : a.externalKey ∉ db.recordedKeys
  fills : db'.fills = db.fills ++ [a.row]
  books : db'.books = db.books.post a
  positions : ∃ t, transitionPosition (db.holding a.deploymentId) a.fill.side a.fill.quantity
      a.fill.price = .ok t ∧
    db'.positions = Database.upsertPositions db.positions a.deploymentId t.newSide t.newQuantity
      t.newAverageEntryPrice a.fill.filledAt
  account : db.accountView a.deploymentId = some (a.paperAccountId, a.symbol)
  pointValue : a.pointValue = pointValue
  change : ∃ o f, db.getExecutionOrder a.orderId = some o ∧ ¬ o.status.IsTerminal ∧
    Rewritten db a.orderId f db' ∧ (f o).status = .filled ∧ (o.Consistent → (f o).Consistent)

/-- One write; a new order's identifier is above all others and below `bound`, a fill is
`allowed`. -/
inductive Write (allowed : FillApplication → Prop) (pointValue : ℚ) (bound : ℕ) (db : Database) :
    Database → Prop where
  | frame {db'} (h : Frame db db') : Write allowed pointValue bound db db'
  | annotate {db'} (id : ℕ) (f : ExecutionOrder → ExecutionOrder) (h : Unbooked db db')
      (hf : Rewritten db id f db')
      (hkeep : ∀ o, (f o).status = o.status ∧ (f o).reconciliationState = o.reconciliationState) :
      Write allowed pointValue bound db db'
  | intent {db'} (o : ExecutionOrder) (habove : ∀ x ∈ db.orders, x.id < o.id)
      (hbelow : o.id < bound) (h : IntentWrite db o db') : Write allowed pointValue bound db db'
  | settle {db'} (id : ℕ) (h : SettleWrite db id db') : Write allowed pointValue bound db db'
  | fill {db'} (a : FillApplication) (ha : allowed a) (h : FillWrite pointValue db a db') :
      Write allowed pointValue bound db db'

/-- Any number of writes, one after another. -/
abbrev Writes (allowed : FillApplication → Prop) (pointValue : ℚ) (bound : ℕ) :
    Database → Database → Prop :=
  Relation.ReflTransGen (Write allowed pointValue bound)

theorem Write.mono {allowed : FillApplication → Prop} {pointValue : ℚ} {bound bound' : ℕ}
    {db db' : Database} (h : Write allowed pointValue bound db db') (hb : bound ≤ bound') :
    Write allowed pointValue bound' db db' := by
  cases h with
  | frame h => exact .frame h
  | annotate id f h hf hkeep => exact .annotate id f h hf hkeep
  | intent o habove hbelow h => exact .intent o habove (hbelow.trans_le hb) h
  | settle id h => exact .settle id h
  | fill a ha h => exact .fill a ha h

theorem Writes.mono {allowed : FillApplication → Prop} {pointValue : ℚ} {bound bound' : ℕ}
    {db db' : Database} (h : Writes allowed pointValue bound db db') (hb : bound ≤ bound') :
    Writes allowed pointValue bound' db db' :=
  Relation.ReflTransGen.mono (fun _ _ (hw : Write allowed pointValue bound _ _) => hw.mono hb) _ _ h

/-! ## Frames -/

/-- A write that touches neither deployments nor the keys of decisions. -/
theorem Grown.of_eq {db db' : Database} (hdeployments : db'.deployments = db.deployments)
    (hkeys : db'.decisionKeys = db.decisionKeys) : Grown db db' := by
  refine ⟨?_, ?_, fun k hk => hkeys ▸ hk, fun h => hkeys ▸ h⟩
  · funext d
    simp only [Database.accountView, Database.getExecutionDeployment, hdeployments]
  · rw [Database.timeframes, hdeployments, Database.timeframes]

theorem Grown.refl (db : Database) : Grown db db := .of_eq rfl rfl

theorem Grown.trans {db₁ db₂ db₃ : Database} (h : Grown db₁ db₂) (h' : Grown db₂ db₃) :
    Grown db₁ db₃ :=
  ⟨h'.accountView.trans h.accountView, h'.timeframes.trans h.timeframes,
    fun k hk => h'.decisionKeys k (h.decisionKeys k hk), fun hd => h'.distinct (h.distinct hd)⟩

theorem Grown.decision {db : Database} {decision : ExecutionDecision}
    (hnew : (decision.deploymentId, decision.barCloseTime) ∉ db.decisionKeys) :
    Grown db { db with decisions := db.decisions ++ [decision] } := by
  refine ⟨rfl, rfl, fun k hk => ?_, fun hd => ?_⟩
  · simp only [Database.decisionKeys, List.map_append, List.mem_append]
    exact .inl hk
  · simp only [Database.decisionKeys, List.map_append, List.map_singleton]
    exact List.Nodup.append hd (by simp) (List.disjoint_singleton.mpr hnew)

theorem Unbooked.trans {db₁ db₂ db₃ : Database} (h : Unbooked db₁ db₂) (h' : Unbooked db₂ db₃) :
    Unbooked db₁ db₃ :=
  ⟨h.toGrown.trans h'.toGrown, h'.fills.trans h.fills, h'.books.trans h.books,
    h'.positions.trans h.positions⟩

theorem Frame.refl (db : Database) : Frame db db := ⟨⟨.refl db, rfl, rfl, rfl⟩, rfl⟩

theorem Frame.trans {db₁ db₂ db₃ : Database} (h : Frame db₁ db₂) (h' : Frame db₂ db₃) :
    Frame db₁ db₃ :=
  ⟨h.toUnbooked.trans h'.toUnbooked, h'.orders.trans h.orders⟩

theorem frame_modifyDeployment (db : Database) (id : ℕ)
    {f : ExecutionDeployment → ExecutionDeployment} (hid : ∀ d, (f d).id = d.id)
    (hf : ∀ d, ((f d).paperAccountId, (f d).symbol) = (d.paperAccountId, d.symbol))
    (ht : ∀ d, (f d).timeframe = d.timeframe) :
    Frame db { db with deployments := modify ExecutionDeployment.id db.deployments id f } := by
  refine ⟨⟨⟨funext fun d => ?_, ?_, fun _ h => h, fun h => h⟩, rfl, rfl, rfl⟩, rfl⟩
  · exact map_lookup_modify (g := fun d : ExecutionDeployment => (d.paperAccountId, d.symbol)) hid hf d
  · exact map_modify (fun d => by rw [hid, ht])

theorem frame_updateDeploymentLastBarClose {db db' : Database} {id : ℕ} {t : Time}
    (h : db.updateDeploymentLastBarClose id t = .ok db') : Frame db db' := by
  unfold Database.updateDeploymentLastBarClose at h
  split at h
  · cases h
  · cases h
    exact frame_modifyDeployment db id (fun _ => rfl) (fun _ => rfl) (fun _ => rfl)

theorem frame_updateExecutionDecisionOutcome {db db' : Database} {id : ℕ}
    {outcome : DecisionOutcome} (h : db.updateExecutionDecisionOutcome id outcome = .ok db') :
    Frame db db' := by
  unfold Database.updateExecutionDecisionOutcome at h
  split at h
  · cases h
  · cases h
    refine ⟨⟨.of_eq rfl ?_, rfl, rfl, rfl⟩, rfl⟩
    exact map_modify (fun _ => rfl)

theorem getDecisionForBar_eq_none {db : Database} {d : ℕ} {t : Time} :
    db.getDecisionForBar d t = none ↔ (d, t) ∉ db.decisionKeys := by
  simp only [Database.getDecisionForBar, List.find?_eq_none, decide_eq_true_eq,
    Database.decisionKeys, List.mem_map, Prod.mk.injEq, not_exists, not_and]

theorem frame_createExecutionDecision {db db' : Database} {decision : ExecutionDecision}
    (h : db.createExecutionDecision decision = .ok db') :
    Frame db db' ∧ (decision.deploymentId, decision.barCloseTime) ∉ db.decisionKeys ∧
      db' = { db with decisions := db.decisions ++ [decision] } := by
  unfold Database.createExecutionDecision at h
  split at h
  · cases h
  next hnone =>
    cases h
    have hnew := getDecisionForBar_eq_none.mp hnone
    exact ⟨⟨⟨.decision hnew, rfl, rfl, rfl⟩, rfl⟩, hnew, rfl⟩

theorem frame_recordRiskEvent (db : Database) (event : ExecutionRiskEvent) :
    Frame db (db.recordRiskEvent event) :=
  ⟨⟨.of_eq rfl rfl, rfl, rfl, rfl⟩, rfl⟩

theorem frame_concludeDecision {db db' : Database} {call : BarCall} {decisionId : ℕ}
    {outcome : DecisionOutcome} (h : concludeDecision db call decisionId outcome = .ok db') :
    Frame db db' := by
  simp only [concludeDecision, bind_eq_ok] at h
  obtain ⟨mid, hmid, h⟩ := h
  exact (frame_updateExecutionDecisionOutcome hmid).trans (frame_updateDeploymentLastBarClose h)

theorem frame_recordDecisionOutcome {db db' : Database} {order : ExecutionOrder}
    {outcome : DecisionOutcome} (h : recordDecisionOutcome db order outcome = .ok db') :
    Frame db db' := by
  unfold recordDecisionOutcome at h
  split at h
  · cases h
    exact .refl db
  · exact frame_updateExecutionDecisionOutcome h

/-! ## Rewriting one order -/

theorem not_isTerminal_of_mem {s t : ExecutionOrderStatus} (h : t ∈ orderTransitions s) :
    ¬ s.IsTerminal := by
  intro hs
  rw [(orderTransitions_eq_nil s).mpr hs] at h
  cases h

theorem unbooked_modifyOrder (db : Database) (id : ℕ) (f : ExecutionOrder → ExecutionOrder) :
    Unbooked db (db.modifyOrder id f) :=
  ⟨.of_eq rfl rfl, rfl, rfl, rfl⟩

theorem SettleWrite.trans_frame {db db₁ db₂ : Database} {id : ℕ} (h : SettleWrite db id db₁)
    (hf : Frame db₁ db₂) : SettleWrite db id db₂ := by
  obtain ⟨o, f, ho, hopen, hrew, hstatus, hcons⟩ := h.change
  exact ⟨h.toUnbooked.trans hf.toUnbooked, o, f, ho, hopen,
    ⟨hf.orders.trans hrew.orders, hrew.identity⟩, hstatus, hcons⟩

theorem FillWrite.trans_frame {pv : ℚ} {db db₁ db₂ : Database} {a : FillApplication}
    (h : FillWrite pv db a db₁) (hf : Frame db₁ db₂) : FillWrite pv db a db₂ := by
  obtain ⟨o, f, ho, hopen, hrew, hstatus, hcons⟩ := h.change
  obtain ⟨t, ht, hpositions⟩ := h.positions
  exact ⟨h.toGrown.trans hf.toGrown, h.newKey, hf.fills.trans h.fills, hf.books.trans h.books,
    ⟨t, ht, hf.positions.trans hpositions⟩, h.account, h.pointValue, o, f, ho, hopen, ⟨hf.orders.trans hrew.orders, hrew.identity⟩,
    hstatus, hcons⟩

theorem settleWrite_of_transition {db db' : Database} {id : ℕ} {target : ExecutionOrderStatus}
    {u : Database.OrderUpdate} (h : db.transitionExecutionOrder id target u = .ok db')
    (ht : target = .unknown ∨ target = .rejected)
    (hcons : ∀ o, db.getExecutionOrder id = some o → o.Consistent → (u.apply target o).Consistent) :
    SettleWrite db id db' := by
  obtain ⟨o, ho, hmem, rfl⟩ := transitionExecutionOrder_ok h
  exact ⟨unbooked_modifyOrder _ _ _, o, u.apply target, ho, not_isTerminal_of_mem hmem,
    ⟨rfl, fun _ => rfl⟩, ht, hcons o ho⟩

theorem settleWrite_park {db db' : Database} {id : ℕ} {u : Database.OrderUpdate}
    (hu : u.reconciliationState = some .pending)
    (h : db.transitionExecutionOrder id .unknown u = .ok db') : SettleWrite db id db' := by
  refine settleWrite_of_transition h (.inl rfl) (fun o _ _ => ?_)
  simp [ExecutionOrder.Consistent, Database.OrderUpdate.apply, hu]

theorem settleWrite_reject {db db' : Database} {id : ℕ} {o : ExecutionOrder}
    {u : Database.OrderUpdate} (ho : db.getExecutionOrder id = some o) (hs : o.status ≠ .unknown)
    (hu : u.reconciliationState = none)
    (h : db.transitionExecutionOrder id .rejected u = .ok db') : SettleWrite db id db' := by
  refine settleWrite_of_transition h (.inr rfl) (fun o' ho' hcons => ?_)
  rw [ho, Option.some.injEq] at ho'
  subst ho'
  have hr : o.reconciliationState ≠ .pending := fun hp => hs (hcons.mpr hp)
  simp [ExecutionOrder.Consistent, Database.OrderUpdate.apply, hu, hr]

theorem finalizeOrderReconciliation_ok {db db' : Database} {id : ℕ} {reconciledBy : String}
    {detail : Option String} {at_ : Time}
    (h : db.finalizeOrderReconciliation id reconciledBy detail at_ = .ok db') :
    ∃ g : ExecutionOrder → ExecutionOrder, db' = db.modifyOrder id g ∧
      ∀ o, (g o).identity = o.identity ∧ (g o).id = o.id ∧ (g o).status = o.status ∧
        (g o).reconciliationState = .reconciled := by
  unfold Database.finalizeOrderReconciliation at h
  split at h
  · cases h
  · cases h
    exact ⟨_, rfl, fun o => ⟨rfl, rfl, rfl, rfl⟩⟩

theorem settleWrite_applyFailedResolution {db db' : Database} {order : ExecutionOrder}
    {reconciledBy : String} {detail : Option String} {reason : String} {at_ : Time}
    (h : applyFailedResolution db order reconciledBy detail reason at_ = .ok db') :
    SettleWrite db order.id db' := by
  simp only [applyFailedResolution, bind_eq_ok] at h
  obtain ⟨db₁, h₁, db₂, h₂, h₃⟩ := h
  obtain ⟨o, ho, hmem, rfl⟩ := transitionExecutionOrder_ok h₁
  obtain ⟨g, rfl, hg⟩ := finalizeOrderReconciliation_ok h₂
  refine SettleWrite.trans_frame ?_ (frame_recordDecisionOutcome h₃)
  rw [Database.modifyOrder_modifyOrder _ _ (fun _ => by rfl)]
  refine ⟨unbooked_modifyOrder _ _ _, o, _, ho, not_isTerminal_of_mem hmem, ⟨rfl, fun x => ?_⟩, ?_,
    fun _ => ?_⟩
  · exact (hg _).1
  · exact .inr (hg _).2.2.1
  · simp [ExecutionOrder.Consistent, (hg _).2.2.1, (hg _).2.2.2, Database.OrderUpdate.apply]

/-! ## Filling one order -/

private theorem applyFill_new {db db' : Database} {a : FillApplication} {r : LedgerApplyResult}
    (h : applyFill db a = .ok (db', r)) (hkey : a.externalKey ∉ db.recordedKeys) :
    Grown db db' ∧ db'.fills = db.fills ++ [a.row] ∧ db'.books = db.books.post a ∧
      (∃ t, transitionPosition (db.holding a.deploymentId) a.fill.side a.fill.quantity a.fill.price =
          .ok t ∧
        db'.positions = Database.upsertPositions db.positions a.deploymentId t.newSide t.newQuantity
          t.newAverageEntryPrice a.fill.filledAt) ∧
      db'.orders = modify ExecutionOrder.id db.orders a.orderId a.settled ∧
      ∃ o, db.getExecutionOrder a.orderId = some o ∧ ¬ o.status.IsTerminal ∧
        (a.reconciling = false → o.status = .intent) := by
  rcases applyFill_ok h with ⟨_, hfound, -⟩ | ⟨-, hr, _, t, o, -, ht, ho, hs, hdb, -⟩
  · rw [getExecutionFillByExternalId_eq_none.mpr hkey] at hfound
    cases hfound
  · refine ⟨?_, ?_, applyFill_books h hr, ⟨t, ht, ?_⟩, ?_, o, ho, ?_, ?_⟩
    · subst hdb
      exact .of_eq rfl rfl
    · rw [hdb]
    · rw [hdb]
    · rw [hdb]
    · split at hs
      · exact not_isTerminal_of_mem hs
      · simp [hs, ExecutionOrderStatus.IsTerminal]
    · intro hrec
      simpa [hrec] using hs

theorem fillWrite_applyFill {pv : ℚ} {db db' : Database} {a : FillApplication}
    {r : LedgerApplyResult} (h : applyFill db a = .ok (db', r))
    (hkey : a.externalKey ∉ db.recordedKeys) (hrec : a.reconciling = false)
    (haccount : db.accountView a.deploymentId = some (a.paperAccountId, a.symbol))
    (hpv : a.pointValue = pv) : FillWrite pv db a db' := by
  obtain ⟨hgrown, hfills, hbooks, hpositions, horders, o, ho, hopen, hs⟩ := applyFill_new h hkey
  refine ⟨hgrown, hkey, hfills, hbooks, hpositions, haccount, hpv, o, a.settled, ho, hopen,
    ⟨horders, fun _ => rfl⟩, rfl, fun hcons => ?_⟩
  have hr : o.reconciliationState ≠ .pending := fun hp => by
    have := hcons.mpr hp
    simp [hs hrec] at this
  simp [ExecutionOrder.Consistent, FillApplication.settled, hr]

theorem fillWrite_applyFilledResolution {cfg : ServiceConfig} {db db' : Database}
    {order : ExecutionOrder} {deployment : ExecutionDeployment} {fill : FillRecord} {fillId : ℕ}
    {reconciledBy : String} {detail : Option String} {at_ : Time}
    (h : applyFilledResolution cfg db order deployment fill fillId reconciledBy detail at_ = .ok db')
    (hkey : (fill.brokerMode, fill.externalFillId) ∉ db.recordedKeys)
    (hdeployment : db.getExecutionDeployment deployment.id = some deployment) :
    FillWrite cfg.pointValue db
      (fillApplicationOf cfg deployment order.id fillId fill true at_) db' := by
  simp only [applyFilledResolution, bind_eq_ok] at h
  obtain ⟨⟨db₁, r⟩, h₁, db₂, h₂, h₃⟩ := h
  obtain ⟨hgrown, hfills, hbooks, ⟨t, ht, hpositions⟩, horders, o, ho, hopen, -⟩ :=
    applyFill_new h₁ hkey
  obtain ⟨g, rfl, hg⟩ := finalizeOrderReconciliation_ok h₂
  refine FillWrite.trans_frame ?_ (frame_recordDecisionOutcome h₃)
  have hunbooked := unbooked_modifyOrder db₁ order.id g
  refine ⟨hgrown.trans hunbooked.toGrown, hkey, hunbooked.fills.trans hfills,
    hunbooked.books.trans hbooks, ⟨t, ht, hunbooked.positions.trans hpositions⟩, ?_, rfl, o,
    fun x => g ((fillApplicationOf cfg deployment order.id fillId fill true at_).settled x), ho,
    hopen, ⟨?_, fun x => ?_⟩, ?_, fun _ => ?_⟩
  · simp [Database.accountView, fillApplicationOf, hdeployment]
  · show (db₁.modifyOrder order.id g).orders = _
    rw [Database.modifyOrder]
    dsimp only
    rw [horders]
    exact modify_modify (fun _ => rfl)
  · exact (hg _).1
  · exact (hg _).2.2.1
  · simp [ExecutionOrder.Consistent, (hg _).2.2.1, (hg _).2.2.2, FillApplication.settled]

end QBackend.Execution
