import QBackend.OrderInvariant

/-!
# What recovery, reconciliation and the operator write

Each of them is a sequence of writes, provided that every fill it reports carries an external
id of its own; and an order for which it reports a fill is filled afterwards.
-/

namespace QBackend.Execution

open KeyedTables FallibleSteps

/-! ## Reported fills -/

def FillRecord.key (fill : FillRecord) : BrokerMode × String := (fill.brokerMode, fill.externalFillId)

/-- The fill the broker reports when the reconciler asks about an order. -/
def reportedKey (broker : ExecutionBroker) (order : ExecutionOrder)
    (deployment : ExecutionDeployment) : Option (BrokerMode × String) :=
  match broker.lookupOrder (lookupRequestForOrder order deployment) with
  | .error _ => none
  | .ok state => if state.status = .filled then state.fill.map FillRecord.key else none

def reportedFill (broker : ExecutionBroker) (order : ExecutionOrder)
    (deployment : ExecutionDeployment) : Option FillRecord :=
  match broker.lookupOrder (lookupRequestForOrder order deployment) with
  | .error _ => none
  | .ok state => if state.status = .filled then state.fill else none

theorem reportedKey_of_fill {broker : ExecutionBroker} {order : ExecutionOrder}
    {deployment : ExecutionDeployment} {fill : FillRecord}
    (h : reportedFill broker order deployment = some fill) :
    reportedKey broker order deployment = some fill.key := by
  unfold reportedFill at h
  unfold reportedKey
  cases hstate : broker.lookupOrder (lookupRequestForOrder order deployment) with
  | error e => simp [hstate] at h
  | ok state =>
    by_cases hstatus : state.status = .filled
    · simp only [hstate, hstatus, if_true] at h ⊢
      simp [h]
    · simp [hstate, hstatus] at h

/-- The fills the broker reports for the orders of a pass. -/
def reportedKeys (broker : ExecutionBroker) (db : Database) (orders : List ExecutionOrder) :
    List (BrokerMode × String) :=
  orders.filterMap (fun o => (db.getExecutionDeployment o.deploymentId).bind (reportedKey broker o))

/-- Every fill a pass reports carries an external id that no fill row and no other report of the
pass has. -/
structure FreshReports (broker : ExecutionBroker) (db : Database) (orders : List ExecutionOrder) :
    Prop where
  nodup : (reportedKeys broker db orders).Nodup
  fresh : ∀ k ∈ reportedKeys broker db orders, k ∉ db.recordedKeys

/-- Only the deployment's identifier and symbol enter a request. -/
theorem reportedKeys_congr (broker : ExecutionBroker) {db db' : Database}
    (h : db'.accountView = db.accountView) (orders : List ExecutionOrder) :
    reportedKeys broker db' orders = reportedKeys broker db orders := by
  unfold reportedKeys
  apply List.filterMap_congr
  intro o _
  have hview : db'.accountView o.deploymentId = db.accountView o.deploymentId := by rw [h]
  unfold Database.accountView at hview
  cases hd : db.getExecutionDeployment o.deploymentId with
  | none =>
    rw [hd] at hview
    cases hd' : db'.getExecutionDeployment o.deploymentId with
    | none => rfl
    | some d' => simp [hd'] at hview
  | some d =>
    rw [hd] at hview
    cases hd' : db'.getExecutionDeployment o.deploymentId with
    | none => simp [hd'] at hview
    | some d' =>
      simp only [hd', Option.map_some, Option.some.injEq, Prod.mk.injEq] at hview
      have hids : d'.id = d.id := (key_of_lookup hd').trans (key_of_lookup hd).symm
      simp [reportedKey, lookupRequestForOrder, hview.2, hids]

section Resolutions

variable {cfg : ServiceConfig} {db db' : Database} {bound : ℕ} {allowed : FillApplication → Prop}

theorem FillWrite.isFilled {pv : ℚ} {a : FillApplication} (h : FillWrite pv db a db') :
    db'.IsFilled a.orderId := by
  obtain ⟨o, f, ho, -, hf, hstatus, -⟩ := h.change
  obtain ⟨homem, hoid⟩ := getExecutionOrder_mem ho
  refine ⟨f o, ?_, ?_, hstatus⟩
  · rw [hf.orders, mem_modify]
    exact .inl ⟨o, homem, hoid, rfl⟩
  · exact (ExecutionOrder.id_of_identity (hf.identity o)).trans hoid

theorem FillWrite.recordedKeys {pv : ℚ} {a : FillApplication} (h : FillWrite pv db a db') :
    db'.recordedKeys = db.recordedKeys ++ [a.externalKey] := by
  simp only [Database.recordedKeys, h.fills, List.map_append, List.map_singleton]
  rfl

theorem Unbooked.recordedKeys (h : Unbooked db db') : db'.recordedKeys = db.recordedKeys := by
  simp only [Database.recordedKeys, h.fills]

/-- What the reconciler does to one order. -/
inductive ReconcileStep (cfg : ServiceConfig) (broker : ExecutionBroker) (db : Database)
    (order : ExecutionOrder) (deployment : ExecutionDeployment) :
    Database → ReconciliationOutcome → Prop where
  | annotated {db' outcome} (f : ExecutionOrder → ExecutionOrder)
      (hf : db' = db.modifyOrder order.id f)
      (hkeep : ∀ o, (f o).identity = o.identity ∧ (f o).status = o.status ∧
        (f o).reconciliationState = o.reconciliationState)
      (ho : outcome.resolution = .unavailable) :
      ReconcileStep cfg broker db order deployment db' outcome
  | settled {db' outcome} (h : SettleWrite db order.id db') (ho : outcome.resolution = .failed) :
      ReconcileStep cfg broker db order deployment db' outcome
  | filled {db' outcome} (a : FillApplication) (h : FillWrite cfg.pointValue db a db')
      (hfill : reportedFill broker order deployment = some a.fill)
      (ha : a.orderId = outcome.orderId) :
      ReconcileStep cfg broker db order deployment db' outcome

theorem recordReconciliationAttempt_ok {id : ℕ} {at_ : Time} {error : String}
    (h : db.recordReconciliationAttempt id at_ error = .ok db') :
    ∃ f : ExecutionOrder → ExecutionOrder, db' = db.modifyOrder id f ∧
      ∀ o, (f o).identity = o.identity ∧ (f o).status = o.status ∧
        (f o).reconciliationState = o.reconciliationState := by
  unfold Database.recordReconciliationAttempt at h
  split at h
  · cases h
  · cases h
    exact ⟨_, rfl, fun _ => ⟨rfl, rfl, rfl⟩⟩

theorem reconcileOrder_step {broker : ExecutionBroker} {now : Time} {order : ExecutionOrder}
    {deployment : ExecutionDeployment} {fillId : ℕ} {outcome : ReconciliationOutcome}
    (h : reconcileOrder cfg broker now db order deployment fillId = .ok (db', outcome))
    (hdeployment : db.getExecutionDeployment deployment.id = some deployment)
    (hfresh : ∀ k ∈ reportedKey broker order deployment, k ∉ db.recordedKeys) :
    ReconcileStep cfg broker db order deployment db' outcome := by
  simp only [reconcileOrder, bind_eq_ok] at h
  obtain ⟨state, hstate, h⟩ := h
  split at h
  next hstatus =>
    split at h
    · simp only [bind_eq_ok, pure_eq_ok, Prod.mk.injEq] at h
      obtain ⟨db₁, h₁, rfl, rfl⟩ := h
      obtain ⟨f, hf, hkeep⟩ := recordReconciliationAttempt_ok h₁
      exact .annotated f hf hkeep rfl
    next fill hfill =>
      simp only [bind_eq_ok, pure_eq_ok, Prod.mk.injEq] at h
      obtain ⟨db₁, h₁, rfl, rfl⟩ := h
      have hreported : reportedFill broker order deployment = some fill := by
        simp [reportedFill, hstate, hstatus, hfill]
      exact .filled _ (fillWrite_applyFilledResolution h₁ (hfresh _ (reportedKey_of_fill hreported))
        hdeployment) hreported rfl
  all_goals
    simp only [bind_eq_ok, pure_eq_ok, Prod.mk.injEq] at h
    obtain ⟨db₁, h₁, rfl, rfl⟩ := h
  · exact .settled (settleWrite_applyFailedResolution h₁) rfl
  · exact .settled (settleWrite_applyFailedResolution h₁) rfl
  · obtain ⟨f, hf, hkeep⟩ := recordReconciliationAttempt_ok h₁
    exact .annotated f hf hkeep rfl

section ReconcileStep

variable {broker : ExecutionBroker} {order : ExecutionOrder} {deployment : ExecutionDeployment}
  {outcome : ReconciliationOutcome}

theorem ReconcileStep.write (h : ReconcileStep cfg broker db order deployment db' outcome)
    (hallowed : ∀ a, reportedFill broker order deployment = some a.fill → allowed a) :
    Write allowed cfg.pointValue bound db db' := by
  cases h with
  | annotated f hf hkeep _ =>
    subst hf
    exact .annotate order.id f (unbooked_modifyOrder _ _ _) ⟨rfl, fun o => (hkeep o).1⟩
      (fun o => (hkeep o).2)
  | settled h _ => exact .settle _ h
  | filled a h hfill _ => exact .fill a (hallowed a hfill) h

theorem ReconcileStep.accountView (h : ReconcileStep cfg broker db order deployment db' outcome) :
    db'.accountView = db.accountView := by
  cases h with
  | annotated f hf _ _ => rw [hf]; rfl
  | settled h _ => exact h.accountView
  | filled a h _ _ => exact h.accountView

theorem ReconcileStep.recordedKeys (h : ReconcileStep cfg broker db order deployment db' outcome)
    {k : BrokerMode × String} (hk : k ∈ db'.recordedKeys) :
    k ∈ db.recordedKeys ∨ reportedKey broker order deployment = some k := by
  cases h with
  | annotated f hf _ _ => exact .inl (by rwa [hf] at hk)
  | settled h _ => exact .inl (by rwa [h.toUnbooked.recordedKeys] at hk)
  | filled a h hfill _ =>
    rw [h.recordedKeys, List.mem_append, List.mem_singleton] at hk
    rcases hk with hk | rfl
    · exact .inl hk
    · exact .inr (reportedKey_of_fill hfill)

theorem ReconcileStep.isFilled (h : ReconcileStep cfg broker db order deployment db' outcome)
    (ho : outcome.resolution = .filled) : db'.IsFilled outcome.orderId := by
  cases h with
  | annotated _ _ _ hr => simp [hr] at ho
  | settled _ hr => simp [hr] at ho
  | filled a h _ ha => exact ha ▸ h.isFilled

end ReconcileStep

/-- A whole pass. It writes no intent: the bound on new orders is zero. -/
theorem reconcileOrders_writes {broker : ExecutionBroker} {now : Time}
    {orders : List ExecutionOrder} {n n' : ℕ} {outcomes : List ReconciliationOutcome}
    (hinv : OrderInvariant bound db)
    (h : reconcileOrders cfg broker now orders db n = .ok (db', n', outcomes))
    (hfresh : FreshReports broker db orders)
    (hallowed : ∀ order deployment a,
      reportedFill broker order deployment = some a.fill → allowed a) :
    Writes allowed cfg.pointValue 0 db db' ∧ n ≤ n' ∧
      ∀ outcome ∈ outcomes, outcome.resolution = .filled → db'.IsFilled outcome.orderId := by
  induction orders generalizing db n n' outcomes with
  | nil =>
    simp only [reconcileOrders, Except.ok.injEq, Prod.mk.injEq] at h
    obtain ⟨rfl, rfl, rfl⟩ := h
    exact ⟨.refl, le_rfl, by simp⟩
  | cons order rest ih =>
    unfold reconcileOrders at h
    split at h
    next hnone =>
      refine ih hinv h ⟨?_, ?_⟩
      · simpa [reportedKeys, hnone] using hfresh.nodup
      · simpa [reportedKeys, hnone] using hfresh.fresh
    next deployment hdeployment =>
      simp only [bind_eq_ok, pure_eq_ok, Prod.mk.injEq] at h
      obtain ⟨⟨db₁, outcome⟩, h₁, ⟨db₂, n₂, rest'⟩, h₂, rfl, rfl, rfl⟩ := h
      have hid : deployment.id = order.deploymentId := key_of_lookup hdeployment
      have hkeys : reportedKeys broker db (order :: rest) =
          (reportedKey broker order deployment).toList ++ reportedKeys broker db rest := by
        simp only [reportedKeys, List.filterMap_cons, hdeployment, Option.bind_some]
        cases reportedKey broker order deployment <;> rfl
      have hnodup := hfresh.nodup
      have hnew := hfresh.fresh
      rw [hkeys] at hnodup hnew
      have hstep := reconcileOrder_step h₁ (by rw [hid]; exact hdeployment)
        (fun k hk => hnew k (by simp [Option.mem_def.mp hk]))
      have hrest : FreshReports broker db₁ rest := by
        rw [List.nodup_append] at hnodup
        refine ⟨?_, ?_⟩
        · rw [reportedKeys_congr broker hstep.accountView]
          exact hnodup.2.1
        · rw [reportedKeys_congr broker hstep.accountView]
          intro k hk hrec
          rcases hstep.recordedKeys hrec with hold | hreported
          · exact hnew k (by simp [hk]) hold
          · exact hnodup.2.2 k (by simp [hreported]) k hk rfl
      have hwrite : Write allowed cfg.pointValue 0 db db₁ := hstep.write (hallowed _ _)
      have hinv₁ := hinv.write (hwrite.mono (Nat.zero_le bound))
      obtain ⟨hwrites, hn, hall⟩ := ih hinv₁ h₂ hrest
      refine ⟨.head hwrite hwrites, (Nat.le_succ n).trans hn, fun x hx hres => ?_⟩
      rcases List.mem_cons.mp hx with rfl | hx
      · exact hinv₁.isFilled_writes (hwrites.mono (Nat.zero_le bound)) (hstep.isFilled hres)
      · exact hall x hx hres

/-! ## Recovery -/

theorem markOrdersUnknown_writes {reason : String} {orders : List ExecutionOrder}
    (h : Database.markOrdersUnknown reason orders db = .ok db') :
    Writes allowed cfg.pointValue bound db db' := by
  induction orders generalizing db with
  | nil =>
    cases h
    exact .refl
  | cons order rest ih =>
    simp only [Database.markOrdersUnknown, bind_eq_ok] at h
    obtain ⟨db₁, h₁, h₂⟩ := h
    exact .head (.settle order.id (settleWrite_park rfl h₁)) (ih h₂)

theorem markDeployments_writes {deployments : List ExecutionDeployment} {n : ℕ}
    (h : markDeployments deployments db = .ok (db', n)) : Writes allowed cfg.pointValue bound db db' := by
  induction deployments generalizing db n with
  | nil =>
    cases h
    exact .refl
  | cons deployment rest ih =>
    simp only [markDeployments, Database.markIncompleteOrdersUnknown, bind_eq_ok, pure_eq_ok,
      Prod.mk.injEq] at h
    obtain ⟨⟨db₁, n₁⟩, ⟨db₀, h₀, rfl, rfl⟩, ⟨db₂, n₂⟩, h₂, rfl, rfl⟩ := h
    exact (markOrdersUnknown_writes h₀).trans (ih h₂)

theorem frame_releaseExpiredLeases (db : Database) (now : Time) :
    Frame db (db.releaseExpiredLeases now) :=
  ⟨⟨.of_eq rfl rfl, rfl, rfl, rfl⟩, rfl⟩

theorem recover_writes {quotes : String → Option ExecutableQuote} {now : Time}
    {result : RecoveryResult} (h : recover db quotes now = .ok (db', result)) :
    Writes allowed cfg.pointValue bound db db' := by
  simp only [recover, bind_eq_ok] at h
  obtain ⟨⟨db₁, n⟩, h₁, h⟩ := h
  have hmark : Writes allowed cfg.pointValue bound db db₁ :=
    .head (.frame (frame_releaseExpiredLeases db now)) (markDeployments_writes h₁)
  split at h
  · cases h
    exact hmark
  · cases h
    exact hmark

/-! ## The operator -/

/-- The external id of the fill an operator reports is new. -/
def FreshResolution (db : Database) (orderId : ℕ) (body : OrderResolutionRequest) (now : Time) :
    Prop :=
  ∀ order fill, db.getExecutionOrder orderId = some order → body.fillFor order now = some fill →
    fill.key ∉ db.recordedKeys

theorem resolveOrder_write {orderId : ℕ} {body : OrderResolutionRequest} {fillId : ℕ} {now : Time}
    {outcome : ReconciliationOutcome}
    (h : resolveOrder cfg db orderId body fillId now = .ok (db', outcome))
    (hfresh : FreshResolution db orderId body now)
    (hallowed : ∀ order a, db.getExecutionOrder orderId = some order →
      body.fillFor order now = some a.fill → allowed a) :
    Write allowed cfg.pointValue bound db db' ∧
      (outcome.resolution = .filled → db'.IsFilled outcome.orderId) := by
  unfold resolveOrder at h
  split at h
  · cases h
  next order horder =>
    split at h
    · cases h
    next deployment hdeployment =>
      have hid : deployment.id = order.deploymentId := key_of_lookup hdeployment
      simp only [resolveOrderManually, bind_eq_ok] at h
      obtain ⟨-, -, h⟩ := h
      split at h
      · split at h
        · cases h
        next fill hfill =>
          simp only [bind_eq_ok, pure_eq_ok, Prod.mk.injEq] at h
          obtain ⟨db₁, h₁, rfl, rfl⟩ := h
          have hwrite := fillWrite_applyFilledResolution h₁ (hfresh order fill horder hfill)
            (by rw [hid]; exact hdeployment)
          exact ⟨.fill _ (hallowed order _ horder hfill) hwrite, fun _ => hwrite.isFilled⟩
      · simp only [bind_eq_ok, pure_eq_ok, Prod.mk.injEq] at h
        obtain ⟨db₁, h₁, rfl, rfl⟩ := h
        exact ⟨.settle _ (settleWrite_applyFailedResolution h₁), by simp⟩

end Resolutions

end QBackend.Execution
