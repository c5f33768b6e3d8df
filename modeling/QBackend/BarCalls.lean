import QBackend.OrderInvariant

/-!
# What one call of the service does

`BarStep` lists the seven ways in which `process_completed_bar` can end, each with the writes
that its commits made durable and the broker call that it made. `processCompletedBar_step` says
that the list is complete.
-/

namespace QBackend.Execution

open KeyedTables FallibleSteps

def BarCall.barKey (call : BarCall) : ℕ × Time := (call.deploymentId, call.result.barCloseTime)

/-- Nothing raises between the intent commit and the outcome commit: the broker answers and no
checkpoint in between throws. The process may still die. -/
structure BarEnvironment.Quiet (cfg : ServiceConfig) (env : BarEnvironment) : Prop where
  afterIntentCommit : env.crash .afterIntentCommit ≠ some .raise
  afterBrokerResponse : env.crash .afterBrokerResponse ≠ some .raise
  broker : ∀ request, ∃ sub, env.broker.submitMarketOrder request cfg.costConfig = .ok sub

/-- A fill in the broker's answer to the call's order carries an external id that no fill of
its broker mode has. -/
def FreshSubmission (cfg : ServiceConfig) (w : World) (env : BarEnvironment) : Prop :=
  ∀ request sub fill, request.orderId = w.nextId + 1 →
    request.externalFillId = "paper:" ++ toString (w.nextId + 1) →
    env.broker.submitMarketOrder request cfg.costConfig = .ok sub → sub.fill = some fill →
    (fill.brokerMode, fill.externalFillId) ∉ w.session.working.recordedKeys

/-- The fill is the broker's answer to the call's order. -/
structure SubmittedFill (cfg : ServiceConfig) (w : World) (env : BarEnvironment)
    (a : FillApplication) : Prop where
  orderId : a.orderId = w.nextId + 1
  answer : ∃ request sub, request.orderId = w.nextId + 1 ∧
    request.externalFillId = "paper:" ++ toString (w.nextId + 1) ∧
    env.broker.submitMarketOrder request cfg.costConfig = .ok sub ∧ sub.fill = some a.fill

/-- The order of a call was committed as an intent. -/
structure Intended (w : World) (call : BarCall) (o : ExecutionOrder) (db : Database) : Prop where
  write : IntentWrite w.session.working o db
  id : o.id = w.nextId + 1
  barKey : o.barKey = call.barKey
  known : (w.session.working.accountView o.deploymentId).isSome

/-- The request is for the order. -/
structure MarketOrderRequest.For (request : MarketOrderRequest) (o : ExecutionOrder) : Prop where
  orderId : request.orderId = o.id
  deploymentId : request.deploymentId = o.deploymentId

inductive BarStep (cfg : ServiceConfig) (w : World) (call : BarCall) (env : BarEnvironment) :
    World → Except Failure BarProcessResult → Prop where
  /-- The bar emits no decision or was decided before. -/
  | skipped (r : BarProcessResult)
      (hkey : call.result.emitsDecision → call.barKey ∈ w.session.working.decisionKeys) :
      BarStep cfg w call env w (.ok r)
  /-- The call failed before its first commit. -/
  | failed (n : ℕ) (f : Failure) (hn : w.nextId ≤ n) :
      BarStep cfg w call env
        ⟨⟨w.session.committed, w.session.committed⟩, n, w.submissions, w.reports.drop⟩ (.error f)
  /-- The decision was committed without an order. -/
  | concluded (db : Database) (r : BarProcessResult) (h : Frame w.session.working db)
      (hkey : call.barKey ∈ db.decisionKeys) :
      BarStep cfg w call env ⟨⟨db, db⟩, w.nextId + 3, w.submissions, w.reports.flush⟩ (.ok r)
  /-- The call failed between the intent commit and the broker call. -/
  | intended (db : Database) (o : ExecutionOrder) (f : Failure) (h : Intended w call o db)
      (hquiet : env.Quiet cfg → f = .killed) :
      BarStep cfg w call env ⟨⟨db, db⟩, w.nextId + 3, w.submissions, w.reports.flush⟩ (.error f)
  /-- The call failed between the broker call and the outcome commit. -/
  | submitted (db : Database) (o : ExecutionOrder) (request : MarketOrderRequest) (f : Failure)
      (h : Intended w call o db) (hrequest : request.For o)
      (hquiet : env.Quiet cfg → f = .killed) :
      BarStep cfg w call env
        ⟨⟨db, db⟩, w.nextId + 3, w.submissions ++ [⟨request, db.orders⟩], w.reports.flush⟩ (.error f)
  /-- The order was parked or refused. -/
  | settled (db : Database) (o : ExecutionOrder) (request : MarketOrderRequest) (db' : Database)
      (r : Except Failure BarProcessResult) (h : Intended w call o db)
      (hrequest : request.For o) (hsettle : SettleWrite db o.id db') :
      BarStep cfg w call env
        ⟨⟨db', db'⟩, w.nextId + 3, w.submissions ++ [⟨request, db.orders⟩], w.reports.flush⟩ r
  /-- The order was filled. -/
  | filled (db : Database) (o : ExecutionOrder) (request : MarketOrderRequest) (db' : Database)
      (r : BarProcessResult) (a : FillApplication) (h : Intended w call o db)
      (hrequest : request.For o) (ha : a.orderId = o.id)
      (hfill : FillWrite cfg.pointValue db a db') (horigin : SubmittedFill cfg w env a) :
      BarStep cfg w call env
        ⟨⟨db', db'⟩, w.nextId + 3, w.submissions ++ [⟨request, db.orders⟩],
          ⟨w.reports.durable ++ w.reports.pending ++ [o.id], []⟩⟩ (.ok r)

/-! ## Up to the first commit -/

section Preparation

variable {cfg : ServiceConfig} {db : Database} {deployment : ExecutionDeployment} {call : BarCall}
  {env : BarEnvironment} {decisionId orderId : ℕ}

/-- An order that passes the gate is written for a deployment without an unknown order. -/
theorem gateOrder_ok {side : ExecutionSide} {quantity : ℚ} {p : Preparation}
    (h : gateOrder cfg db deployment call env decisionId orderId side quantity = .ok p) :
    (∃ db' rejection, p = .concluded db' .riskRejected (some rejection) ∧ Frame db db') ∨
    (∃ o, p = .intent (db.createExecutionOrderIntent o) o ∧
      o = intentOrder deployment call decisionId orderId side quantity ∧
      ∀ x ∈ db.orders, x.deploymentId = deployment.id → x.status ≠ .unknown) := by
  unfold gateOrder at h
  split at h
  · cases h
  next account haccount =>
    simp only [bind_eq_ok] at h
    obtain ⟨snapshot, -, h⟩ := h
    split at h
    next rejection hgate =>
      simp only [bind_eq_ok, pure_eq_ok] at h
      obtain ⟨db', hdb', rfl⟩ := h
      exact .inl ⟨db', rejection, rfl, (frame_recordRiskEvent _ _).trans (frame_concludeDecision hdb')⟩
    next hgate =>
      simp only [pure_eq_ok] at h
      refine .inr ⟨_, h.symm, rfl, fun x hx hd hunknown => ?_⟩
      have hnone := RiskContext.hasUnknownOrders_of_evaluate hgate
      simp only [riskContextOf, deploymentHasUnknownOrders, List.any_eq_false,
        Database.listOrdersForDeployment, List.mem_filter, decide_eq_true_eq, and_imp] at hnone
      exact hnone x hx hd hunknown

/-- The rows a committed intent rests on. -/
structure Prepared (db : Database) (call : BarCall) (decisionId : ℕ) : Prop where
  decision : (lookup ExecutionDecision.id db.decisions decisionId).isSome
  deployment : (db.getExecutionDeployment call.deploymentId).isSome

/-- What is decided at the first commit. -/
inductive PrepareStep (db : Database) (deployment : ExecutionDeployment) (call : BarCall)
    (decisionId orderId : ℕ) : Preparation → Prop where
  | concluded {db' outcome rejection} (h : Frame db db') (hkey : call.barKey ∈ db'.decisionKeys) :
      PrepareStep db deployment call decisionId orderId (.concluded db' outcome rejection)
  | intent {db' side quantity}
      (h : IntentWrite db (intentOrder deployment call decisionId orderId side quantity) db')
      (hprepared : Prepared db' call decisionId) :
      PrepareStep db deployment call decisionId orderId
        (.intent db' (intentOrder deployment call decisionId orderId side quantity))

private theorem prepareStep_gate {side : ExecutionSide} {quantity : ℚ} {p : Preparation}
    (hid : deployment.id = call.deploymentId)
    (hdeployment : db.getExecutionDeployment call.deploymentId = some deployment)
    (hnew : call.barKey ∉ db.decisionKeys)
    (h : gateOrder cfg { db with decisions := db.decisions ++ [initialDecision call decisionId] }
      deployment call env decisionId orderId side quantity = .ok p) :
    PrepareStep db deployment call decisionId orderId p := by
  have hkey : call.barKey ∈ Database.decisionKeys
      { db with decisions := db.decisions ++ [initialDecision call decisionId] } := by
    simp [Database.decisionKeys, initialDecision, BarCall.barKey]
  have hgrown : Grown db { db with decisions := db.decisions ++ [initialDecision call decisionId] } :=
    .decision hnew
  have hframe : Frame db { db with decisions := db.decisions ++ [initialDecision call decisionId] } :=
    ⟨⟨hgrown, rfl, rfl, rfl⟩, rfl⟩
  rcases gateOrder_ok h with ⟨db', rejection, rfl, hf⟩ | ⟨o, rfl, rfl, hunknown⟩
  · exact .concluded (hframe.trans hf) (hf.decisionKeys _ hkey)
  · have hbar : (intentOrder deployment call decisionId orderId side quantity).barKey =
        call.barKey := by
      simp [ExecutionOrder.barKey, intentOrder, BarCall.barKey, hid]
    refine .intent ⟨⟨hgrown.trans (.of_eq rfl rfl), rfl, rfl, rfl⟩, ?_, ?_, rfl, rfl, rfl,
      hunknown⟩ ⟨?_, ?_⟩
    · rw [hbar]; exact hnew
    · rw [hbar]; exact hkey
    · simp [Database.createExecutionOrderIntent, lookup, initialDecision]
    · exact Option.isSome_iff_exists.mpr ⟨deployment, hdeployment⟩

theorem prepareOrder_step {p : Preparation} (hid : deployment.id = call.deploymentId)
    (hdeployment : db.getExecutionDeployment call.deploymentId = some deployment)
    (h : prepareOrder cfg db deployment call env decisionId orderId = .ok p) :
    PrepareStep db deployment call decisionId orderId p := by
  simp only [prepareOrder, bind_eq_ok] at h
  obtain ⟨db₁, h₁, h⟩ := h
  obtain ⟨hframe, hnew, rfl⟩ := frame_createExecutionDecision h₁
  have hkey : call.barKey ∈ Database.decisionKeys
      { db with decisions := db.decisions ++ [initialDecision call decisionId] } := by
    simp [Database.decisionKeys, initialDecision, BarCall.barKey]
  split at h
  · simp only [bind_eq_ok, pure_eq_ok] at h
    obtain ⟨db₂, h₂, rfl⟩ := h
    have hf := frame_updateDeploymentLastBarClose h₂
    exact .concluded (hframe.trans hf) (hf.decisionKeys _ hkey)
  · split at h
    · split at h
      · simp only [bind_eq_ok, pure_eq_ok] at h
        obtain ⟨db₂, h₂, rfl⟩ := h
        have hf := frame_updateExecutionDecisionOutcome h₂
        exact .concluded (hframe.trans hf) (hf.decisionKeys _ hkey)
      · exact prepareStep_gate hid hdeployment hnew h
    · split at h
      · simp only [bind_eq_ok, pure_eq_ok] at h
        obtain ⟨db₂, h₂, rfl⟩ := h
        have hf := frame_concludeDecision h₂
        exact .concluded (hframe.trans hf) (hf.decisionKeys _ hkey)
      · exact prepareStep_gate hid hdeployment hnew h

end Preparation

/-! ## After the intent commit -/

section Outcome

variable {cfg : ServiceConfig} {db : Database} {call : BarCall} {decisionId : ℕ}
  {o : ExecutionOrder}

theorem updateExecutionDecisionOutcome_isOk (h : Prepared db call decisionId)
    (outcome : DecisionOutcome) :
    ∃ db', db.updateExecutionDecisionOutcome decisionId outcome = .ok db' ∧
      db'.deployments = db.deployments := by
  obtain ⟨decision, hdecision⟩ := Option.isSome_iff_exists.mp h.decision
  simp only [Database.updateExecutionDecisionOutcome, hdecision]
  exact ⟨_, rfl, rfl⟩

theorem concludeDecision_isOk (h : Prepared db call decisionId) (outcome : DecisionOutcome) :
    ∃ db', concludeDecision db call decisionId outcome = .ok db' := by
  obtain ⟨mid, hmid, hsame⟩ := updateExecutionDecisionOutcome_isOk h outcome
  obtain ⟨deployment, hdeployment⟩ := Option.isSome_iff_exists.mp h.deployment
  have hmid' : mid.getExecutionDeployment call.deploymentId = some deployment := by
    rw [Database.getExecutionDeployment, hsame]
    exact hdeployment
  simp only [concludeDecision, hmid, bind, Except.bind, Database.updateDeploymentLastBarClose, hmid']
  exact ⟨_, rfl⟩

theorem transition_isOk {id : ℕ} {target : ExecutionOrderStatus} (u : Database.OrderUpdate)
    (ho : db.getExecutionOrder id = some o) (ht : target ∈ orderTransitions o.status) :
    db.transitionExecutionOrder id target u = .ok (db.modifyOrder id (u.apply target)) := by
  simp [Database.transitionExecutionOrder, ho, validateOrderTransition, ht, bind, Except.bind, pure,
    Except.pure]

theorem Prepared.modifyOrder (h : Prepared db call decisionId) (id : ℕ)
    (f : ExecutionOrder → ExecutionOrder) : Prepared (db.modifyOrder id f) call decisionId :=
  ⟨h.decision, h.deployment⟩

theorem transition_conclude_isOk (h : Prepared db call decisionId)
    (ho : db.getExecutionOrder o.id = some o) (hs : o.status = .intent)
    {target : ExecutionOrderStatus} (ht : target = .unknown ∨ target = .rejected)
    (u : Database.OrderUpdate) (outcome : DecisionOutcome) :
    ∃ db₁ db', db.transitionExecutionOrder o.id target u = .ok db₁ ∧
      concludeDecision db₁ call decisionId outcome = .ok db' := by
  have hmem : target ∈ orderTransitions o.status := by
    rcases ht with rfl | rfl <;> simp [hs, orderTransitions]
  obtain ⟨db', hdb'⟩ := concludeDecision_isOk (h.modifyOrder o.id (u.apply target)) outcome
  exact ⟨_, db', transition_isOk u ho hmem, hdb'⟩

theorem parkUnpersistedFill_ok (h : Prepared db call decisionId)
    (ho : db.getExecutionOrder o.id = some o) (hs : o.status = .intent) :
    ∃ db', parkUnpersistedFill db o.id decisionId = .ok db' ∧ SettleWrite db o.id db' := by
  have htransition := transition_isOk
    { reconciliationState := some .pending, rejectionReason := some "fill persistence failed" } ho
    (show .unknown ∈ orderTransitions o.status by simp [hs, orderTransitions])
  obtain ⟨db', hdb', -⟩ := updateExecutionDecisionOutcome_isOk (h.modifyOrder o.id _) .orderUnknown
  exact ⟨db', bind_eq_ok.mpr ⟨_, htransition, hdb'⟩,
    (settleWrite_park rfl htransition).trans_frame (frame_updateExecutionDecisionOutcome hdb')⟩

theorem persistFill_cases (cfg : ServiceConfig) (w : World) (deployment : ExecutionDeployment)
    (call : BarCall) (env : BarEnvironment) (decisionId : ℕ) (order : ExecutionOrder) (fillId : ℕ)
    (fill : FillRecord) :
    (∃ f, persistFill cfg w deployment call env decisionId order fillId fill = w.fail f) ∨
    (∃ db f, parkUnpersistedFill w.session.committed order.id decisionId = .ok db ∧
      persistFill cfg w deployment call env decisionId order fillId fill = (w.commit db).fail f) ∨
    (∃ db₁ ledger db₂, applyFill w.session.working
        (fillApplicationOf cfg deployment order.id fillId fill false env.now) = .ok (db₁, ledger) ∧
      concludeDecision db₁ call decisionId .orderFilled = .ok db₂ ∧
      persistFill cfg w deployment call env decisionId order fillId fill =
        (w.commitFill db₂ order.id, .ok (barResult call decisionId .orderFilled (some order.id)))) := by
  unfold persistFill
  dsimp only
  -- The two ways in which a failed fill ends do not depend on where it failed.
  cases hpark : parkUnpersistedFill w.session.committed order.id decisionId with
  | error e' =>
    dsimp only
    split
    · exact .inl ⟨_, rfl⟩
    next db₁ ledger happly =>
      split
      · exact .inl ⟨_, rfl⟩
      · exact .inl ⟨_, rfl⟩
      · split
        · exact .inl ⟨_, rfl⟩
        next db₂ hconclude => exact .inr (.inr ⟨db₁, ledger, db₂, happly, hconclude, rfl⟩)
  | ok db =>
    dsimp only
    split
    · exact .inr (.inl ⟨db, _, rfl, rfl⟩)
    next db₁ ledger happly =>
      split
      · exact .inl ⟨_, rfl⟩
      · exact .inr (.inl ⟨db, _, rfl, rfl⟩)
      · split
        · exact .inr (.inl ⟨db, _, rfl, rfl⟩)
        next db₂ hconclude => exact .inr (.inr ⟨db₁, ledger, db₂, happly, hconclude, rfl⟩)

theorem persistFill_eq_ok {cfg : ServiceConfig} {w w' : World} {deployment : ExecutionDeployment}
    {env : BarEnvironment} {order : ExecutionOrder} {fillId : ℕ} {fill : FillRecord}
    {r : BarProcessResult}
    (h : persistFill cfg w deployment call env decisionId order fillId fill = (w', .ok r)) :
    ∃ db₁ ledger db₂, applyFill w.session.working
        (fillApplicationOf cfg deployment order.id fillId fill false env.now) = .ok (db₁, ledger) ∧
      concludeDecision db₁ call decisionId .orderFilled = .ok db₂ ∧
      w' = w.commitFill db₂ order.id := by
  rcases persistFill_cases cfg w deployment call env decisionId order fillId fill with
    ⟨f, heq⟩ | ⟨db, f, -, heq⟩ | ⟨db₁, ledger, db₂, happly, hconclude, heq⟩
  · rw [heq] at h
    cases h
  · rw [heq] at h
    cases h
  · rw [heq] at h
    cases h
    exact ⟨db₁, ledger, db₂, happly, hconclude, rfl⟩

/-- How a call ends once the broker has answered. -/
inductive OutcomeStep (cfg : ServiceConfig) (w : World) (db : Database) (o : ExecutionOrder)
    (answer : Option FillRecord) : World → Except Failure BarProcessResult → Prop where
  | killed : OutcomeStep cfg w db o answer w.rollback (.error .killed)
  | settled {db' r} (h : SettleWrite db o.id db') :
      OutcomeStep cfg w db o answer { w with session := ⟨db', db'⟩, reports := w.reports.flush } r
  | filled {db' r} (a : FillApplication) (ha : a.orderId = o.id) (hanswer : answer = some a.fill)
      (h : FillWrite cfg.pointValue db a db') :
      OutcomeStep cfg w db o answer (w.commitFill db' o.id) (.ok r)

variable {w : World} {deployment : ExecutionDeployment} {env : BarEnvironment} {fillId : ℕ}

theorem persistFill_step {fill : FillRecord} (hw : w.session = ⟨db, db⟩)
    (h : Prepared db call decisionId) (ho : db.getExecutionOrder o.id = some o)
    (hs : o.status = .intent)
    (hdeployment : db.accountView deployment.id = some (deployment.paperAccountId, deployment.symbol))
    (hkey : (fill.brokerMode, fill.externalFillId) ∉ db.recordedKeys) :
    OutcomeStep cfg w db o (some fill)
      (persistFill cfg w deployment call env decisionId o fillId fill).1
      (persistFill cfg w deployment call env decisionId o fillId fill).2 := by
  obtain ⟨parked, hparked, hsettle⟩ := parkUnpersistedFill_ok h ho hs
  have hpark : ∀ e : ExecutionError, OutcomeStep cfg w db o (some fill) ((w.commit parked).rollback)
      (.error (.raised e)) := by
    intro e
    have hdrop : (w.commit parked).rollback =
        { w with session := ⟨parked, parked⟩, reports := w.reports.flush } := rfl
    rw [hdrop]
    exact .settled hsettle
  unfold persistFill
  simp only [hw, hparked]
  cases hcall : applyFill db (fillApplicationOf cfg deployment o.id fillId fill false env.now) with
  | error e => exact hpark e
  | ok result =>
    obtain ⟨db₁, ledger⟩ := result
    have hfill : FillWrite cfg.pointValue db _ db₁ :=
      fillWrite_applyFill hcall hkey rfl hdeployment rfl
    cases hcrash : env.crash .beforeFillCommit with
    | none =>
      dsimp only
      cases hconclude : concludeDecision db₁ call decisionId .orderFilled with
      | error e => exact hpark e
      | ok db₂ => exact .filled _ rfl rfl (hfill.trans_frame (frame_concludeDecision hconclude))
    | some i =>
      cases i with
      | kill => exact .killed
      | raise => exact hpark _

theorem recordSubmission_step {submission : BrokerSubmissionResult} (hw : w.session = ⟨db, db⟩)
    (h : Prepared db call decisionId) (ho : db.getExecutionOrder o.id = some o)
    (hs : o.status = .intent)
    (hdeployment : db.accountView deployment.id = some (deployment.paperAccountId, deployment.symbol))
    (hkey : ∀ fill, submission.fill = some fill →
      (fill.brokerMode, fill.externalFillId) ∉ db.recordedKeys) :
    OutcomeStep cfg w db o submission.fill
      (recordSubmission cfg w deployment call env decisionId o fillId submission).1
      (recordSubmission cfg w deployment call env decisionId o fillId submission).2 := by
  unfold recordSubmission
  simp only [hw]
  split
  · obtain ⟨db₁, db₂, h₁, h₂⟩ := transition_conclude_isOk h ho hs (.inl rfl)
      { reconciliationState := some .pending, rejectionReason := some "broker outcome unknown"
        externalOrderId := submission.externalOrderId } .orderUnknown
    simp only [h₁, h₂, bind, Except.bind, World.settle]
    exact .settled ((settleWrite_park rfl h₁).trans_frame (frame_concludeDecision h₂))
  · split
    next fill _ hfill =>
      rw [hfill]
      exact persistFill_step hw h ho hs hdeployment (hkey fill hfill)
    · obtain ⟨db₁, db₂, h₁, h₂⟩ := transition_conclude_isOk h ho hs (.inr rfl)
        { rejectionReason :=
            some ((submission.rejection.map (·.message)).getD "broker rejected order")
          completedAt := some env.now } .orderRejected
      simp only [h₁, h₂, bind, Except.bind, World.settle]
      exact .settled ((settleWrite_reject ho (by simp [hs]) rfl h₁).trans_frame
        (frame_concludeDecision h₂))

end Outcome

@[simp] theorem FillReports.flush_flush (r : FillReports) : r.flush.flush = r.flush := by
  simp [flush]

/-- Read as a whole call: the intent is committed and the request was sent. -/
theorem OutcomeStep.barStep {cfg : ServiceConfig} {w w₂ w' : World} {call : BarCall}
    {env : BarEnvironment} {db : Database} {o : ExecutionOrder} {request : MarketOrderRequest}
    {answer : Option FillRecord} {r : Except Failure BarProcessResult}
    (h : OutcomeStep cfg w₂ db o answer w' r)
    (hw₂ : w₂ = ⟨⟨db, db⟩, w.nextId + 3, w.submissions ++ [⟨request, db.orders⟩],
      w.reports.flush⟩)
    (hintended : Intended w call o db) (hrequest : request.For o)
    (horigin : ∀ a : FillApplication, a.orderId = o.id → answer = some a.fill →
      SubmittedFill cfg w env a) :
    BarStep cfg w call env w' r := by
  subst hw₂
  cases h with
  | killed => exact .submitted db o request _ hintended hrequest (fun _ => rfl)
  | @settled db' _ hsettle =>
    rw [FillReports.flush_flush]
    exact .settled db o request db' r hintended hrequest hsettle
  | @filled db' r' a ha hanswer hfill =>
    simp only [World.commitFill, FillReports.flush, List.append_nil]
    exact .filled db o request db' r' a hintended hrequest ha hfill (horigin a ha hanswer)

theorem submitIntent_step {cfg : ServiceConfig} {w w₁ : World} {call : BarCall}
    {env : BarEnvironment} {db : Database} {deployment : ExecutionDeployment} {o : ExecutionOrder}
    {decisionId fillId : ℕ} (hw₁ : w₁ = ⟨⟨db, db⟩, w.nextId + 3, w.submissions, w.reports.flush⟩)
    (hids : ∀ x ∈ w.session.working.orders, x.id < w.nextId)
    (hfresh : FreshSubmission cfg w env) (hintended : Intended w call o db)
    (hprepared : Prepared db call decisionId)
    (howner : o.deploymentId = deployment.id)
    (hdeployment : db.accountView deployment.id =
      some (deployment.paperAccountId, deployment.symbol)) :
    BarStep cfg w call env (submitIntent cfg w₁ deployment call env decisionId o fillId).1
      (submitIntent cfg w₁ deployment call env decisionId o fillId).2 := by
  subst hw₁
  have ho : db.getExecutionOrder o.id = some o := by
    simp only [Database.getExecutionOrder, hintended.write.orders]
    refine lookup_append_new (lookup_eq_none.mpr (fun x hx => ?_)) rfl
    have := hids x hx
    have := hintended.id
    omega
  have hrequest : (submissionRequest deployment o).For o := ⟨rfl, howner.symm⟩
  unfold submitIntent
  cases hcrash : env.crash .afterIntentCommit with
  | some i =>
    refine .intended db o _ hintended (fun hquiet => ?_)
    cases i with
    | raise => exact absurd hcrash hquiet.afterIntentCommit
    | kill => rfl
  | none =>
    dsimp only
    cases hanswer : env.broker.submitMarketOrder (submissionRequest deployment o) cfg.costConfig with
    | error e =>
      refine .submitted db o (submissionRequest deployment o) _ hintended hrequest (fun hquiet => ?_)
      obtain ⟨sub, hsub⟩ := hquiet.broker (submissionRequest deployment o)
      rw [hanswer] at hsub
      cases hsub
    | ok submission =>
      cases hcrash' : env.crash .afterBrokerResponse with
      | some i =>
        refine .submitted db o (submissionRequest deployment o) _ hintended hrequest (fun hquiet => ?_)
        cases i with
        | raise => exact absurd hcrash' hquiet.afterBrokerResponse
        | kill => rfl
      | none =>
        have hkey : ∀ fill, submission.fill = some fill →
            (fill.brokerMode, fill.externalFillId) ∉ db.recordedKeys := by
          intro fill hfill
          rw [Database.recordedKeys, hintended.write.fills]
          refine hfresh _ submission fill ?_ ?_ hanswer hfill
          · simp [submissionRequest, hintended.id]
          · simp [submissionRequest, hintended.id]
        refine (recordSubmission_step rfl hprepared ho hintended.write.status hdeployment
          hkey).barStep rfl hintended hrequest (fun a ha hfill => ⟨ha.trans hintended.id,
            submissionRequest deployment o, submission, hintended.id, ?_, hanswer, hfill⟩)
        simp [submissionRequest, hintended.id]

theorem processCompletedBar_step {cfg : ServiceConfig} {w : World} {call : BarCall}
    {env : BarEnvironment} (hids : ∀ x ∈ w.session.working.orders, x.id < w.nextId)
    (hfresh : FreshSubmission cfg w env) :
    BarStep cfg w call env (processCompletedBar cfg w call env).1
      (processCompletedBar cfg w call env).2 := by
  unfold processCompletedBar
  dsimp only
  split
  · exact .failed _ _ le_rfl
  next deployment hdeployment =>
    have hid : deployment.id = call.deploymentId := key_of_lookup hdeployment
    split
    next hemits => exact .skipped _ (fun h => absurd h hemits)
    · split
      next existing hexisting =>
        refine .skipped _ (fun _ => ?_)
        by_contra hkey
        rw [hid, getDecisionForBar_eq_none.mpr hkey] at hexisting
        cases hexisting
      · split
        · exact .failed _ _ (by simp)
        next db outcome rejection hprepare =>
          cases prepareOrder_step hid hdeployment hprepare with
          | concluded hframe hkey => exact .concluded db _ hframe hkey
        next db o hprepare =>
          cases prepareOrder_step hid hdeployment hprepare with
          | intent hwrite hprepared =>
            split
            · exact .failed _ _ (by simp)
            · have hview : (w.session.working.accountView deployment.id).isSome := by
                simp [Database.accountView, hid, hdeployment]
              refine submitIntent_step rfl hids hfresh ⟨hwrite, rfl, ?_, hview⟩ hprepared rfl ?_
              · simp [ExecutionOrder.barKey, intentOrder, BarCall.barKey, hid]
              · rw [hwrite.accountView, hid]
                simp [Database.accountView, hdeployment]

end QBackend.Execution
