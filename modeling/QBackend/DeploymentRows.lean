import QBackend.ExecutionRuns

/-!
# What events do to deployments, decisions and orders

Only a service call makes a decision or an order or moves a persisted watermark, and only for its
own bar; only operator commands and the end of a flatten touch the other columns of a deployment. `EventRows` says
this for each event, `step_rows` that every database of the session after an event comes from one
before it in that way.
-/

namespace QBackend.Execution

open KeyedTables FallibleSteps

/-- The bars that the orders were decided on. -/
def Database.orderKeys (db : Database) : List (ℕ × Time) := db.orders.map ExecutionOrder.barKey

/-- Neither a deployment nor the bar of a decision or an order is touched. -/
structure SameRows (db db' : Database) : Prop where
  deployments : db'.deployments = db.deployments
  decisionKeys : db'.decisionKeys = db.decisionKeys
  orderKeys : db'.orderKeys = db.orderKeys

/-- The row of a deployment after one of its bars was concluded. -/
def ExecutionDeployment.concluded (t : Time) (d : ExecutionDeployment) : ExecutionDeployment :=
  { d with lastBarCloseTime := some t }

/-- What a service call may do to the rows: decide its bar, and move the watermark of its
deployment there once it is decided. -/
structure CallRows (call : BarCall) (db db' : Database) : Prop where
  deployments : db'.deployments = db.deployments ∨
    db'.deployments = modify ExecutionDeployment.id db.deployments call.deploymentId
      (ExecutionDeployment.concluded call.result.barCloseTime)
  decisionKeys : ∀ k ∈ db'.decisionKeys, k ∈ db.decisionKeys ∨ k = call.barKey
  orderKeys : ∀ k ∈ db'.orderKeys, k ∈ db.orderKeys ∨ k = call.barKey
  kept : ∀ k ∈ db.decisionKeys, k ∈ db'.decisionKeys
  decided : db'.deployments = db.deployments ∨ call.barKey ∈ db'.decisionKeys

theorem SameRows.refl (db : Database) : SameRows db db := ⟨rfl, rfl, rfl⟩

theorem SameRows.trans {db₁ db₂ db₃ : Database} (h : SameRows db₁ db₂) (h' : SameRows db₂ db₃) :
    SameRows db₁ db₃ :=
  ⟨h'.deployments.trans h.deployments, h'.decisionKeys.trans h.decisionKeys,
    h'.orderKeys.trans h.orderKeys⟩

theorem sameRows_modifyOrder (db : Database) (id : ℕ) {f : ExecutionOrder → ExecutionOrder}
    (hf : ∀ o, (f o).identity = o.identity) : SameRows db (db.modifyOrder id f) :=
  ⟨rfl, rfl, map_modify (fun o => ExecutionOrder.barKey_of_identity (hf o))⟩

section Calls

variable {call : BarCall} {db db₁ db₂ db' : Database}

theorem SameRows.callRows (h : SameRows db db') : CallRows call db db' :=
  ⟨.inl h.deployments, fun _ hk => .inl (h.decisionKeys ▸ hk),
    fun _ hk => .inl (h.orderKeys ▸ hk), fun _ hk => h.decisionKeys ▸ hk, .inl h.deployments⟩

theorem CallRows.trans (h : CallRows call db db₁) (h' : CallRows call db₁ db₂) :
    CallRows call db db₂ := by
  refine ⟨?_, fun k hk => ?_, fun k hk => ?_, fun k hk => h'.kept k (h.kept k hk), ?_⟩
  · rcases h.deployments with h₁ | h₁ <;> rcases h'.deployments with h₂ | h₂ <;> rw [h₂, h₁]
    · exact .inl rfl
    · exact .inr rfl
    · exact .inr rfl
    · refine .inr ?_
      rw [modify_modify (fun _ => by rfl)]
      rfl
  · rcases h'.decisionKeys k hk with hk | hk
    · exact h.decisionKeys k hk
    · exact .inr hk
  · rcases h'.orderKeys k hk with hk | hk
    · exact h.orderKeys k hk
    · exact .inr hk
  · rcases h'.decided with hsame | hkey
    · rw [hsame]
      exact h.decided.imp_right (h'.kept _)
    · exact .inr hkey

theorem callRows_createExecutionDecision {decisionId : ℕ}
    (h : db.createExecutionDecision (initialDecision call decisionId) = .ok db') :
    CallRows call db db' := by
  obtain ⟨-, -, rfl⟩ := frame_createExecutionDecision h
  refine ⟨.inl rfl, fun k hk => ?_, fun k hk => .inl hk, fun k hk => ?_, .inl rfl⟩
  · simp only [Database.decisionKeys, List.map_append, List.map_singleton, List.mem_append,
      List.mem_singleton] at hk
    exact hk
  · simp only [Database.decisionKeys, List.map_append]
    exact List.mem_append_left _ hk

theorem mem_decisionKeys_createExecutionDecision {decisionId : ℕ}
    (h : db.createExecutionDecision (initialDecision call decisionId) = .ok db') :
    call.barKey ∈ db'.decisionKeys := by
  obtain ⟨-, -, rfl⟩ := frame_createExecutionDecision h
  simp [Database.decisionKeys, initialDecision, BarCall.barKey]

theorem callRows_updateDeploymentLastBarClose (hkey : call.barKey ∈ db.decisionKeys)
    (h : db.updateDeploymentLastBarClose call.deploymentId call.result.barCloseTime = .ok db') :
    CallRows call db db' := by
  unfold Database.updateDeploymentLastBarClose at h
  split at h
  · cases h
  · cases h
    exact ⟨.inr rfl, fun k hk => .inl hk, fun k hk => .inl hk, fun k hk => hk, .inr hkey⟩

theorem sameRows_updateExecutionDecisionOutcome {id : ℕ} {outcome : DecisionOutcome}
    (h : db.updateExecutionDecisionOutcome id outcome = .ok db') : SameRows db db' := by
  unfold Database.updateExecutionDecisionOutcome at h
  split at h
  · cases h
  · cases h
    exact ⟨rfl, map_modify (fun _ => rfl), rfl⟩

theorem sameRows_transitionExecutionOrder {id : ℕ} {target : ExecutionOrderStatus}
    {u : Database.OrderUpdate} (h : db.transitionExecutionOrder id target u = .ok db') :
    SameRows db db' := by
  obtain ⟨-, -, -, rfl⟩ := transitionExecutionOrder_ok h
  exact sameRows_modifyOrder db id (fun _ => rfl)

theorem sameRows_applyFill {a : FillApplication} {r : LedgerApplyResult}
    (h : applyFill db a = .ok (db', r)) : SameRows db db' := by
  rcases applyFill_ok h with ⟨_, -, -, hdb⟩ | ⟨-, _, _, _, _, _, _, _, _, hdb, -⟩
  · rw [hdb]
    exact .refl db
  · rw [hdb]
    exact ⟨rfl, rfl, map_modify (fun _ => rfl)⟩

theorem callRows_concludeDecision {decisionId : ℕ} {outcome : DecisionOutcome}
    (hkey : call.barKey ∈ db.decisionKeys)
    (h : concludeDecision db call decisionId outcome = .ok db') : CallRows call db db' := by
  simp only [concludeDecision, bind_eq_ok] at h
  obtain ⟨mid, hmid, h⟩ := h
  have hsame := sameRows_updateExecutionDecisionOutcome hmid
  exact hsame.callRows.trans
    (callRows_updateDeploymentLastBarClose (hsame.decisionKeys ▸ hkey) h)

/-- The tables that a preparation commits first. -/
def Preparation.database : Preparation → Database
  | .concluded db _ _ => db
  | .intent db _ => db

theorem callRows_gateOrder {cfg : ServiceConfig} {deployment : ExecutionDeployment}
    {env : BarEnvironment} {decisionId orderId : ℕ} {side : ExecutionSide} {quantity : ℚ}
    {p : Preparation} (hid : deployment.id = call.deploymentId)
    (hkey : call.barKey ∈ db.decisionKeys)
    (h : gateOrder cfg db deployment call env decisionId orderId side quantity = .ok p) :
    CallRows call db p.database := by
  unfold gateOrder at h
  split at h
  · cases h
  · simp only [bind_eq_ok] at h
    obtain ⟨snapshot, -, h⟩ := h
    split at h
    · simp only [bind_eq_ok, pure_eq_ok] at h
      obtain ⟨db₁, hconclude, rfl⟩ := h
      have hrisk : ∀ event, SameRows db (db.recordRiskEvent event) := fun _ => ⟨rfl, rfl, rfl⟩
      exact (hrisk _).callRows.trans (callRows_concludeDecision hkey hconclude)
    · simp only [pure_eq_ok] at h
      subst h
      refine ⟨.inl rfl, fun k hk => .inl hk, fun k hk => ?_, fun k hk => hk, .inl rfl⟩
      simp only [Preparation.database, Database.createExecutionOrderIntent, Database.orderKeys,
        List.map_append, List.map_singleton, List.mem_append, List.mem_singleton] at hk
      refine hk.imp_right (fun heq => heq.trans ?_)
      simp [ExecutionOrder.barKey, intentOrder, BarCall.barKey, hid]

theorem decided_prepareOrder {cfg : ServiceConfig} {deployment : ExecutionDeployment}
    {env : BarEnvironment} {decisionId orderId : ℕ} {p : Preparation}
    (hid : deployment.id = call.deploymentId)
    (h : prepareOrder cfg db deployment call env decisionId orderId = .ok p) :
    ∃ db₁, db.createExecutionDecision (initialDecision call decisionId) = .ok db₁ ∧
      CallRows call db₁ p.database := by
  simp only [prepareOrder, bind_eq_ok] at h
  obtain ⟨db₁, h₁, h⟩ := h
  have hkey := mem_decisionKeys_createExecutionDecision h₁
  refine ⟨db₁, h₁, ?_⟩
  split at h
  · simp only [bind_eq_ok, pure_eq_ok] at h
    obtain ⟨db₂, h₂, rfl⟩ := h
    exact callRows_updateDeploymentLastBarClose hkey h₂
  · split at h
    · split at h
      · simp only [bind_eq_ok, pure_eq_ok] at h
        obtain ⟨db₂, h₂, rfl⟩ := h
        exact (sameRows_updateExecutionDecisionOutcome h₂).callRows
      · exact callRows_gateOrder hid hkey h
    · split at h
      · simp only [bind_eq_ok, pure_eq_ok] at h
        obtain ⟨db₂, h₂, rfl⟩ := h
        exact callRows_concludeDecision hkey h₂
      · exact callRows_gateOrder hid hkey h

theorem callRows_prepareOrder {cfg : ServiceConfig} {deployment : ExecutionDeployment}
    {env : BarEnvironment} {decisionId orderId : ℕ} {p : Preparation}
    (hid : deployment.id = call.deploymentId)
    (h : prepareOrder cfg db deployment call env decisionId orderId = .ok p) :
    CallRows call db p.database ∧ call.barKey ∈ p.database.decisionKeys := by
  obtain ⟨db₁, h₁, hrows⟩ := decided_prepareOrder hid h
  exact ⟨(callRows_createExecutionDecision h₁).trans hrows,
    hrows.kept _ (mem_decisionKeys_createExecutionDecision h₁)⟩

end Calls

/-! ## Sessions -/

/-- A property of both databases of a session. -/
structure World.Both (P : Database → Prop) (w : World) : Prop where
  committed : P w.session.committed
  working : P w.session.working

/-- The session holds one database after the call, written over one of the two before it. -/
def World.Wrote (call : BarCall) (w w' : World) : Prop :=
  ∃ db, w'.session = ⟨db, db⟩ ∧
    (CallRows call w.session.committed db ∨ CallRows call w.session.working db)

section Sessions

variable {P : Database → Prop} {cfg : ServiceConfig} {w w' : World} {call : BarCall}
  {env : BarEnvironment} {deployment : ExecutionDeployment} {decisionId fillId : ℕ}
  {order : ExecutionOrder}

theorem World.Both.of_eq {db : Database} (hw : w.session = ⟨db, db⟩) (h : P db) : w.Both P := by
  constructor <;> rw [hw] <;> exact h

theorem World.Wrote.committed (hw : w'.session = ⟨w.session.committed, w.session.committed⟩) :
    w.Wrote call w' :=
  ⟨w.session.committed, hw, .inl (SameRows.refl _).callRows⟩

theorem World.Wrote.after {db : Database} (hdb : CallRows call w.session.working db)
    {w₁ : World} (hw₁ : w₁.session = ⟨db, db⟩) (h : w₁.Wrote call w') : w.Wrote call w' := by
  obtain ⟨db', hw', hrows⟩ := h
  rw [hw₁] at hrows
  exact ⟨db', hw', .inr (hdb.trans (hrows.elim id id))⟩

theorem wrote_persistFill {fill : FillRecord} (hkey : call.barKey ∈ w.session.working.decisionKeys) :
    w.Wrote call (persistFill cfg w deployment call env decisionId order fillId fill).1 := by
  rcases persistFill_cases cfg w deployment call env decisionId order fillId fill with
    ⟨f, heq⟩ | ⟨db, f, hdb, heq⟩ | ⟨db₁, ledger, db₂, hfill, hconclude, heq⟩
  · rw [heq]
    exact .committed rfl
  · rw [heq]
    simp only [parkUnpersistedFill, bind_eq_ok] at hdb
    obtain ⟨mid, hmid, hdb⟩ := hdb
    have hsame := (sameRows_transitionExecutionOrder hmid).trans
      (sameRows_updateExecutionDecisionOutcome hdb)
    exact ⟨db, rfl, .inl hsame.callRows⟩
  · rw [heq]
    have hsame := sameRows_applyFill hfill
    exact ⟨db₂, rfl, .inr (hsame.callRows.trans
      (callRows_concludeDecision (hsame.decisionKeys ▸ hkey) hconclude))⟩

theorem wrote_settle {result : Except ExecutionError Database} {r : BarProcessResult}
    (hresult : ∀ db, result = .ok db → CallRows call w.session.working db) :
    w.Wrote call (w.settle result r).1 := by
  cases result with
  | error e => exact .committed rfl
  | ok db => exact ⟨db, rfl, .inr (hresult db rfl)⟩

theorem wrote_recordSubmission {submission : BrokerSubmissionResult}
    (hkey : call.barKey ∈ w.session.working.decisionKeys) :
    w.Wrote call
      (recordSubmission cfg w deployment call env decisionId order fillId submission).1 := by
  have hwrite : ∀ {target u outcome db}, (do
      let db ← w.session.working.transitionExecutionOrder order.id target u
      concludeDecision db call decisionId outcome) = .ok db →
      CallRows call w.session.working db := by
    intro target u outcome db hdb
    simp only [bind_eq_ok] at hdb
    obtain ⟨mid, hmid, hdb⟩ := hdb
    have hsame := sameRows_transitionExecutionOrder hmid
    exact hsame.callRows.trans (callRows_concludeDecision (hsame.decisionKeys ▸ hkey) hdb)
  unfold recordSubmission
  split
  · exact wrote_settle fun db hdb => hwrite hdb
  · split
    · exact wrote_persistFill hkey
    · exact wrote_settle fun db hdb => hwrite hdb

theorem wrote_processCompletedBar (cfg : ServiceConfig) (w : World) (call : BarCall)
    (env : BarEnvironment) : (processCompletedBar cfg w call env).1 = w ∨
      w.Wrote call (processCompletedBar cfg w call env).1 := by
  unfold processCompletedBar
  dsimp only
  split
  · exact .inr (.committed rfl)
  next deployment hdeployment =>
    have hid : deployment.id = call.deploymentId := key_of_lookup hdeployment
    split
    · exact .inl rfl
    · split
      · exact .inl rfl
      · right
        split
        · exact .committed rfl
        next hprepare => exact ⟨_, rfl, .inr (callRows_prepareOrder hid hprepare).1⟩
        next db order hprepare =>
          obtain ⟨hdb, hkey⟩ := callRows_prepareOrder hid hprepare
          split
          · exact .committed rfl
          · unfold submitIntent
            split
            · exact .after hdb rfl (.committed rfl)
            · dsimp only
              split
              · exact .after hdb rfl (.committed rfl)
              · split
                · exact .after hdb rfl (.committed rfl)
                · exact .after hdb rfl (wrote_recordSubmission hkey)

theorem both_processCompletedBar (hP : ∀ db db', CallRows call db db' → P db → P db')
    (h : w.Both P) : (processCompletedBar cfg w call env).1.Both P := by
  rcases wrote_processCompletedBar cfg w call env with heq | ⟨db, hw, hrows | hrows⟩
  · rw [heq]
    exact h
  · exact .of_eq hw (hP _ _ hrows h.committed)
  · exact .of_eq hw (hP _ _ hrows h.working)

end Sessions

/-! ## Other events -/

section Resolutions

variable {cfg : ServiceConfig} {db db' : Database} {order : ExecutionOrder}
  {deployment : ExecutionDeployment} {fillId : ℕ} {reconciledBy : String} {detail : Option String}
  {at_ : Time}

theorem sameRows_finalizeOrderReconciliation {id : ℕ}
    (h : db.finalizeOrderReconciliation id reconciledBy detail at_ = .ok db') : SameRows db db' := by
  obtain ⟨g, rfl, hg⟩ := finalizeOrderReconciliation_ok h
  exact sameRows_modifyOrder db id (fun o => (hg o).1)

theorem sameRows_recordDecisionOutcome {outcome : DecisionOutcome}
    (h : recordDecisionOutcome db order outcome = .ok db') : SameRows db db' := by
  unfold recordDecisionOutcome at h
  split at h
  · cases h
    exact .refl _
  · exact sameRows_updateExecutionDecisionOutcome h

theorem sameRows_applyFilledResolution {fill : FillRecord}
    (h : applyFilledResolution cfg db order deployment fill fillId reconciledBy detail at_ = .ok db') :
    SameRows db db' := by
  simp only [applyFilledResolution, bind_eq_ok] at h
  obtain ⟨⟨db₁, r⟩, h₁, db₂, h₂, h₃⟩ := h
  exact ((sameRows_applyFill h₁).trans (sameRows_finalizeOrderReconciliation h₂)).trans
    (sameRows_recordDecisionOutcome h₃)

theorem sameRows_applyFailedResolution {reason : String}
    (h : applyFailedResolution db order reconciledBy detail reason at_ = .ok db') :
    SameRows db db' := by
  simp only [applyFailedResolution, bind_eq_ok] at h
  obtain ⟨db₁, h₁, db₂, h₂, h₃⟩ := h
  exact ((sameRows_transitionExecutionOrder h₁).trans (sameRows_finalizeOrderReconciliation h₂)).trans
    (sameRows_recordDecisionOutcome h₃)

theorem sameRows_recordReconciliationAttempt {id : ℕ} {error : String}
    (h : db.recordReconciliationAttempt id at_ error = .ok db') : SameRows db db' := by
  obtain ⟨f, rfl, hf⟩ := recordReconciliationAttempt_ok h
  exact sameRows_modifyOrder db id (fun o => (hf o).1)

theorem sameRows_reconcileOrder {broker : ExecutionBroker} {now : Time}
    {outcome : ReconciliationOutcome}
    (h : reconcileOrder cfg broker now db order deployment fillId = .ok (db', outcome)) :
    SameRows db db' := by
  simp only [reconcileOrder, bind_eq_ok] at h
  obtain ⟨state, -, h⟩ := h
  split at h
  · split at h
    all_goals
      simp only [bind_eq_ok, pure_eq_ok, Prod.mk.injEq] at h
      obtain ⟨mid, hmid, rfl, -⟩ := h
    · exact sameRows_recordReconciliationAttempt hmid
    · exact sameRows_applyFilledResolution hmid
  all_goals
    simp only [bind_eq_ok, pure_eq_ok, Prod.mk.injEq] at h
    obtain ⟨mid, hmid, rfl, -⟩ := h
  · exact sameRows_applyFailedResolution hmid
  · exact sameRows_applyFailedResolution hmid
  · exact sameRows_recordReconciliationAttempt hmid

theorem sameRows_reconcileOrders {broker : ExecutionBroker} {now : Time}
    {orders : List ExecutionOrder} {n n' : ℕ} {outcomes : List ReconciliationOutcome}
    (h : reconcileOrders cfg broker now orders db n = .ok (db', n', outcomes)) : SameRows db db' := by
  induction orders generalizing db n n' outcomes with
  | nil =>
    cases h
    exact .refl _
  | cons order rest ih =>
    unfold reconcileOrders at h
    split at h
    · exact ih h
    · simp only [bind_eq_ok, pure_eq_ok, Prod.mk.injEq] at h
      obtain ⟨⟨db₁, outcome⟩, h₁, ⟨db₂, n₂, rest'⟩, h₂, rfl, rfl, rfl⟩ := h
      exact (sameRows_reconcileOrder h₁).trans (ih h₂)

theorem sameRows_resolveOrder {orderId : ℕ} {body : OrderResolutionRequest} {now : Time}
    {outcome : ReconciliationOutcome}
    (h : resolveOrder cfg db orderId body fillId now = .ok (db', outcome)) : SameRows db db' := by
  unfold resolveOrder at h
  split at h
  · cases h
  · split at h
    · cases h
    · simp only [resolveOrderManually, bind_eq_ok] at h
      obtain ⟨-, -, h⟩ := h
      split at h
      · split at h
        · cases h
        · simp only [bind_eq_ok, pure_eq_ok, Prod.mk.injEq] at h
          obtain ⟨mid, hmid, rfl, -⟩ := h
          exact sameRows_applyFilledResolution hmid
      · simp only [bind_eq_ok, pure_eq_ok, Prod.mk.injEq] at h
        obtain ⟨mid, hmid, rfl, -⟩ := h
        exact sameRows_applyFailedResolution hmid

theorem sameRows_markOrdersUnknown {reason : String} {orders : List ExecutionOrder}
    (h : Database.markOrdersUnknown reason orders db = .ok db') : SameRows db db' := by
  induction orders generalizing db with
  | nil =>
    cases h
    exact .refl _
  | cons order rest ih =>
    simp only [Database.markOrdersUnknown, bind_eq_ok] at h
    obtain ⟨mid, hmid, h⟩ := h
    exact (sameRows_transitionExecutionOrder hmid).trans (ih h)

theorem sameRows_markDeployments {deployments : List ExecutionDeployment} {total : ℕ}
    (h : markDeployments deployments db = .ok (db', total)) : SameRows db db' := by
  induction deployments generalizing db total with
  | nil =>
    cases h
    exact .refl _
  | cons deployment rest ih =>
    simp only [markDeployments, Database.markIncompleteOrdersUnknown, bind_eq_ok, pure_eq_ok,
      Prod.mk.injEq] at h
    obtain ⟨⟨db₁, marked⟩, ⟨mid, hmid, rfl, rfl⟩, ⟨db₂, total'⟩, hrest, rfl, -⟩ := h
    exact (sameRows_markOrdersUnknown hmid).trans (ih hrest)

theorem sameRows_recover {quotes : String → Option ExecutableQuote} {now : Time}
    {result : RecoveryResult} (h : recover db quotes now = .ok (db', result)) : SameRows db db' := by
  simp only [recover, bind_eq_ok] at h
  obtain ⟨⟨db₁, marked⟩, hmark, h⟩ := h
  have hreleased : SameRows db (db.releaseExpiredLeases now) := ⟨rfl, rfl, rfl⟩
  have hrows := hreleased.trans (sameRows_markDeployments hmark)
  split at h
  all_goals
    simp only [pure_eq_ok, Prod.mk.injEq] at h
    obtain ⟨rfl, -⟩ := h
    exact hrows

theorem sameRows_acquireWorkerLease {d : ℕ} {workerId token : String} {ttl now : Time}
    (h : db.acquireWorkerLease d workerId token ttl now = .ok db') : SameRows db db' := by
  unfold Database.acquireWorkerLease at h
  split at h
  · split at h
    · cases h
    · cases h
      exact ⟨rfl, rfl, rfl⟩
  · cases h
    exact ⟨rfl, rfl, rfl⟩

theorem sameRows_heartbeatWorkerLease {d : ℕ} {workerId token : String} {ttl now : Time}
    (h : db.heartbeatWorkerLease d workerId token ttl now = .ok db') : SameRows db db' := by
  unfold Database.heartbeatWorkerLease at h
  split at h
  · cases h
  · split at h
    · cases h
    · cases h
      exact ⟨rfl, rfl, rfl⟩

theorem sameRows_releaseWorkerLease {d : ℕ} {workerId token : String}
    (h : db.releaseWorkerLease d workerId token = .ok db') : SameRows db db' := by
  unfold Database.releaseWorkerLease at h
  split at h
  · cases h
    exact .refl _
  · split at h
    · cases h
    · cases h
      exact ⟨rfl, rfl, rfl⟩

end Resolutions

/-- What an event may do to the rows of a database. -/
def EventRows (db db' : Database) : Event → Prop
  | .processBar call _ => CallRows call db db'
  | .operate command => command.apply db = .ok db' ∨ db' = db
  | .clearPending id => db.clearPendingDeploymentAction id = .ok db' ∨ db' = db
  | _ => SameRows db db'

theorem both_amend {P : Database → Prop} {w : World} {result : Except ExecutionError Database}
    (h : w.Both P) (hresult : ∀ db, result = .ok db → P db) : (w.amend result).Both P := by
  cases result with
  | error e => exact h
  | ok db => exact ⟨h.committed, hresult db rfl⟩

/-- A property that the rows of an event keep is kept by the event. -/
theorem both_step {P : Database → Prop} (cfg : ServiceConfig) {w : World} {e : Event}
    (hP : ∀ db db', EventRows db db' e → P db → P db') (h : w.Both P) : (step cfg w e).Both P := by
  cases e with
  | processBar call env => exact both_processCompletedBar hP h
  | startup quotes now =>
    simp only [step]
    split
    · exact .of_eq rfl h.committed
    next hrecover => exact .of_eq rfl (hP _ _ (sameRows_recover hrecover) h.committed)
  | reconcile d broker now =>
    simp only [step]
    split
    · exact .of_eq rfl h.committed
    next hpass => exact ⟨h.committed, hP _ _ (sameRows_reconcileOrders hpass) h.working⟩
  | resolve id body now =>
    simp only [step]
    split
    · split
      · exact h
      next hresolve => exact .of_eq rfl (hP _ _ (sameRows_resolveOrder hresolve) h.committed)
    · exact h
  | operate command =>
    simp only [step]
    split
    · split
      · exact h
      next hcommand => exact .of_eq rfl (hP _ _ (.inl hcommand) h.committed)
    · exact h
  | acquireLease d token ttl now =>
    exact both_amend h (fun db hdb => hP _ _ (sameRows_acquireWorkerLease hdb) h.working)
  | heartbeatLease d token ttl now =>
    exact both_amend h (fun db hdb => hP _ _ (sameRows_heartbeatWorkerLease hdb) h.working)
  | releaseLease d token =>
    exact both_amend h (fun db hdb => hP _ _ (sameRows_releaseWorkerLease hdb) h.working)
  | clearPending d => exact both_amend h (fun db hdb => hP _ _ (.inl hdb) h.working)
  | commit => exact .of_eq rfl h.working
  | restart => exact .of_eq rfl h.committed

end QBackend.Execution
