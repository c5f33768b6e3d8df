import QBackend.OrderStacking

/-!
# Pending flattens

A poll clears the request to flatten a deployment after any call of `flatten_deployment` that
returns, whatever its outcome, and it comes to the requests only when some leased deployment is
running. A request is kept until the position is flat when the order passes the gate and is filled.
-/

namespace QBackend.Execution

open KeyedTables FallibleSteps StatefulActions RunInvariants

/-! ## The request -/

/-- The net position is flat, as `execution_position_to_trade` reads it. -/
def Holding.IsFlat (h : Holding) : Prop := h.side = .flat ∨ h.quantity ≤ 0

instance (h : Holding) : Decidable h.IsFlat := inferInstanceAs (Decidable (_ ∨ _))

def Database.pendingFlatten (db : Database) (id : ℕ) : Bool :=
  (db.getExecutionDeployment id).any (·.pendingFlatten)

theorem Database.pendingFlatten_modify {db : Database} {id id' : ℕ}
    {f : ExecutionDeployment → ExecutionDeployment} (hid : ∀ d, (f d).id = d.id)
    (hf : ∀ d, d.pendingFlatten = true → (f d).pendingFlatten = true) (h : db.pendingFlatten id = true) :
    Database.pendingFlatten { db with deployments := modify ExecutionDeployment.id db.deployments id' f }
      id = true := by
  unfold pendingFlatten getExecutionDeployment at *
  dsimp only
  by_cases hsame : id = id'
  · subst hsame
    rw [lookup_modify_self hid, Option.any_map]
    cases hrow : lookup ExecutionDeployment.id db.deployments id with
    | none => simp [hrow] at h
    | some d =>
      rw [hrow] at h
      exact hf d h
  · rw [lookup_modify_of_ne hid hsame]
    exact h

/-- Only `clear_pending_deployment_action` for the deployment takes a request back. -/
theorem Database.pendingFlatten_event {db db' : Database} {id : ℕ} {e : Event}
    (he : e ≠ .clearPending id) (hrows : EventRows db db' e) (h : db.pendingFlatten id = true) :
    db'.pendingFlatten id = true := by
  have hsame : db'.deployments = db.deployments → db'.pendingFlatten id = true := by
    intro heq
    rw [pendingFlatten, getExecutionDeployment, heq]
    exact h
  cases e with
  | processBar call env =>
    rcases hrows.deployments with heq | heq
    · exact hsame heq
    · rw [pendingFlatten, getExecutionDeployment, heq]
      exact pendingFlatten_modify (fun _ => rfl) (fun _ hd => hd) h
  | operate command =>
    rcases hrows with hcommand | rfl
    · cases command with
      | transition id target =>
        simp only [OperatorCommand.apply, Database.transitionDeploymentLifecycle] at hcommand
        split at hcommand
        · cases hcommand
        · simp only [bind_eq_ok, pure_eq_ok] at hcommand
          obtain ⟨_, -, rfl⟩ := hcommand
          exact pendingFlatten_modify (fun _ => rfl) (fun _ hd => hd) h
      | requestFlatten id =>
        simp only [OperatorCommand.apply, Database.setPendingFlatten] at hcommand
        split at hcommand
        · cases hcommand
        · cases hcommand
          exact pendingFlatten_modify (fun _ => rfl) (fun _ _ => rfl) h
      | setKillSwitch enabled =>
        cases hcommand
        exact h
    · exact h
  | clearPending id' =>
    have hne : id ≠ id' := fun heq => he (heq ▸ rfl)
    rcases hrows with hclear | rfl
    · unfold Database.clearPendingDeploymentAction at hclear
      split at hclear
      · cases hclear
      · cases hclear
        unfold pendingFlatten getExecutionDeployment at *
        dsimp only
        rw [lookup_modify_of_ne (fun _ => by rfl) hne]
        exact h
    · exact h
  | _ => exact hsame hrows.deployments

/-! ## The order of a flatten -/

theorem isFlat_iff_mapSignalToOrder {h : Holding} :
    h.IsFlat ↔ mapSignalToOrder .close h.side h.quantity none = none := by
  obtain ⟨side, quantity, entry⟩ := h
  cases side <;> simp [mapSignalToOrder, Holding.IsFlat]

theorem transitionPosition_flattens {h : Holding} {side : ExecutionSide} {quantity price : ℚ}
    {t : PositionTransition}
    (hmap : mapSignalToOrder .close h.side h.quantity none = some (side, quantity))
    (ht : transitionPosition h side quantity price = .ok t) : t.holding = .flat := by
  obtain ⟨hside, q, entry⟩ := h
  have hq : 0 < q := by
    by_contra hneg
    simp [mapSignalToOrder, hneg] at hmap
  have hne : q ≠ 0 := hq.ne'
  cases hside <;> simp [mapSignalToOrder, hq] at hmap
  all_goals
    obtain ⟨rfl, rfl⟩ := hmap
    simp [transitionPosition, hne, isSameSideAdd, isReducing] at ht
    subst ht
    simp [PositionTransition.holding]

theorem concludeDecision_positions {db db' : Database} {call : BarCall} {decisionId : ℕ}
    {outcome : DecisionOutcome} (h : concludeDecision db call decisionId outcome = .ok db') :
    db'.holding = db.holding :=
  congrArg Books.holding (frame_concludeDecision h).books

/-- The order of a flatten goes through: no decision stands at the time of the clock, the gate lets
it pass, and a broker that answers fills all of it under a new external id. -/
structure FlattenFills (cfg : ServiceConfig) (db : Database) (orderId id : ℕ) (leaseToken : String)
    (env : BarEnvironment) : Prop where
  undecided : db.getDecisionForBar id env.now = none
  gate : ∀ deployment account side quantity snapshot,
    db.getExecutionDeployment id = some deployment →
    db.getPaperAccount deployment.paperAccountId = some account →
    mapSignalToOrder .close (db.holding id).side (db.holding id).quantity none = some (side, quantity) →
    accountSnapshot db account.id deployment.id deployment.symbol (env.quotes deployment.symbol)
      cfg.pointValue env.now = .ok snapshot →
    (riskContextOf cfg db deployment account (flattenCall id leaseToken env.now) env side quantity
      snapshot).evaluate = none
  broker : ∀ deployment order sub, db.getExecutionDeployment id = some deployment →
    order.id = orderId →
    mapSignalToOrder .close (db.holding id).side (db.holding id).quantity none =
      some (order.side, order.quantity) →
    env.broker.submitMarketOrder (submissionRequest deployment order) cfg.costConfig = .ok sub →
    sub.accepted = true ∧ ∃ fill, sub.fill = some fill ∧ fill.side = order.side ∧
      fill.quantity = order.quantity ∧ (fill.brokerMode, fill.externalFillId) ∉ db.recordedKeys

/-- There is nothing to flatten, or the order goes through. -/
def FlattenSettles (cfg : ServiceConfig) (w : World) (id : ℕ) (leaseToken : String)
    (env : BarEnvironment) : Prop :=
  (w.session.working.holding id).IsFlat ∨
    FlattenFills cfg w.session.working (w.nextId + 1) id leaseToken env

section Call

variable {cfg : ServiceConfig} {w w' : World} {id : ℕ} {leaseToken : String} {env : BarEnvironment}
  {deployment : ExecutionDeployment} {db : Database} {order : ExecutionOrder}
  {decisionId fillId : ℕ} {r : BarProcessResult}

theorem holding_applyFill {a : FillApplication} {result : LedgerApplyResult} {db' : Database}
    {side : ExecutionSide} {quantity : ℚ} (h : applyFill db a = .ok (db', result))
    (hkey : a.externalKey ∉ db.recordedKeys)
    (hmap : mapSignalToOrder .close (db.holding a.deploymentId).side
      (db.holding a.deploymentId).quantity none = some (side, quantity))
    (hside : a.fill.side = side) (hquantity : a.fill.quantity = quantity) :
    (db'.holding a.deploymentId) = .flat := by
  rcases applyFill_ok h with ⟨_, hfound, -⟩ | ⟨-, hr, _, t, _, -, ht, -⟩
  · rw [getExecutionFillByExternalId_eq_none.mpr hkey] at hfound
    cases hfound
  · have hbooks := congrArg Books.holding (applyFill_books h hr)
    rw [hside, hquantity] at ht
    have hflat := transitionPosition_flattens hmap ht
    have hpost : (db.books.post a).holding a.deploymentId = t.holding := by
      simp [Books.post, Database.books, hside, hquantity, ht]
    rw [← hflat, ← hpost, ← hbooks]
    rfl

/-- The fill of a flatten order, when the call returns. -/
theorem persistFill_flattens {call : BarCall} {fill : FillRecord} (hid : deployment.id = id)
    (hkey : (fill.brokerMode, fill.externalFillId) ∉ w.session.working.recordedKeys)
    (hmap : mapSignalToOrder .close (w.session.working.holding id).side
      (w.session.working.holding id).quantity none = some (fill.side, fill.quantity))
    (h : persistFill cfg w deployment call env decisionId order fillId fill = (w', .ok r)) :
    (w'.session.working.holding id) = .flat := by
  obtain ⟨db₁, ledger, db₂, hfill, hconclude, rfl⟩ := persistFill_eq_ok h
  show db₂.holding id = .flat
  rw [concludeDecision_positions hconclude]
  subst hid
  exact holding_applyFill hfill hkey hmap rfl rfl

theorem recordSubmission_flattens {call : BarCall} {sub : BrokerSubmissionResult}
    (hid : deployment.id = id) (haccepted : sub.accepted = true) {fill : FillRecord}
    (hfill : sub.fill = some fill)
    (hkey : (fill.brokerMode, fill.externalFillId) ∉ w.session.working.recordedKeys)
    (hmap : mapSignalToOrder .close (w.session.working.holding id).side
      (w.session.working.holding id).quantity none = some (fill.side, fill.quantity))
    (h : recordSubmission cfg w deployment call env decisionId order fillId sub = (w', .ok r)) :
    (w'.session.working.holding id) = .flat := by
  unfold recordSubmission at h
  have hknown : sub.outcome ≠ .unknown := by
    intro hunknown
    simp [BrokerSubmissionResult.accepted, hunknown] at haccepted
  rw [if_neg hknown] at h
  simp only [haccepted, hfill] at h
  exact persistFill_flattens hid hkey hmap h

theorem prepareOrder_flatten {orderId : ℕ} {p : Preparation} (hid : deployment.id = id)
    (h : prepareOrder cfg db deployment (flattenCall id leaseToken env.now) env decisionId orderId =
      .ok p) :
    ((db.holding id).IsFlat ∧ ∃ db', p = .concluded db' .hold none ∧ db'.holding = db.holding) ∨
    ∃ decision side quantity,
      mapSignalToOrder .close (db.holding id).side (db.holding id).quantity none =
        some (side, quantity) ∧
      gateOrder cfg { db with decisions := db.decisions ++ [decision] } deployment
        (flattenCall id leaseToken env.now) env decisionId orderId side quantity = .ok p := by
  subst hid
  simp only [prepareOrder, bind_eq_ok] at h
  obtain ⟨db₁, h₁, h⟩ := h
  obtain ⟨-, -, rfl⟩ := frame_createExecutionDecision h₁
  simp only [flattenCall, reduceCtorEq, false_and, if_false, if_true] at h
  split at h
  next hnone =>
    simp only [bind_eq_ok, pure_eq_ok] at h
    obtain ⟨db₂, h₂, rfl⟩ := h
    refine .inl ⟨isFlat_iff_mapSignalToOrder.mpr hnone, db₂, rfl, ?_⟩
    exact congrArg Books.holding (frame_updateExecutionDecisionOutcome h₂).books
  next side quantity hmap => exact .inr ⟨_, side, quantity, hmap, h⟩

theorem gateOrder_flatten {orderId : ℕ} {p : Preparation} {decision : ExecutionDecision}
    {side : ExecutionSide} {quantity : ℚ} (hfills : FlattenFills cfg db orderId id leaseToken env)
    (hdeployment : db.getExecutionDeployment id = some deployment)
    (hmap : mapSignalToOrder .close (db.holding id).side (db.holding id).quantity none =
      some (side, quantity))
    (h : gateOrder cfg { db with decisions := db.decisions ++ [decision] } deployment
      (flattenCall id leaseToken env.now) env decisionId orderId side quantity = .ok p) :
    ∃ db', p = .intent db' (intentOrder deployment (flattenCall id leaseToken env.now) decisionId
      orderId side quantity) ∧ db'.holding = db.holding ∧ db'.recordedKeys = db.recordedKeys := by
  unfold gateOrder at h
  split at h
  · cases h
  next account haccount =>
    simp only [bind_eq_ok] at h
    obtain ⟨snapshot, hsnapshot, h⟩ := h
    have hpass := hfills.gate deployment account side quantity snapshot hdeployment haccount hmap hsnapshot
    split at h
    next rejection hrejected =>
      have hsome : (riskContextOf cfg db deployment account (flattenCall id leaseToken env.now) env side
          quantity snapshot).evaluate = some rejection := hrejected
      rw [hpass] at hsome
      cases hsome
    · simp only [pure_eq_ok] at h
      exact ⟨_, h.symm, rfl, rfl⟩

theorem submitIntent_flattens {call : BarCall} (hid : deployment.id = id)
    (hfills : FlattenFills cfg db order.id id leaseToken env)
    (hdeployment : db.getExecutionDeployment id = some deployment)
    (hmap : mapSignalToOrder .close (db.holding id).side (db.holding id).quantity none =
      some (order.side, order.quantity))
    (hholding : w.session.working.holding = db.holding)
    (hkeys : w.session.working.recordedKeys = db.recordedKeys)
    (h : submitIntent cfg w deployment call env decisionId order fillId = (w', .ok r)) :
    w'.session.working.holding id = .flat := by
  unfold submitIntent at h
  split at h
  · cases h
  · dsimp only at h
    split at h
    · cases h
    next sub hsub =>
      obtain ⟨haccepted, fill, hfill, hside, hquantity, hkey⟩ :=
        hfills.broker deployment order sub hdeployment rfl hmap hsub
      split at h
      · cases h
      · refine recordSubmission_flattens hid haccepted hfill ?_ ?_ h
        · show (fill.brokerMode, fill.externalFillId) ∉ w.session.working.recordedKeys
          rw [hkeys]
          exact hkey
        · show mapSignalToOrder .close (w.session.working.holding id).side
            (w.session.working.holding id).quantity none = _
          rw [hholding, hside, hquantity]
          exact hmap

/-- A flatten call that returns leaves a flat position, when there was nothing to flatten or its
order went through. -/
theorem flattenCall_flat (hsettles : FlattenSettles cfg w id leaseToken env)
    (h : processCompletedBar cfg w (flattenCall id leaseToken env.now) env = (w', .ok r)) :
    (w'.session.working.holding id).IsFlat := by
  unfold processCompletedBar at h
  dsimp only at h
  split at h
  · cases h
  next deployment hdeployment =>
    have hid : deployment.id = id := key_of_lookup hdeployment
    -- an order is only mapped from a position that is not flat
    have hfills : ∀ {side quantity}, mapSignalToOrder .close (w.session.working.holding id).side
        (w.session.working.holding id).quantity none = some (side, quantity) →
        FlattenFills cfg w.session.working (w.nextId + 1) id leaseToken env := by
      intro side quantity hmap
      refine hsettles.resolve_left (fun hdone => ?_)
      rw [isFlat_iff_mapSignalToOrder.mp hdone] at hmap
      cases hmap
    split at h
    next hsilent => exact absurd rfl hsilent
    · split at h
      next existing hexisting =>
        simp only [Prod.mk.injEq] at h
        rw [← h.1]
        refine hsettles.resolve_right (fun hfills => ?_)
        rw [hid, show (flattenCall id leaseToken env.now).result.barCloseTime = env.now from rfl,
          hfills.undecided] at hexisting
        cases hexisting
      · split at h
        · cases h
        next db outcome rejection hprepare =>
          simp only [Prod.mk.injEq] at h
          rw [← h.1]
          show (db.holding id).IsFlat
          rcases prepareOrder_flatten hid hprepare with
            ⟨hdone, _, hp, hsame⟩ | ⟨_, side, quantity, hmap, hgate⟩
          · cases hp
            rw [hsame]
            exact hdone
          · obtain ⟨_, hintent, -⟩ := gateOrder_flatten (hfills hmap) hdeployment hmap hgate
            cases hintent
        next db order hprepare =>
          split at h
          · cases h
          · rcases prepareOrder_flatten hid hprepare with
              ⟨-, _, hp, -⟩ | ⟨_, side, quantity, hmap, hgate⟩
            · cases hp
            · obtain ⟨db', hintent, hholding, hkeys⟩ :=
                gateOrder_flatten (hfills hmap) hdeployment hmap hgate
              cases hintent
              rw [submitIntent_flattens hid (hfills hmap) hdeployment hmap hholding hkeys h]
              exact .inl rfl

end Call

/-! ## Attempts -/

variable {S : Type} {cfg : WorkerConfig S} {env : PollEnvironment} {w : Worker S} {id : ℕ}

/-- A leased deployment whose flatten is requested. -/
def Worker.isRequested (w : Worker S) (id : ℕ) : Bool :=
  (w.runtime id).isSome && w.working.pendingFlatten id

/-- The call of `flatten_deployment` for one request, with the worker before it and after the
request was worked off. -/
structure FlattenAttempt (S : Type) where
  deploymentId : ℕ
  before : Worker S
  after : Worker S

/-- The attempts of the loop over the leased deployments, up to one that raises. -/
def flattenAttempts (cfg : WorkerConfig S) (env : PollEnvironment) :
    List ℕ → Worker S → List (FlattenAttempt S)
  | [], _ => []
  | id :: rest, w =>
    let attempt := if w.isRequested id then [⟨id, w, (flattenPending cfg env id w).2⟩] else []
    match flattenPending cfg env id w with
    | (.ok _, w') => attempt ++ flattenAttempts cfg env rest w'
    | (.error _, _) => attempt

/-- The attempts of a poll: none when it fails before its bars are fetched, or when no leased
deployment is running. -/
def pollFlattens (cfg : WorkerConfig S) (env : PollEnvironment) (w : Worker S) :
    List (FlattenAttempt S) :=
  match preparePoll cfg env w with
  | (.error _, _) => []
  | (.ok _, s) =>
    if s.consumers = [] then []
    else
      match env.coordinator.poll cfg.initialWindowBars s.consumers with
      | .error _ => []
      | .ok _ => flattenAttempts cfg env (s.runtimes.map Runtime.deploymentId) s

/-- The attempt returned, so its request was cleared. -/
def FlattenAttempt.Returned (cfg : WorkerConfig S) (env : PollEnvironment) (a : FlattenAttempt S) :
    Prop :=
  flattenPending cfg env a.deploymentId a.before = (.ok (), a.after)

/-- There is nothing to flatten, or the order goes through. -/
def FlattenAttempt.Settles (cfg : WorkerConfig S) (env : PollEnvironment) (a : FlattenAttempt S) :
    Prop :=
  ∀ r, a.before.runtime a.deploymentId = some r →
    FlattenSettles cfg.service a.before.world a.deploymentId r.leaseToken (env.flatten a.deploymentId)

theorem serviceCall_eq (call : BarCall) (barEnv : BarEnvironment) (w : Worker S) :
    serviceCall cfg call barEnv w =
      ((processCompletedBar cfg.service w.world call barEnv).2.map (fun _ => ()),
        w.after cfg (.processBar call barEnv)) := by
  simp only [serviceCall, perform, Bind.bind, Action.bind, Action.get, Action.modify]
  cases (processCompletedBar cfg.service w.world call barEnv).2 <;> rfl

theorem flattenPending_of_not_requested (cfg : WorkerConfig S) (env : PollEnvironment)
    (h : w.isRequested id = false) :
    ∃ w', flattenPending cfg env id w = (.ok (), w') ∧ w'.world = w.world := by
  simp only [flattenPending, Bind.bind, Action.bind, Action.get]
  cases hr : w.runtime id with
  | none => exact ⟨w, rfl, rfl⟩
  | some r =>
    cases hrow : w.working.getExecutionDeployment id with
    | none => exact ⟨w, rfl, rfl⟩
    | some deployment =>
      have hnot : deployment.pendingFlatten = false := by
        simpa [Worker.isRequested, hr, Database.pendingFlatten, hrow] using h
      simp only [Action.bind, Action.modify, hnot]
      exact ⟨_, rfl, rfl⟩

theorem flattenPending_of_requested (cfg : WorkerConfig S) (env : PollEnvironment)
    (h : w.isRequested id = true) :
    ∃ r, w.runtime id = some r ∧
      match processCompletedBar cfg.service w.world
          (flattenCall id r.leaseToken (env.flatten id).now) (env.flatten id) with
      | (world, .ok _) => ∃ w', flattenPending cfg env id w = (.ok (), w') ∧
          w'.world = step cfg.service world (.clearPending id)
      | (world, .error f) => ∃ w', flattenPending cfg env id w = (.error f, w') ∧ w'.world = world := by
  simp only [Worker.isRequested, Bool.and_eq_true] at h
  obtain ⟨r, hr⟩ := Option.isSome_iff_exists.mp h.1
  refine ⟨r, hr, ?_⟩
  cases hrow : w.working.getExecutionDeployment id with
  | none =>
    rw [Database.pendingFlatten, hrow] at h
    cases h.2
  | some deployment =>
    have hpending : deployment.pendingFlatten = true := by
      simpa [Database.pendingFlatten, hrow] using h.2
    have hworld : (w.updateRuntime id (fun r => { r with deployment })).world = w.world := rfl
    simp only [flattenPending, Bind.bind, Action.bind, Action.get, Action.modify, hr, hrow, hpending,
      if_true, serviceCall_eq, hworld]
    cases hcall : processCompletedBar cfg.service w.world
        (flattenCall id r.leaseToken (env.flatten id).now) (env.flatten id) with
    | mk world result =>
      have hstep : step cfg.service w.world (.processBar
          (flattenCall id r.leaseToken (env.flatten id).now) (env.flatten id)) = world := by
        simp only [step, hcall]
      cases result with
      | ok x =>
        refine ⟨_, rfl, ?_⟩
        simp only [Worker.after, hworld, hstep]
      | error f => exact ⟨_, rfl, hstep⟩

/-! ## Requests along a poll -/

/-- A flatten of the deployment returned in the loop. -/
def FlattenReturns (cfg : WorkerConfig S) (env : PollEnvironment) (id : ℕ)
    (attempts : List (FlattenAttempt S)) : Prop :=
  ∃ a ∈ attempts, a.deploymentId = id ∧ a.Returned cfg env

theorem both_pendingFlatten_step (cfg : ServiceConfig) {world : World} (e : Event) (he : e ≠ .clearPending id)
    (h : world.Both (fun db => db.pendingFlatten id = true)) :
    (step cfg world e).Both (fun db => db.pendingFlatten id = true) :=
  both_step cfg (fun _ _ hrows hdb => Database.pendingFlatten_event he hrows hdb) h

/-- One round of the loop keeps the request or is a flatten that returned. -/
theorem flattenPending_keeps (cfg : WorkerConfig S) (env : PollEnvironment) (j : ℕ)
    (hw : w.world.Both (fun db => db.pendingFlatten id = true)) :
    (flattenPending cfg env j w).2.world.Both (fun db => db.pendingFlatten id = true) ∨
      j = id ∧ w.isRequested j = true ∧ ∃ w', flattenPending cfg env j w = (.ok (), w') := by
  cases hrequested : w.isRequested j with
  | false =>
    obtain ⟨w', heq, hworld⟩ := flattenPending_of_not_requested cfg env hrequested
    rw [heq, hworld]
    exact .inl hw
  | true =>
    obtain ⟨r, -, hcall⟩ := flattenPending_of_requested cfg env hrequested
    have hkept := both_pendingFlatten_step cfg.service (.processBar
      (flattenCall j r.leaseToken (env.flatten j).now) (env.flatten j)) (by simp) hw
    simp only [step] at hkept
    split at hcall
    next world result heq =>
      obtain ⟨w', hflatten, hworld⟩ := hcall
      by_cases hsame : j = id
      · exact .inr ⟨hsame, rfl, w', hflatten⟩
      · rw [heq] at hkept
        rw [hflatten, hworld]
        refine .inl (both_pendingFlatten_step cfg.service _ (fun hclear => hsame ?_) hkept)
        exact Event.clearPending.inj hclear
    next world f heq =>
      obtain ⟨w', hflatten, hworld⟩ := hcall
      rw [heq] at hkept
      rw [hflatten, hworld]
      exact .inl hkept

theorem flattenLoop_keeps {ids : List ℕ} {w : Worker S}
    (hw : w.world.Both (fun db => db.pendingFlatten id = true))
    (hnot : ¬ FlattenReturns cfg env id (flattenAttempts cfg env ids w)) :
    (Action.each (flattenPending cfg env) ids w).2.world.Both
      (fun db => db.pendingFlatten id = true) := by
  induction ids generalizing w with
  | nil => exact hw
  | cons j rest ih =>
    have hround : (flattenPending cfg env j w).2.world.Both (fun db => db.pendingFlatten id = true) := by
      rcases flattenPending_keeps cfg env j hw with
        hkept | ⟨rfl, hrequested, w', heq⟩
      · exact hkept
      · refine absurd ⟨⟨j, w, w'⟩, ?_, rfl, heq⟩ hnot
        simp only [flattenAttempts, heq, hrequested]
        simp
    simp only [Action.each, Bind.bind, Action.bind]
    cases hres : flattenPending cfg env j w with
    | mk r t =>
      rw [hres] at hround
      cases r with
      | error f => exact hround
      | ok u =>
        refine ih hround (fun hreturns => hnot ?_)
        obtain ⟨a, ha, hid, hreturned⟩ := hreturns
        refine ⟨a, ?_, hid, hreturned⟩
        simp only [flattenAttempts, hres]
        exact List.mem_append_right _ ha

/-- A live worker with the request in both databases. -/
abbrev LiveRequest (id : ℕ) : Worker S → Prop := LiveRows (fun db => db.pendingFlatten id = true)

theorem PollEvent.ne_clearPending {e : Event} (h : PollEvent env e) : e ≠ .clearPending id := by
  cases h <;> simp

theorem keptPreparation_liveRequest : KeptPreparation cfg env (LiveRequest id)
    (fun w => w.world.Both (fun db => db.pendingFlatten id = true)) where
  dead _ hw := hw.both
  event _ _ he hw := ⟨hw.alive, both_pendingFlatten_step cfg.service _ he.ne_clearPending hw.both⟩
  refreshed _ _ _ hw := ⟨hw.alive, hw.both⟩
  opened _ _ _ _ _ _ hw := ⟨hw.alive, hw.both⟩
  closed _ _ _ hw := ⟨hw.alive, hw.both⟩

theorem keptBars_liveRequest (batches : List CompletedBarBatch) :
    KeptBars cfg env batches (LiveRequest id)
      (fun w => w.world.Both (fun db => db.pendingFlatten id = true)) where
  dead _ hw := hw.both
  commit _ hw := ⟨hw.alive, both_pendingFlatten_step cfg.service .commit (by simp) hw.both⟩
  refreshed _ _ _ _ hw := ⟨hw.alive, hw.both⟩
  ingested r _ _ bars _ _ _ := by
    have hcall : ∀ call db db', CallRows call db db' → db.pendingFlatten id = true →
        db'.pendingFlatten id = true := fun call db db' hrows hdb =>
      Database.pendingFlatten_event (e := .processBar call (env.flatten id)) (by simp) hrows hdb
    exact (ingestBatch_liveRows hcall env r bars).conseq (fun _ hw => hw.1) (fun _ _ hw => hw)
      (fun _ _ hw => hw)

theorem alive_flattenLoop (cfg : WorkerConfig S) (env : PollEnvironment) (ids : List ℕ) :
    Triple (fun w : Worker S => w.alive = true) (Action.each (flattenPending cfg env) ids)
      (fun _ w => w.alive = true) (fun _ w => w.alive = true) := by
  refine Triple.each (fun j _ => ?_)
  have hround : Triple (fun w : Worker S => w.alive = true) (flattenPending cfg env j)
      (fun _ w => w.alive = true) (Fails (fun w => w.alive = true) (fun w => w.alive = true)) := by
    refine flattenPending_triple (fun _ _ hw => hw) (fun token => ?_) (fun _ hw => hw)
    refine serviceCall_triple (fun t ht => ?_)
    split
    · exact ht
    next f _ => cases f <;> exact ht
  refine hround.conseq (fun _ hw => hw) (fun _ _ hw => hw) (fun f _ hw => ?_)
  cases f <;> exact hw

/-- A poll keeps the request, unless one of its flattens of the deployment returned. -/
theorem poll_keeps_request (hw : LiveRequest id w)
    (hnot : ¬ FlattenReturns cfg env id (pollFlattens cfg env w)) :
    (w.poll cfg env).world.Both (fun db => db.pendingFlatten id = true) := by
  have hbatches : ∀ s batches, LiveRequest id s → preparePoll cfg env w = (.ok (), s) →
      s.consumers ≠ [] → env.coordinator.poll cfg.initialWindowBars s.consumers = .ok batches →
      Triple (fun t => t = s) (processBatches cfg env batches) (fun _ => LiveRequest id)
        (Fails (LiveRequest id) (fun w => w.world.Both (fun db => db.pendingFlatten id = true))) := by
    intro s batches hs hprepared hconsumers hpoll t ht
    subst ht
    have hattempts : pollFlattens cfg env w =
        flattenAttempts cfg env (t.runtimes.map Runtime.deploymentId) t := by
      simp only [pollFlattens, hprepared, if_neg hconsumers, hpoll]
    have hloop := flattenLoop_keeps hs.both (hattempts ▸ hnot)
    have halive := alive_flattenLoop cfg env (t.runtimes.map Runtime.deploymentId) t hs.alive
    simp only [processBatches_eq, Bind.bind, Action.bind, Action.get]
    cases hres : Action.each (flattenPending cfg env) (t.runtimes.map Runtime.deploymentId) t with
    | mk r u =>
      rw [hres] at hloop halive
      cases r with
      | ok _ => exact (keptBars_liveRequest batches).processBars _ u ⟨halive, hloop⟩
      | error f =>
        cases f with
        | raised e => exact ⟨halive, hloop⟩
        | killed => exact hloop
  rcases keptPreparation_liveRequest.poll_of_batches hw hbatches with hlive | ⟨w', hdead, heq⟩
  · exact hlive.both
  · rw [heq]
    exact both_pendingFlatten_step cfg.service .restart (by simp) hdead

theorem step_keeps_request {e : WorkerEvent}
    (hw : w.world.Both (fun db => db.pendingFlatten id = true))
    (hnot : ∀ pollEnv, e = .poll pollEnv → w.alive = true →
      ¬ FlattenReturns cfg pollEnv id (pollFlattens cfg pollEnv w)) :
    (w.step cfg e).world.Both (fun db => db.pendingFlatten id = true) := by
  cases e with
  | start quotes broker now =>
    simp only [Worker.step]
    split
    · exact hw
    · have hrecovered : (w.recovered cfg quotes now).Both (fun db => db.pendingFlatten id = true) :=
        both_pendingFlatten_step cfg.service (.startup quotes now) (by simp) (both_pendingFlatten_step cfg.service .restart (by simp) hw)
      rcases w.start_cases cfg quotes broker now with heq | ⟨-, heq⟩
      · rw [heq]
        exact both_pendingFlatten_step cfg.service .restart (by simp) hrecovered
      · rw [heq]
        exact both_pendingFlatten_step cfg.service .commit (by simp) (both_pendingFlatten_step cfg.service (.reconcile none broker now) (by simp) hrecovered)
  | poll pollEnv =>
    simp only [Worker.step]
    split
    next halive => exact poll_keeps_request ⟨halive, hw⟩ (hnot pollEnv rfl halive)
    · exact hw
  | operate command => exact both_pendingFlatten_step cfg.service (.operate command) (by simp) hw
  | shutdown =>
    simp only [Worker.step]
    split
    · have hrelease : Triple (fun t : Worker S => t.world.Both (fun db => db.pendingFlatten id = true))
          (Action.each (releaseDeployment cfg) w.runtimes)
          (fun _ t => t.world.Both (fun db => db.pendingFlatten id = true))
          (fun _ t => t.world.Both (fun db => db.pendingFlatten id = true)) :=
        Triple.each (fun r _ t ht => both_pendingFlatten_step cfg.service (.releaseLease r.deploymentId r.leaseToken) (by simp) ht)
      have hreleased := hrelease w hw
      unfold Worker.shutdown
      split at hreleased
      next heq =>
        rw [heq]
        exact both_pendingFlatten_step cfg.service .restart (by simp) (both_pendingFlatten_step cfg.service .commit (by simp) hreleased)
      next heq =>
        rw [heq]
        exact both_pendingFlatten_step cfg.service .restart (by simp) hreleased
    · exact hw
  | die => exact both_pendingFlatten_step cfg.service .restart (by simp) hw

/-! ## What a returned flatten and a poll owe to the request -/

theorem requested_of_mem_flattenAttempts {ids : List ℕ} {w : Worker S} {a : FlattenAttempt S}
    (ha : a ∈ flattenAttempts cfg env ids w) : a.before.isRequested a.deploymentId = true := by
  have hhead : ∀ j (w : Worker S), a ∈ (if w.isRequested j then
      [(⟨j, w, (flattenPending cfg env j w).2⟩ : FlattenAttempt S)] else []) →
      a.before.isRequested a.deploymentId = true := by
    intro j w hmem
    split at hmem
    next hrequested =>
      rw [List.mem_singleton.mp hmem]
      exact hrequested
    · cases hmem
  induction ids generalizing w with
  | nil => cases ha
  | cons j rest ih =>
    simp only [flattenAttempts] at ha
    split at ha
    · rcases List.mem_append.mp ha with hmem | hmem
      · exact hhead j w hmem
      · exact ih hmem
    · exact hhead j w ha

theorem FlattenAttempt.flat {a : FlattenAttempt S} (ha : a ∈ pollFlattens cfg env w)
    (hreturned : a.Returned cfg env) (hsettles : a.Settles cfg env) :
    (a.after.working.holding a.deploymentId).IsFlat := by
  have hrequested : a.before.isRequested a.deploymentId = true := by
    unfold pollFlattens at ha
    split at ha
    · cases ha
    · split at ha
      · cases ha
      · split at ha
        · cases ha
        · exact requested_of_mem_flattenAttempts ha
  obtain ⟨r, hr, hcall⟩ := flattenPending_of_requested cfg env hrequested
  split at hcall
  next world result heq =>
    obtain ⟨w', hflatten, hworld⟩ := hcall
    have hafter : a.after = w' := congrArg Prod.snd (hreturned.symm.trans hflatten)
    have hflat := flattenCall_flat (hsettles r hr) heq
    rw [Worker.working, hafter, hworld]
    -- the request is a column of the deployment, so clearing it keeps the position
    have hclear : ∀ db db' : Database, db.clearPendingDeploymentAction a.deploymentId = .ok db' →
        db'.holding = db.holding := fun _ _ hdb =>
      congrArg Books.holding (frame_clearPendingDeploymentAction hdb).books
    simp only [step, World.amend]
    cases hdb : world.session.working.clearPendingDeploymentAction a.deploymentId with
    | error e => exact hflat
    | ok db =>
      show (db.holding a.deploymentId).IsFlat
      rw [hclear _ _ hdb]
      exact hflat
  next world f heq =>
    obtain ⟨w', hflatten, -⟩ := hcall
    have hres : (Except.ok () : Except Failure Unit) = .error f :=
      congrArg Prod.fst (hreturned.symm.trans hflatten)
    cases hres

/-- A leased deployment with a request, which the poll lists. -/
structure LeasedRequest (id : ℕ) (w : Worker S) : Prop where
  leased : (w.runtime id).isSome
  listed : w.world.Both (fun db => db.pendingFlatten id = true ∧ id ∈ db.activeIds)

theorem Worker.isSome_updateRuntime {id' : ℕ} {deployment : ExecutionDeployment}
    (h : (w.runtime id).isSome) :
    ((w.updateRuntime id' (fun r => { r with deployment })).runtime id).isSome := by
  by_cases hsame : id = id'
  · subst hsame
    rw [Worker.runtime_updateRuntime (fun _ => by rfl)]
    simpa using h
  · unfold Worker.runtime Worker.updateRuntime
    dsimp only
    rw [lookup_modify_of_ne (fun _ => by rfl) hsame]
    exact h

theorem keptPreparation_leasedRequest :
    KeptPreparation cfg env (LeasedRequest id) (fun _ => True) where
  dead _ _ := trivial
  event _ e he hw := by
    refine ⟨hw.leased, both_step cfg.service (fun db db' hrows hdb => ?_) hw.listed⟩
    have hdeployments : db'.deployments = db.deployments := by cases he <;> exact hrows.deployments
    rw [Database.activeIds, Database.listDeployments, Database.pendingFlatten,
      Database.getExecutionDeployment, hdeployments]
    exact hdb
  refreshed _ _ _ hw := ⟨Worker.isSome_updateRuntime hw.leased, hw.listed⟩
  opened w deployment r hr hnone _ hw := by
    obtain ⟨r', hr'⟩ := Option.isSome_iff_exists.mp hw.leased
    refine ⟨?_, hw.listed⟩
    unfold Worker.runtime lookup at hr' ⊢
    simp [hr']
  closed w j hclosed hw := by
    refine ⟨?_, hw.listed⟩
    have hne : id ≠ j := fun heq => hclosed (heq ▸ hw.listed.working.2)
    unfold Worker.runtime lookup
    dsimp only
    rw [List.find?_filter]
    obtain ⟨r, hr⟩ := Option.isSome_iff_exists.mp hw.leased
    rw [List.find?_isSome]
    refine ⟨r, mem_of_lookup hr, ?_⟩
    simp [key_of_lookup hr, hne]

/-- Every leased request is attempted, when no attempt for another deployment raises. -/
theorem attempted_of_leased {ids : List ℕ} {w : Worker S} (hid : id ∈ ids)
    (hleased : (w.runtime id).isSome)
    (hw : w.world.Both (fun db => db.pendingFlatten id = true))
    (hothers : ∀ a ∈ flattenAttempts cfg env ids w, a.deploymentId ≠ id → a.Returned cfg env) :
    ∃ a ∈ flattenAttempts cfg env ids w, a.deploymentId = id := by
  induction ids generalizing w with
  | nil => cases hid
  | cons j rest ih =>
    by_cases hsame : j = id
    · subst hsame
      have hrequested : w.isRequested j = true := by
        simp only [Worker.isRequested, Bool.and_eq_true]
        exact ⟨hleased, hw.working⟩
      refine ⟨⟨j, w, (flattenPending cfg env j w).2⟩, ?_, rfl⟩
      simp only [flattenAttempts, hrequested, if_true]
      split <;> simp
    · obtain ⟨w', hround⟩ : ∃ w', flattenPending cfg env j w = (.ok (), w') := by
        cases hrequested : w.isRequested j with
        | false =>
          obtain ⟨w', heq, -⟩ := flattenPending_of_not_requested cfg env hrequested
          exact ⟨w', heq⟩
        | true =>
          refine ⟨_, hothers ⟨j, w, (flattenPending cfg env j w).2⟩ ?_ hsame⟩
          simp only [flattenAttempts, hrequested, if_true]
          split <;> simp
      have hrest : flattenAttempts cfg env (j :: rest) w =
          (if w.isRequested j then [⟨j, w, w'⟩] else []) ++ flattenAttempts cfg env rest w' := by
        simp only [flattenAttempts, hround]
      have hkept : w'.world.Both (fun db => db.pendingFlatten id = true) := by
        rcases flattenPending_keeps cfg env j hw with hkept | ⟨heq, -⟩
        · rw [hround] at hkept
          exact hkept
        · exact absurd heq hsame
      have hleased' : (w'.runtime id).isSome := by
        have hround' : Triple (fun w : Worker S => (w.runtime id).isSome) (flattenPending cfg env j)
            (fun _ w => (w.runtime id).isSome) (Fails (fun w => (w.runtime id).isSome) (fun _ => True)) := by
          refine flattenPending_triple (fun _ _ ht => Worker.isSome_updateRuntime ht)
            (fun token => ?_) (fun _ ht => ht)
          refine serviceCall_triple (fun t ht => ?_)
          split
          · exact ht
          next f _ =>
            cases f with
            | raised e => exact ht
            | killed => trivial
        have hafter := hround' w hleased
        rw [hround] at hafter
        exact hafter
      rw [hrest] at hothers ⊢
      have hmem : id ∈ rest := (List.mem_cons.mp hid).resolve_left (Ne.symm hsame)
      obtain ⟨a, ha, haid⟩ := ih hmem hleased' hkept
        (fun a ha => hothers a (List.mem_append_right _ ha))
      exact ⟨a, List.mem_append_right _ ha, haid⟩

/-! ## Whole runs -/

/-- The poll gets to its flattens: nothing raises before, and some leased deployment is running. -/
structure ReachesFlattens (cfg : WorkerConfig S) (env : PollEnvironment) (w s : Worker S) : Prop where
  prepared : preparePoll cfg env w = (.ok (), s)
  running : s.consumers ≠ []
  fetched : ∃ batches, env.coordinator.poll cfg.initialWindowBars s.consumers = .ok batches

/-- The condition on an event: each flatten of a poll has nothing to do or goes through, and for
each request of a leased deployment the deployment is running or paused, the poll gets to its
flattens, and no flatten of another deployment raises. -/
def FlattensGo (cfg : WorkerConfig S) (w : Worker S) : WorkerEvent → Prop
  | .poll env => w.alive = true →
      (∀ a ∈ pollFlattens cfg env w, a.Settles cfg env) ∧
      ∀ id, w.isRequested id = true → id ∈ w.working.activeIds ∧ (∃ s, ReachesFlattens cfg env w s) ∧
        ∀ a ∈ pollFlattens cfg env w, a.deploymentId ≠ id → a.Returned cfg env
  | _ => True

/-- What an event owes to the requests: one that it clears was worked off by a flatten that left
the position flat, and a poll attempts every request of a leased deployment. -/
structure RequestsKept (cfg : WorkerConfig S) (w : Worker S) (e : WorkerEvent) : Prop where
  cleared : ∀ id, w.world.session.committed.pendingFlatten id = true →
    (w.step cfg e).world.session.committed.pendingFlatten id = false →
    ∃ env, e = .poll env ∧ ∃ a ∈ pollFlattens cfg env w, a.deploymentId = id ∧
      a.Returned cfg env ∧ (a.after.working.holding id).IsFlat
  attempted : ∀ env id, e = .poll env → w.alive = true → w.isRequested id = true →
    ∃ a ∈ pollFlattens cfg env w, a.deploymentId = id

theorem cleared_of_flattensGo {e : WorkerEvent} (hclean : w.Clean) (hgo : FlattensGo cfg w e)
    (hpending : w.world.session.committed.pendingFlatten id = true)
    (hcleared : (w.step cfg e).world.session.committed.pendingFlatten id = false) :
    ∃ env, e = .poll env ∧ ∃ a ∈ pollFlattens cfg env w, a.deploymentId = id ∧
      a.Returned cfg env ∧ (a.after.working.holding id).IsFlat := by
  have hboth : w.world.Both (fun db => db.pendingFlatten id = true) :=
    ⟨hpending, by rw [show w.world.session.working = _ from hclean]; exact hpending⟩
  by_contra hnot
  have hkept : (w.step cfg e).world.Both (fun db => db.pendingFlatten id = true) := by
    refine step_keeps_request hboth (fun env he halive hreturns => hnot ?_)
    subst he
    obtain ⟨a, ha, rfl, hreturned⟩ := hreturns
    exact ⟨env, rfl, a, ha, rfl, hreturned, a.flat ha hreturned ((hgo halive).1 a ha)⟩
  rw [hkept.committed] at hcleared
  cases hcleared

theorem attempted_of_flattensGo (hclean : w.Clean) (hrequested : w.isRequested id = true)
    (hlisted : id ∈ w.working.activeIds) {s : Worker S} (hreaches : ReachesFlattens cfg env w s)
    (hothers : ∀ a ∈ pollFlattens cfg env w, a.deploymentId ≠ id → a.Returned cfg env) :
    ∃ a ∈ pollFlattens cfg env w, a.deploymentId = id := by
  simp only [Worker.isRequested, Bool.and_eq_true] at hrequested
  have hworking : w.working.pendingFlatten id = true ∧ id ∈ w.working.activeIds :=
    ⟨hrequested.2, hlisted⟩
  have hstart : LeasedRequest id w :=
    ⟨hrequested.1, by rw [← show w.world.session.working = _ from hclean]; exact hworking, hworking⟩
  have hkept : KeptPreparation cfg env (LeasedRequest id) (fun _ => True) := keptPreparation_leasedRequest
  have hprepared := hkept.preparePoll w hstart
  rw [hreaches.prepared] at hprepared
  obtain ⟨batches, hfetched⟩ := hreaches.fetched
  have hattempts : pollFlattens cfg env w =
      flattenAttempts cfg env (s.runtimes.map Runtime.deploymentId) s := by
    simp only [pollFlattens, hreaches.prepared, if_neg hreaches.running, hfetched]
  obtain ⟨r, hr⟩ := Option.isSome_iff_exists.mp hprepared.leased
  have hmem : id ∈ s.runtimes.map Runtime.deploymentId :=
    List.mem_map.mpr ⟨r, mem_of_lookup hr, key_of_lookup hr⟩
  rw [hattempts] at hothers ⊢
  exact attempted_of_leased hmem hprepared.leased
    ⟨hprepared.listed.committed.1, hprepared.listed.working.1⟩ hothers

/-- No request to flatten is lost, in every run in which each flatten has nothing to do or goes
through and each poll gets to the requests of the leased deployments. -/
theorem flatten_requests_kept {S : Type} (cfg : WorkerConfig S) (w : Worker S) (hclean : w.Clean)
    (events : List WorkerEvent) (hgo : Admissible (Worker.step cfg) (FlattensGo cfg) w events)
    (before after : List WorkerEvent) (e : WorkerEvent) (hevents : events = before ++ e :: after) :
    RequestsKept cfg (run (Worker.step cfg) w before) e := by
  subst hevents
  have hstate : (run (Worker.step cfg) w before).Clean :=
    invariant Worker.Clean hclean (fun _ e hs => hs.step e) before
  have hcondition := hgo.condition_at
  constructor
  · intro id hpending hcleared
    exact cleared_of_flattensGo hstate hcondition hpending hcleared
  · intro env id he halive hrequested
    subst he
    obtain ⟨hlisted, ⟨s, hreaches⟩, hothers⟩ := (hcondition halive).2 id hrequested
    exact attempted_of_flattensGo hstate hrequested hlisted hreaches hothers

/-! ## The desk -/

/-- A poll at the `n`-th minute on the paper broker. -/
def paperPoll (n : ℕ) : PollEnvironment :=
  deskPoll n (paperBroker (deskQuotes (n * 60000000)) (n * 60000000)) noCrash

/-- The same poll, without a quote for its flattens. -/
def blindPoll (n : ℕ) : PollEnvironment :=
  { paperPoll n with flatten := fun id => { (paperPoll n).flatten id with quotes := fun _ => none } }

/-- The desk is long one contract, and its flatten is requested. -/
def flattenRequested : List WorkerEvent :=
  [deskStart 1, .poll (paperPoll 1), .operate (.requestFlatten 7)]

/-- The same request, two minutes after the deployment was paused. -/
def flattenPaused : List WorkerEvent :=
  [deskStart 1, .poll (paperPoll 1), .operate (.transition 7 .paused), .poll (paperPoll 2),
    .operate (.requestFlatten 7)]

theorem not_requestsKept_of_open {env : PollEnvironment} {w : Worker S} (id : ℕ)
    (hpending : w.world.session.committed.pendingFlatten id = true)
    (hcleared : (w.step cfg (.poll env)).world.session.committed.pendingFlatten id = false)
    (hopen : ∀ a ∈ pollFlattens cfg env w, ¬ (a.after.working.holding id).IsFlat) :
    ¬ RequestsKept cfg w (.poll env) := by
  intro h
  obtain ⟨env', he, a, ha, -, -, hflat⟩ := h.cleared id hpending hcleared
  have henv : env = env' := WorkerEvent.poll.inj he
  subst henv
  exact hopen a ha hflat

/-- The gate rejects a flatten without a quote: the request is gone and the desk is still long. A
paused desk that asks for a flatten is not attempted. -/
theorem rejected_flatten_is_lost :
    deskWorker.Clean ∧
    ¬ RequestsKept deskConfig (run (Worker.step deskConfig) deskWorker flattenRequested)
      (.poll (blindPoll 2)) ∧
    ((run (Worker.step deskConfig) deskWorker (flattenRequested ++ [.poll (blindPoll 2)])
      ).world.session.committed.holding 7).quantity = 1 ∧
    ¬ RequestsKept deskConfig (run (Worker.step deskConfig) deskWorker flattenPaused)
      (.poll (paperPoll 3)) := by
  refine ⟨rfl, ?_, by decide +kernel, fun h => ?_⟩
  · exact not_requestsKept_of_open 7 (by decide +kernel) (by decide +kernel) (by decide +kernel)
  · have hnone : (pollFlattens deskConfig (paperPoll 3)
        (run (Worker.step deskConfig) deskWorker flattenPaused)).length = 0 := by decide +kernel
    obtain ⟨a, ha, -⟩ := h.attempted (paperPoll 3) 7 rfl (by decide +kernel) (by decide +kernel)
    rw [List.length_eq_zero_iff.mp hnone] at ha
    cases ha

theorem Worker.mem_of_isRequested (h : w.isRequested id = true) :
    id ∈ w.runtimes.map Runtime.deploymentId := by
  simp only [Worker.isRequested, Bool.and_eq_true] at h
  obtain ⟨r, hr⟩ := Option.isSome_iff_exists.mp h.1
  exact List.mem_map.mpr ⟨r, mem_of_lookup hr, key_of_lookup hr⟩

theorem paperPoll_settles : ∀ a ∈ pollFlattens deskConfig (paperPoll 2)
    (run (Worker.step deskConfig) deskWorker flattenRequested), a.Settles deskConfig (paperPoll 2) := by
  let flattening : ExecutionDeployment :=
    { id := 7, paperAccountId := 1, lifecycle := .running, symbol := "WIN", timeframe := "M1"
      lastBarCloseTime := some 60000000, pendingFlatten := true }
  have hstate : ∀ a ∈ pollFlattens deskConfig (paperPoll 2)
      (run (Worker.step deskConfig) deskWorker flattenRequested),
      (a.deploymentId = 7 ∧ a.before.world.nextId = 103 ∧
        (a.before.runtime 7).map Runtime.leaseToken = some "token") ∧
      a.before.working.getDecisionForBar 7 120000000 = none ∧
      a.before.working.getExecutionDeployment 7 = some flattening ∧
      a.before.working.holding 7 = ⟨.long, 1, some 101⟩ ∧
      a.before.working.recordedKeys = [(.paper, "paper:101")] := by decide +kernel
  have hgate : ∀ a ∈ pollFlattens deskConfig (paperPoll 2)
      (run (Worker.step deskConfig) deskWorker flattenRequested),
      (do let account ← a.before.working.getPaperAccount 1
          let snapshot ← (accountSnapshot a.before.working account.id 7 "WIN"
            (deskQuotes 120000000 "WIN") deskConfig.service.pointValue 120000000).toOption
          return (riskContextOf deskConfig.service a.before.working flattening account
            (flattenCall 7 "token" 120000000) ((paperPoll 2).flatten 7) .sell 1 snapshot).evaluate) =
        some none := by decide +kernel
  rintro ⟨id, before, after⟩ ha r hr
  obtain ⟨⟨hid, hnext, htoken⟩, hundecided, hrow, hholding, hkeys⟩ := hstate _ ha
  have hgate := hgate _ ha
  dsimp only at hid hnext htoken hundecided hrow hholding hkeys hgate hr ⊢
  subst hid
  rw [hr] at htoken
  have htoken : r.leaseToken = "token" := Option.some.inj htoken
  rw [htoken]
  have hmap : ∀ {side quantity}, mapSignalToOrder .close (before.working.holding 7).side
      (before.working.holding 7).quantity none = some (side, quantity) → side = .sell ∧ quantity = 1 := by
    intro side quantity h
    rw [hholding] at h
    simpa [mapSignalToOrder, eq_comm] using h
  refine .inr ⟨hundecided, ?_, ?_⟩
  · intro deployment account side quantity snapshot hdeployment haccount hside hsnapshot
    obtain ⟨rfl, rfl⟩ := hmap hside
    have hsame : flattening = deployment := Option.some.inj (hrow.symm.trans hdeployment)
    subst hsame
    have haccount : before.working.getPaperAccount 1 = some account := haccount
    have hsnapshot : accountSnapshot before.working account.id 7 "WIN"
        (deskQuotes 120000000 "WIN") deskConfig.service.pointValue 120000000 = .ok snapshot := hsnapshot
    rw [haccount] at hgate
    simp only [Option.bind_eq_bind, Option.bind_some, hsnapshot] at hgate
    exact Option.some.inj hgate
  · intro deployment order sub hdeployment horder hside hsub
    obtain ⟨hsell, hone⟩ := hmap hside
    have hsame : flattening = deployment := Option.some.inj (hrow.symm.trans hdeployment)
    subst hsame
    have hrequest : submissionRequest flattening order =
        ⟨7, 104, "WIN", .sell, 1, "paper:104"⟩ := by
      simp only [submissionRequest, horder, hsell, hone, hnext]
      rfl
    rw [hrequest] at hsub
    have hpaper : paperSubmit (deskQuotes 120000000) 120000000 ⟨7, 104, "WIN", .sell, 1, "paper:104"⟩
        deskConfig.service.costConfig = sub := Except.ok.inj hsub
    subst hpaper
    have hsome : (paperSubmit (deskQuotes 120000000) 120000000
        ⟨7, 104, "WIN", .sell, 1, "paper:104"⟩ deskConfig.service.costConfig).fill.isSome := by
      decide +kernel
    obtain ⟨fill, hfill⟩ := Option.isSome_iff_exists.mp hsome
    obtain ⟨hmode, hexternal, hfillSide, hfillQuantity, -⟩ := paperSubmit_fill hfill
    refine ⟨by decide +kernel, fill, hfill, hfillSide.trans hsell.symm,
      hfillQuantity.trans hone.symm, ?_⟩
    rw [show before.world.session.working.recordedKeys = _ from hkeys, hmode, hexternal]
    decide

/-- The desk is flattened by the poll after the request. -/
theorem flatten_requests_kept_filled :
    ((run (Worker.step deskConfig) deskWorker (flattenRequested ++ [.poll (paperPoll 2)])
      ).world.session.committed.holding 7).quantity = 0 ∧
    RequestsKept deskConfig (run (Worker.step deskConfig) deskWorker flattenRequested)
      (.poll (paperPoll 2)) := by
  have hfirst : (run (Worker.step deskConfig) deskWorker [deskStart 1]).runtimes.map
        Runtime.deploymentId = [] ∧
      (pollFlattens deskConfig (paperPoll 1)
        (run (Worker.step deskConfig) deskWorker [deskStart 1])).length = 0 := by decide +kernel
  have hsecond : (run (Worker.step deskConfig) deskWorker flattenRequested).runtimes.map
        Runtime.deploymentId = [7] ∧
      7 ∈ (run (Worker.step deskConfig) deskWorker flattenRequested).working.activeIds ∧
      ∀ a ∈ pollFlattens deskConfig (paperPoll 2)
        (run (Worker.step deskConfig) deskWorker flattenRequested), a.deploymentId = 7 := by
    decide +kernel
  have hreaches : ∃ s, ReachesFlattens deskConfig (paperPoll 2)
      (run (Worker.step deskConfig) deskWorker flattenRequested) s := by
    have hprepared : (preparePoll deskConfig (paperPoll 2) (run (Worker.step deskConfig) deskWorker
        flattenRequested)).1.toOption.isSome := by decide +kernel
    obtain ⟨_, hprepared⟩ := exists_ok_of_isSome hprepared
    refine ⟨_, Prod.ext hprepared rfl, by decide +kernel, ?_⟩
    exact exists_ok_of_isSome (by decide +kernel)
  have hgo : Admissible (Worker.step deskConfig) (FlattensGo deskConfig) deskWorker
      (flattenRequested ++ .poll (paperPoll 2) :: []) := by
    refine ⟨trivial, fun _ => ⟨fun a ha => ?_, fun id hid => ?_⟩, trivial, fun _ => ⟨?_, fun id hid => ?_⟩,
      trivial⟩
    · have ha : a ∈ pollFlattens deskConfig (paperPoll 1)
          (run (Worker.step deskConfig) deskWorker [deskStart 1]) := ha
      rw [List.length_eq_zero_iff.mp hfirst.2] at ha
      cases ha
    · have hmem : id ∈ (run (Worker.step deskConfig) deskWorker [deskStart 1]).runtimes.map
          Runtime.deploymentId := Worker.mem_of_isRequested hid
      rw [hfirst.1] at hmem
      cases hmem
    · exact paperPoll_settles
    · have hmem : id ∈ (run (Worker.step deskConfig) deskWorker flattenRequested).runtimes.map
          Runtime.deploymentId := Worker.mem_of_isRequested hid
      rw [hsecond.1] at hmem
      have hid : id = 7 := List.mem_singleton.mp hmem
      subst hid
      exact ⟨hsecond.2.1, hreaches, fun a ha hne => absurd (hsecond.2.2 a ha) hne⟩
  exact ⟨by decide +kernel, flatten_requests_kept deskConfig deskWorker rfl _ hgo flattenRequested []
    (.poll (paperPoll 2)) rfl⟩

end QBackend.Execution
