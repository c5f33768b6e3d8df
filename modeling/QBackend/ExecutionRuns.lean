import QBackend.BarCalls
import QBackend.ReconciliationCalls
import QBackend.RunInvariants

/-!
# Runs of the execution system

A run is any sequence of service calls, startups, reconciliation passes, operator commands and
resolutions, lease operations, commits and restarts. `Advance` is what an event may do to the world: leave
it, drop the open transaction, extend it by writes, or commit it; `step_advance` says that every
event whose reported fills are fresh is one of these.
-/

namespace QBackend.Execution

open FallibleSteps RunInvariants

/-- The commands of the API that change a deployment or the control row. -/
inductive OperatorCommand where
  | transition (deploymentId : ℕ) (target : DeploymentLifecycle)
  | requestFlatten (deploymentId : ℕ)
  | setKillSwitch (enabled : Bool)
  deriving DecidableEq, Repr

def OperatorCommand.apply (db : Database) : OperatorCommand → Except ExecutionError Database
  | .transition deploymentId target => db.transitionDeploymentLifecycle deploymentId target
  | .requestFlatten deploymentId => db.setPendingFlatten deploymentId
  | .setKillSwitch enabled => .ok { db with killSwitchEnabled := enabled }

inductive Event where
  | processBar (call : BarCall) (env : BarEnvironment)
  /-- A new process: recovery in a fresh session, then its commit. -/
  | startup (quotes : String → Option ExecutableQuote) (now : Time)
  /-- A reconciliation pass in the open session, for one deployment or for all. -/
  | reconcile (deploymentId : Option ℕ) (broker : ExecutionBroker) (now : Time)
  /-- An operator's resolution, a transaction of its own that waits for the open one. -/
  | resolve (orderId : ℕ) (body : OrderResolutionRequest) (now : Time)
  /-- An operator's command, likewise. -/
  | operate (command : OperatorCommand)
  | acquireLease (deploymentId : ℕ) (leaseToken : String) (ttl now : Time)
  | heartbeatLease (deploymentId : ℕ) (leaseToken : String) (ttl now : Time)
  | releaseLease (deploymentId : ℕ) (leaseToken : String)
  | clearPending (deploymentId : ℕ)
  | commit
  /-- The session is closed without a commit: an exception, or the death of the process. -/
  | restart

def filledOrders (outcomes : List ReconciliationOutcome) : List ℕ :=
  (outcomes.filter (fun o => o.resolution = .filled)).map (·.orderId)

/-- A write of the open transaction, when it succeeds. -/
def World.amend (w : World) (result : Except ExecutionError Database) : World :=
  match result with
  | .error _ => w
  | .ok db => { w with session := ⟨w.session.committed, db⟩ }

def step (cfg : ServiceConfig) (w : World) : Event → World
  | .processBar call env => (processCompletedBar cfg w call env).1
  | .startup quotes now =>
    match recover w.session.committed quotes now with
    | .error _ => w.rollback
    | .ok (db, _) => w.rollback.commit db
  | .reconcile deploymentId broker now =>
    match reconcilePending cfg broker now w.session.working deploymentId w.nextId with
    | .error _ => w.rollback
    | .ok (db, nextId, outcomes) =>
      { w with
        session := ⟨w.session.committed, db⟩
        nextId
        reports := ⟨w.reports.durable, w.reports.pending ++ filledOrders outcomes⟩ }
  | .resolve orderId body now =>
    if w.session.working = w.session.committed then
      match resolveOrder cfg w.session.committed orderId body w.nextId now with
      | .error _ => w
      | .ok (db, outcome) =>
        { w with
          session := ⟨db, db⟩
          nextId := w.nextId + 1
          reports := ⟨w.reports.durable ++ w.reports.pending ++ filledOrders [outcome], []⟩ }
    else w
  | .operate command =>
    if w.session.working = w.session.committed then
      match command.apply w.session.committed with
      | .error _ => w
      | .ok db => w.commit db
    else w
  | .acquireLease deploymentId leaseToken ttl now =>
    w.amend (w.session.working.acquireWorkerLease deploymentId cfg.workerId leaseToken ttl now)
  | .heartbeatLease deploymentId leaseToken ttl now =>
    w.amend (w.session.working.heartbeatWorkerLease deploymentId cfg.workerId leaseToken ttl now)
  | .releaseLease deploymentId leaseToken =>
    w.amend (w.session.working.releaseWorkerLease deploymentId cfg.workerId leaseToken)
  | .clearPending deploymentId =>
    w.amend (w.session.working.clearPendingDeploymentAction deploymentId)
  | .commit => w.commit w.session.working
  | .restart => w.rollback

/-! ## What an event may do -/

/-- The transaction and the reports after an event that creates orders below `bound` only. Broker
calls are not mentioned. -/
inductive Advance (allowed : FillApplication → Prop) (pointValue : ℚ) (bound : ℕ) (w w' : World) :
    Prop where
  | stay (h : w'.session = w.session) (hn : w.nextId ≤ w'.nextId) (hr : w'.reports = w.reports)
  | drop (h : w'.session = ⟨w.session.committed, w.session.committed⟩) (hn : w.nextId ≤ w'.nextId)
      (hr : w'.reports = w.reports.drop)
  | extend (db : Database) (ids : List ℕ) (h : w'.session = ⟨w.session.committed, db⟩)
      (hn : w.nextId ≤ w'.nextId) (hw : Writes allowed pointValue bound w.session.working db)
      (hids : ∀ id ∈ ids, db.IsFilled id)
      (hr : w'.reports = ⟨w.reports.durable, w.reports.pending ++ ids⟩)
  | commit (db : Database) (ids : List ℕ) (h : w'.session = ⟨db, db⟩) (hn : w.nextId ≤ w'.nextId)
      (hw : Writes allowed pointValue bound w.session.working db)
      (hids : ∀ id ∈ ids, db.IsFilled id)
      (hr : w'.reports = ⟨w.reports.durable ++ w.reports.pending ++ ids, []⟩)
  | recover (db : Database) (h : w'.session = ⟨db, db⟩) (hn : w.nextId ≤ w'.nextId)
      (hw : Writes allowed pointValue bound w.session.committed db)
      (hr : w'.reports = w.reports.drop)

theorem Advance.mono {allowed : FillApplication → Prop} {pointValue : ℚ} {bound bound' : ℕ}
    {w w' : World} (h : Advance allowed pointValue bound w w') (hb : bound ≤ bound') :
    Advance allowed pointValue bound' w w' := by
  cases h with
  | stay h hn hr => exact .stay h hn hr
  | drop h hn hr => exact .drop h hn hr
  | extend db ids h hn hw hids hr => exact .extend db ids h hn (hw.mono hb) hids hr
  | commit db ids h hn hw hids hr => exact .commit db ids h hn (hw.mono hb) hids hr
  | recover db h hn hw hr => exact .recover db h hn (hw.mono hb) hr

theorem frame_leases (db : Database) (leases : List ExecutionWorkerLease) :
    Frame db { db with leases } :=
  ⟨⟨.of_eq rfl rfl, rfl, rfl, rfl⟩, rfl⟩

theorem frame_acquireWorkerLease {db db' : Database} {d : ℕ} {workerId token : String}
    {ttl now : Time} (h : db.acquireWorkerLease d workerId token ttl now = .ok db') :
    Frame db db' := by
  unfold Database.acquireWorkerLease at h
  split at h
  · split at h
    · cases h
    · cases h
      exact frame_leases db _
  · cases h
    exact frame_leases db _

theorem frame_heartbeatWorkerLease {db db' : Database} {d : ℕ} {workerId token : String}
    {ttl now : Time} (h : db.heartbeatWorkerLease d workerId token ttl now = .ok db') :
    Frame db db' := by
  unfold Database.heartbeatWorkerLease at h
  split at h
  · cases h
  · split at h
    · cases h
    · cases h
      exact frame_leases db _

theorem frame_releaseWorkerLease {db db' : Database} {d : ℕ} {workerId token : String}
    (h : db.releaseWorkerLease d workerId token = .ok db') : Frame db db' := by
  unfold Database.releaseWorkerLease at h
  split at h
  · cases h
    exact .refl db
  · split at h
    · cases h
    · cases h
      exact frame_leases db _

theorem frame_clearPendingDeploymentAction {db db' : Database} {id : ℕ}
    (h : db.clearPendingDeploymentAction id = .ok db') : Frame db db' := by
  unfold Database.clearPendingDeploymentAction at h
  split at h
  · cases h
  · cases h
    exact frame_modifyDeployment db id (fun _ => rfl) (fun _ => rfl) (fun _ => rfl)

theorem frame_operatorCommand {db db' : Database} {command : OperatorCommand}
    (h : command.apply db = .ok db') : Frame db db' := by
  cases command with
  | transition id target =>
    simp only [OperatorCommand.apply, Database.transitionDeploymentLifecycle] at h
    split at h
    · cases h
    · simp only [bind_eq_ok, pure_eq_ok] at h
      obtain ⟨_, -, rfl⟩ := h
      exact frame_modifyDeployment db id (fun _ => rfl) (fun _ => rfl) (fun _ => rfl)
  | requestFlatten id =>
    simp only [OperatorCommand.apply, Database.setPendingFlatten] at h
    split at h
    · cases h
    · cases h
      exact frame_modifyDeployment db id (fun _ => rfl) (fun _ => rfl) (fun _ => rfl)
  | setKillSwitch enabled =>
    cases h
    exact ⟨⟨.of_eq rfl rfl, rfl, rfl, rfl⟩, rfl⟩

theorem Advance.amend {allowed : FillApplication → Prop} {pointValue : ℚ} {w : World}
    {result : Except ExecutionError Database}
    (h : ∀ db, result = .ok db → Frame w.session.working db) :
    Advance allowed pointValue 0 w (w.amend result) := by
  cases result with
  | error e => exact .stay rfl le_rfl rfl
  | ok db =>
    exact .extend db [] rfl le_rfl (.single (.frame (h db rfl))) (by simp) (by simp [World.amend])

theorem BarStep.advance {allowed : FillApplication → Prop} {cfg : ServiceConfig} {w w' : World}
    {call : BarCall} {env : BarEnvironment} {r : Except Failure BarProcessResult}
    (h : BarStep cfg w call env w' r) (hids : ∀ x ∈ w.session.working.orders, x.id < w.nextId)
    (hallowed : ∀ a, SubmittedFill cfg w env a → allowed a) :
    Advance allowed cfg.pointValue w'.nextId w w' := by
  have hintent : ∀ {o : ExecutionOrder} {db : Database}, Intended w call o db →
      Write allowed cfg.pointValue (w.nextId + 3) w.session.working db := by
    intro o db hi
    refine .intent o (fun x hx => ?_) ?_ hi.write
    · have := hids x hx
      have := hi.id
      omega
    · have := hi.id
      omega
  have hflush : w.reports.flush = ⟨w.reports.durable ++ w.reports.pending ++ [], []⟩ := by
    simp [FillReports.flush]
  cases h with
  | skipped r _ => exact .stay rfl le_rfl rfl
  | failed n f hn => exact .drop rfl hn rfl
  | concluded db r hframe _ =>
    exact .commit db [] rfl (by simp) (.single (.frame hframe)) (by simp) hflush
  | intended db o f hi _ =>
    exact .commit db [] rfl (by simp) (.single (hintent hi)) (by simp) hflush
  | submitted db o request f hi _ _ =>
    exact .commit db [] rfl (by simp) (.single (hintent hi)) (by simp) hflush
  | settled db o request db' r hi _ hs =>
    exact .commit db' [] rfl (by simp) (.tail (.single (hintent hi)) (.settle _ hs)) (by simp) hflush
  | filled db o request db' r a hi _ ha hf horigin =>
    refine .commit db' [o.id] rfl (by simp)
      (.tail (.single (hintent hi)) (.fill a (hallowed a horigin) hf)) ?_ rfl
    intro id hid
    rw [List.mem_singleton.mp hid, ← ha]
    exact hf.isFilled

/-- Every fill that the event reports carries an external id of its own. -/
def FreshFills (cfg : ServiceConfig) (w : World) : Event → Prop
  | .processBar _ env => FreshSubmission cfg w env
  | .reconcile deploymentId broker _ =>
    FreshReports broker w.session.working
      (w.session.working.listPendingReconciliationOrders deploymentId)
  | .resolve orderId body now => FreshResolution w.session.committed orderId body now
  | _ => True

/-- The fills an event may bring are allowed. -/
def AllowedFills (allowed : FillApplication → Prop) (cfg : ServiceConfig) (w : World) :
    Event → Prop
  | .processBar _ env => ∀ a, SubmittedFill cfg w env a → allowed a
  | .reconcile _ broker _ => ∀ order deployment a,
    reportedFill broker order deployment = some a.fill → allowed a
  | .resolve orderId body now => ∀ order a, w.session.committed.getExecutionOrder orderId = some order →
    body.fillFor order now = some a.fill → allowed a
  | _ => True

theorem mem_filledOrders {outcomes : List ReconciliationOutcome} {id : ℕ} :
    id ∈ filledOrders outcomes ↔ ∃ o ∈ outcomes, o.resolution = .filled ∧ o.orderId = id := by
  simp [filledOrders, and_assoc]

/-- An event other than a service call creates no order. -/
theorem step_settles {allowed : FillApplication → Prop} {cfg : ServiceConfig} {w : World} {e : Event}
    {bound : ℕ} (hinv : OrderInvariant bound w.session.working) (hfresh : FreshFills cfg w e)
    (hallowed : AllowedFills allowed cfg w e) (he : ∀ call env, e ≠ .processBar call env) :
    Advance allowed cfg.pointValue 0 w (step cfg w e) := by
  cases e with
  | processBar call env => exact absurd rfl (he call env)
  | startup quotes now =>
    simp only [step]
    cases hrec : recover w.session.committed quotes now with
    | error e => exact .drop rfl le_rfl rfl
    | ok result =>
      refine .recover result.1 rfl le_rfl (recover_writes hrec) ?_
      simp [World.commit, World.rollback, FillReports.drop, FillReports.flush]
  | reconcile deploymentId broker now =>
    simp only [step]
    cases hpass : reconcilePending cfg broker now w.session.working deploymentId w.nextId with
    | error e => exact .drop rfl le_rfl rfl
    | ok result =>
      obtain ⟨db, n, outcomes⟩ := result
      obtain ⟨hwrites, hn, hfilled⟩ := reconcileOrders_writes hinv hpass hfresh hallowed
      refine .extend db (filledOrders outcomes) rfl hn hwrites (fun id hid => ?_) rfl
      obtain ⟨o, ho, hres, rfl⟩ := mem_filledOrders.mp hid
      exact hfilled o ho hres
  | resolve orderId body now =>
    simp only [step]
    by_cases hclean : w.session.working = w.session.committed
    · simp only [hclean, if_true]
      cases hres : resolveOrder cfg w.session.committed orderId body w.nextId now with
      | error e => exact .stay rfl le_rfl rfl
      | ok result =>
        obtain ⟨db, outcome⟩ := result
        obtain ⟨hwrite, hfilled⟩ := resolveOrder_write hres hfresh hallowed
        refine .commit db (filledOrders [outcome]) rfl (by simp) (by rw [hclean]; exact .single hwrite)
          (fun id hid => ?_) rfl
        obtain ⟨o, ho, hres, rfl⟩ := mem_filledOrders.mp hid
        rw [List.mem_singleton.mp ho] at hres ⊢
        exact hfilled hres
    · simp only [hclean, if_false]
      exact .stay rfl le_rfl rfl
  | operate command =>
    simp only [step]
    by_cases hclean : w.session.working = w.session.committed
    · simp only [hclean, if_true]
      cases hcommand : command.apply w.session.committed with
      | error e => exact .stay rfl le_rfl rfl
      | ok db =>
        refine .commit db [] rfl le_rfl ?_ (by simp) (by simp [World.commit, FillReports.flush])
        rw [hclean]
        exact .single (.frame (frame_operatorCommand hcommand))
    · simp only [hclean, if_false]
      exact .stay rfl le_rfl rfl
  | acquireLease => exact .amend (fun _ h => frame_acquireWorkerLease h)
  | heartbeatLease => exact .amend (fun _ h => frame_heartbeatWorkerLease h)
  | releaseLease => exact .amend (fun _ h => frame_releaseWorkerLease h)
  | clearPending => exact .amend (fun _ h => frame_clearPendingDeploymentAction h)
  | commit =>
    exact .commit w.session.working [] rfl le_rfl .refl (by simp)
      (by simp [step, World.commit, FillReports.flush])
  | restart => exact .drop rfl le_rfl rfl

theorem step_advance {allowed : FillApplication → Prop} {cfg : ServiceConfig} {w : World} {e : Event}
    (hinv : OrderInvariant w.nextId w.session.working) (hfresh : FreshFills cfg w e)
    (hallowed : AllowedFills allowed cfg w e) :
    Advance allowed cfg.pointValue (step cfg w e).nextId w (step cfg w e) := by
  by_cases he : ∃ call env, e = .processBar call env
  · obtain ⟨call, env, rfl⟩ := he
    exact (processCompletedBar_step hinv.below hfresh).advance hinv.below hallowed
  · push Not at he
    exact (step_settles hinv hfresh hallowed he).mono (Nat.zero_le _)

end QBackend.Execution
