import QBackend.DeploymentRows
import QBackend.ExecutionWorker

/-!
# What a poll keeps

`Kept` lists the few things a poll does to a worker: writes of the database, refreshed rows,
opened and closed runtimes, flattens and ingested batches. An invariant that each of them keeps
is kept by the whole poll; after the death of the process a weaker one is left.
-/

namespace QBackend.Execution

open KeyedTables StatefulActions RunInvariants

variable {S : Type}

/-- A worker after a write of the database. -/
def Worker.after (cfg : WorkerConfig S) (w : Worker S) (e : Event) : Worker S :=
  { w with world := Execution.step cfg.service w.world e }

/-- A service call, from what it does to the database. -/
theorem serviceCall_triple {cfg : WorkerConfig S} {P : Worker S → Prop} {Q : Unit → Worker S → Prop}
    {E : Failure → Worker S → Prop} {call : BarCall} {env : BarEnvironment}
    (h : ∀ w, P w →
      match (processCompletedBar cfg.service w.world call env).2 with
      | .ok _ => Q () (w.after cfg (.processBar call env))
      | .error f => E f (w.after cfg (.processBar call env))) :
    Triple P (serviceCall cfg call env) Q E := by
  intro w hw
  have hcall := h w hw
  simp only [serviceCall, perform, Bind.bind, Action.bind, Action.get, Action.modify]
  cases hres : (processCompletedBar cfg.service w.world call env).2 with
  | ok r =>
    rw [hres] at hcall
    exact hcall
  | error f =>
    rw [hres] at hcall
    exact hcall

theorem processResults_triple {cfg : WorkerConfig S} {env : PollEnvironment} {r : Runtime S}
    {Inv : Worker S → Prop} {E : Failure → Worker S → Prop} {results : List ForwardDecisionResult}
    (h : ∀ result remaining, Triple Inv
      (serviceCall cfg { deploymentId := r.deploymentId, result, leaseToken := r.leaseToken }
        (env.service r.deploymentId result.barCloseTime)) (fun _ => Inv)
      (fun f w => E f (Worker.noteFailure r.deploymentId remaining result.barCloseTime f w))) :
    Triple Inv (processResults cfg env r results) (fun _ => Inv) E := by
  induction results with
  | nil => exact Triple.pure (fun _ hw => hw)
  | cons result rest ih => exact Triple.bind (Triple.onFailure (h result rest.length)) (fun _ => ih)

/-- An exception leaves the invariant, the death of the process what remains of it. -/
def Fails (Inv Dead : Worker S → Prop) : Failure → Worker S → Prop
  | .raised _, w => Inv w
  | .killed, w => Dead w

/-- The database writes of a poll, apart from service calls and cleared requests. -/
inductive PollEvent (env : PollEnvironment) : Event → Prop where
  | acquireLease (id : ℕ) (token : String) (ttl now : Time) : PollEvent env (.acquireLease id token ttl now)
  | heartbeatLease (id : ℕ) (token : String) (ttl now : Time) :
      PollEvent env (.heartbeatLease id token ttl now)
  | releaseLease (id : ℕ) (token : String) : PollEvent env (.releaseLease id token)
  | reconcile (id : ℕ) : PollEvent env (.reconcile (some id) env.broker env.now)
  | commit : PollEvent env .commit
  | restart : PollEvent env .restart

theorem Worker.runtime_updateRuntime {w : Worker S} {id : ℕ} {f : Runtime S → Runtime S}
    (hf : ∀ r, (f r).deploymentId = r.deploymentId) :
    (w.updateRuntime id f).runtime id = (w.runtime id).map f :=
  lookup_modify_self hf

theorem Worker.map_updateRuntime {w : Worker S} {id : ℕ} {f : Runtime S → Runtime S}
    (hf : ∀ r, (f r).deploymentId = r.deploymentId) :
    (w.updateRuntime id f).runtimes.map Runtime.deploymentId = w.runtimes.map Runtime.deploymentId :=
  map_modify hf

theorem Worker.nodup_opened {w : Worker S} {r : Runtime S}
    (h : (w.runtimes.map Runtime.deploymentId).Nodup) (hnone : w.runtime r.deploymentId = none) :
    ((w.runtimes ++ [r]).map Runtime.deploymentId).Nodup := by
  simp only [List.map_append, List.map_singleton]
  refine List.Nodup.append h (by simp) (List.disjoint_singleton.mpr fun hmem => ?_)
  obtain ⟨x, hx, hkey⟩ := List.mem_map.mp hmem
  exact lookup_eq_none.mp hnone x hx hkey

theorem Worker.nodup_closed {w : Worker S} (h : (w.runtimes.map Runtime.deploymentId).Nodup) (id : ℕ) :
    ((w.runtimes.filter (fun x => x.deploymentId ≠ id)).map Runtime.deploymentId).Nodup :=
  h.sublist (List.filter_sublist.map _)

theorem amend_deployments {w : World} {result : Except ExecutionError Database}
    (h : ∀ db, result = .ok db → db.deployments = w.session.working.deployments) :
    (w.amend result).session.working.deployments = w.session.working.deployments := by
  cases result with
  | error e => rfl
  | ok db => exact h db rfl

/-- The deployments whose leases a poll keeps. -/
def Database.activeIds (db : Database) : List ℕ :=
  (db.listDeployments [.running, .paused]).map ExecutionDeployment.id

/-- The consumers of a poll: the leased deployments that are running. -/
def Worker.consumers (w : Worker S) : List DeploymentBarConsumer :=
  (w.runtimes.filter (fun r => r.deployment.lifecycle = .running)).map Runtime.consumer

/-- The part of a poll before its bars are fetched. -/
def preparePoll (cfg : WorkerConfig S) (env : PollEnvironment) : WorkerAction S Unit := do
  refreshDeployments cfg env
  interruptAt env .refreshed
  let w ← Action.get
  Action.each (reconcileDeployment cfg env) (w.runtimes.map Runtime.deploymentId)
  interruptAt env .reconciled

/-- The part of a poll after the flattens. -/
def processBars (cfg : WorkerConfig S) (env : PollEnvironment) (batches : List CompletedBarBatch)
    (ids : List ℕ) : WorkerAction S Unit := do
  interruptAt env .flattened
  Action.each (processRuntime cfg env batches) ids
  interruptAt env .processed
  perform cfg .commit

theorem processBatches_eq (cfg : WorkerConfig S) (env : PollEnvironment)
    (batches : List CompletedBarBatch) :
    processBatches cfg env batches = Action.get >>= fun w =>
      Action.each (flattenPending cfg env) (w.runtimes.map Runtime.deploymentId) >>= fun _ =>
        processBars cfg env batches (w.runtimes.map Runtime.deploymentId) :=
  rfl

/-- The rest of a poll, from the state in which the coordinator is asked. -/
def dispatchPoll (cfg : WorkerConfig S) (env : PollEnvironment) (w : Worker S) :
    WorkerAction S Unit :=
  if w.consumers = [] then perform cfg .commit
  else
    match env.coordinator.poll cfg.initialWindowBars w.consumers with
    | .error e => Action.throw (.raised e)
    | .ok batches => processBatches cfg env batches

theorem pollOnce_eq (cfg : WorkerConfig S) (env : PollEnvironment) :
    pollOnce cfg env = preparePoll cfg env >>= fun _ => Action.get >>= dispatchPoll cfg env := by
  simp only [pollOnce, preparePoll, Action.bind_assoc]
  rfl

/-- The new bars of a runtime in some batch of its stream. -/
def NewBars (r : Runtime S) (deployment : ExecutionDeployment) (bars : List Bar) : Prop :=
  ∃ batch : CompletedBarBatch, batch.key.timeframe = deployment.timeframe.toUpper ∧
    newBarsForConsumer batch r.evaluator.lastEvaluatedClose = .ok bars

/-- The state in which a batch is handed to a runtime. -/
structure Ready (r : Runtime S) (deployment : ExecutionDeployment) (w : Worker S) : Prop where
  runtime : w.runtime r.deploymentId = some { r with deployment }
  row : w.working.getExecutionDeployment r.deploymentId = some deployment

/-- What the bars of a poll keep. -/
structure KeptBars (cfg : WorkerConfig S) (env : PollEnvironment)
    (batches : List CompletedBarBatch) (Inv Dead : Worker S → Prop) : Prop where
  dead : ∀ w, Inv w → Dead w
  commit : ∀ w, Inv w → Inv (w.after cfg .commit)
  refreshed : ∀ w id deployment, w.working.getExecutionDeployment id = some deployment → Inv w →
    Inv (w.updateRuntime id (fun r => { r with deployment }))
  ingested : ∀ r deployment batch bars, batch ∈ batches →
    batch.key = ⟨deployment.symbol, deployment.timeframe.toUpper⟩ →
    newBarsForConsumer batch r.evaluator.lastEvaluatedClose = .ok bars →
    Triple (fun w => Inv w ∧ Ready r deployment w) (ingestBatch cfg env r bars) (fun _ => Inv)
      (Fails Inv Dead)

/-- What the part of a poll that has its bars keeps: no runtime is opened or closed any more. -/
structure KeptBatches (cfg : WorkerConfig S) (env : PollEnvironment)
    (batches : List CompletedBarBatch) (Inv Dead : Worker S → Prop) : Prop
    extends KeptBars cfg env batches Inv Dead where
  flattened : ∀ id, Triple Inv (flattenPending cfg env id) (fun _ => Inv) (Fails Inv Dead)

/-- What the part of a poll before its bars keeps. -/
structure KeptPreparation (cfg : WorkerConfig S) (env : PollEnvironment)
    (Inv Dead : Worker S → Prop) : Prop where
  dead : ∀ w, Inv w → Dead w
  event : ∀ w e, PollEvent env e → Inv w → Inv (w.after cfg e)
  refreshed : ∀ w id deployment, Inv w →
    Inv (w.updateRuntime id (fun r => { r with deployment }))
  opened : ∀ w deployment r, buildRuntime cfg (env.buildCoordinator deployment.id) w.working
    deployment (env.leaseToken deployment.id) = .ok r → w.runtime deployment.id = none →
    deployment ∈ w.working.deployments → Inv w → Inv { w with runtimes := w.runtimes ++ [r] }
  closed : ∀ w id, id ∉ w.working.activeIds → Inv w →
    Inv { w with runtimes := w.runtimes.filter (fun x => x.deploymentId ≠ id) }

structure Kept (cfg : WorkerConfig S) (env : PollEnvironment) (Inv Dead : Worker S → Prop) : Prop
    extends KeptPreparation cfg env Inv Dead where
  cleared : ∀ w id, Inv w → Inv (w.after cfg (.clearPending id))
  flattened : ∀ id token, Triple Inv
    (serviceCall cfg (flattenCall id token (env.flatten id).now) (env.flatten id))
    (fun _ => Inv) (Fails Inv Dead)
  ingested : ∀ r deployment bars, NewBars r deployment bars →
    Triple (fun w => Inv w ∧ Ready r deployment w) (ingestBatch cfg env r bars) (fun _ => Inv)
      (Fails Inv Dead)

theorem interruptAt_triple {env : PollEnvironment} {Inv Dead : Worker S → Prop}
    (hdead : ∀ w, Inv w → Dead w) (stage : PollStage) :
    Triple Inv (interruptAt env stage) (fun _ => Inv) (Fails Inv Dead) := by
  unfold interruptAt
  split
  · exact Triple.pure (fun _ hw => hw)
  · exact Triple.throw (fun _ hw => hw)
  · exact Triple.throw (fun w hw => hdead w hw)

theorem flattenPending_triple {cfg : WorkerConfig S} {env : PollEnvironment}
    {Inv Dead : Worker S → Prop} {id : ℕ}
    (hrefreshed : ∀ w deployment, Inv w →
      Inv (w.updateRuntime id (fun r => { r with deployment })))
    (hcall : ∀ token, Triple Inv
      (serviceCall cfg (flattenCall id token (env.flatten id).now) (env.flatten id))
      (fun _ => Inv) (Fails Inv Dead))
    (hclear : ∀ w, Inv w → Inv (w.after cfg (.clearPending id))) :
    Triple Inv (flattenPending cfg env id) (fun _ => Inv) (Fails Inv Dead) := by
  refine Triple.get_bind (fun w _ => ?_)
  split
  next r deployment _ _ =>
    refine Triple.bind (Q := fun _ => Inv)
      (Triple.modify (fun t ht => hrefreshed t deployment ht.2)) (fun _ => ?_)
    split
    · exact Triple.bind (hcall r.leaseToken) (fun _ => Triple.modify (fun w hw => hclear w hw))
    · exact Triple.pure (fun _ ht => ht)
  · exact Triple.pure (fun _ ht => ht.2)

namespace KeptBars

variable {cfg : WorkerConfig S} {env : PollEnvironment} {batches : List CompletedBarBatch}
  {Inv Dead : Worker S → Prop}

theorem processRuntime (h : KeptBars cfg env batches Inv Dead) (id : ℕ) :
    Triple Inv (processRuntime cfg env batches id) (fun _ => Inv) (Fails Inv Dead) := by
  refine Triple.get_bind (fun w _ => ?_)
  split
  next r deployment hr hrow =>
    have hid : r.deploymentId = id := key_of_lookup hr
    subst hid
    split
    · refine Triple.bind (Q := fun _ w => Inv w ∧ Ready r deployment w)
        (Triple.modify (fun t ht => ?_)) (fun _ => ?_)
      · obtain ⟨rfl, hinv⟩ := ht
        refine ⟨h.refreshed t _ deployment hrow hinv, ?_, hrow⟩
        rw [Worker.runtime_updateRuntime (fun _ => by rfl), hr, Option.map_some]
      · split
        · exact Triple.pure (fun _ ht => ht.1)
        next batch hbatch =>
          split
          · exact Triple.throw (fun _ ht => ht.1)
          next bars hbars =>
            split
            · exact Triple.pure (fun _ ht => ht.1)
            · have hkey := List.find?_some hbatch
              simp only [decide_eq_true_eq] at hkey
              exact h.ingested r deployment batch bars (List.mem_of_find?_eq_some hbatch) hkey hbars
    · exact Triple.pure (fun _ ht => ht.2)
  · exact Triple.pure (fun _ ht => ht.2)

theorem processBars (h : KeptBars cfg env batches Inv Dead) (ids : List ℕ) :
    Triple Inv (processBars cfg env batches ids) (fun _ => Inv) (Fails Inv Dead) := by
  refine Triple.bind (interruptAt_triple h.dead .flattened) (fun _ => ?_)
  refine Triple.bind (Triple.each (fun id _ => h.processRuntime id)) (fun _ => ?_)
  refine Triple.bind (interruptAt_triple h.dead .processed) (fun _ => ?_)
  exact Triple.modify (fun w hw => h.commit w hw)

end KeptBars

theorem KeptBatches.processBatches {cfg : WorkerConfig S} {env : PollEnvironment}
    {batches : List CompletedBarBatch} {Inv Dead : Worker S → Prop}
    (h : KeptBatches cfg env batches Inv Dead) :
    Triple Inv (processBatches cfg env batches) (fun _ => Inv) (Fails Inv Dead) := by
  rw [processBatches_eq]
  refine Triple.get_bind (fun w _ => Triple.bind (Q := fun _ => Inv) ?_ (fun _ => h.processBars _))
  exact (Triple.each (fun id _ => h.flattened id)).conseq (fun _ ht => ht.2) (fun _ _ ht => ht)
    (fun _ _ ht => ht)


namespace KeptPreparation

variable {cfg : WorkerConfig S} {env : PollEnvironment} {Inv Dead : Worker S → Prop}

theorem perform (h : KeptPreparation cfg env Inv Dead) {e : Event} (he : PollEvent env e) :
    Triple Inv (perform cfg e) (fun _ => Inv) (Fails Inv Dead) :=
  Triple.modify (fun w hw => h.event w e he hw)

/-- The invariant while the deployments are refreshed: their rows are the ones that were listed. -/
def Refreshing (Inv : Worker S → Prop) (rows : List ExecutionDeployment) (w : Worker S) : Prop :=
  Inv w ∧ w.working.deployments = rows

theorem heartbeat (h : KeptPreparation cfg env Inv Dead) (rows : List ExecutionDeployment) (r : Runtime S) :
    Triple (Refreshing Inv rows) (heartbeat cfg env r) (fun _ => Refreshing Inv rows)
      (Fails Inv Dead) := by
  refine Triple.get_bind (fun w _ => ?_)
  unfold Execution.attempt
  split
  · exact Triple.throw (fun _ ht => ht.2.1)
  · refine Triple.modify (fun t ht => ⟨h.event t _ (.heartbeatLease _ _ _ _) ht.2.1, ?_⟩)
    exact (amend_deployments (fun _ hdb => (sameRows_heartbeatWorkerLease hdb).deployments)).trans ht.2.2

theorem openDeployment (h : KeptPreparation cfg env Inv Dead) {rows : List ExecutionDeployment}
    {deployment : ExecutionDeployment} (hrow : deployment ∈ rows) :
    Triple (fun w => Refreshing Inv rows w ∧ w.runtime deployment.id = none)
      (openDeployment cfg env deployment) (fun _ => Refreshing Inv rows) (Fails Inv Dead) := by
  refine Triple.get_bind (fun w _ => ?_)
  dsimp only
  split
  · exact Triple.pure (fun _ ht => ht.2.1)
  · refine Triple.bind (Q := fun _ w => Refreshing Inv rows w ∧ w.runtime deployment.id = none)
      (Triple.modify (fun t ht => ⟨⟨?_, ?_⟩, ht.2.2⟩)) (fun _ => ?_)
    · exact h.event t _ (.acquireLease _ _ _ _) ht.2.1.1
    · exact (amend_deployments (fun _ hdb => (sameRows_acquireWorkerLease hdb).deployments)).trans ht.2.1.2
    · refine Triple.get_bind (fun w hw => ?_)
      split
      · exact Triple.throw (fun _ ht => ht.2.1.1)
      next r hr =>
        refine Triple.modify (fun t ht => ⟨?_, ht.2.1.2⟩)
        obtain ⟨rfl, ⟨hinv, hkept⟩, hnone⟩ := ht
        exact h.opened t deployment r hr hnone (hkept ▸ hrow) hinv

theorem refreshDeployment (h : KeptPreparation cfg env Inv Dead) {rows : List ExecutionDeployment}
    {deployment : ExecutionDeployment} (hrow : deployment ∈ rows) :
    Triple (Refreshing Inv rows) (refreshDeployment cfg env deployment)
      (fun _ => Refreshing Inv rows) (Fails Inv Dead) := by
  refine Triple.get_bind (fun w hw => ?_)
  split
  next r hr =>
    refine Triple.bind (Q := fun _ => Refreshing Inv rows) ?_ (fun _ => ?_)
    · exact (h.heartbeat rows r).conseq (fun _ ht => ht.2) (fun _ _ ht => ht) (fun _ _ ht => ht)
    · split
      · exact Triple.pure (fun _ ht => ht)
      · exact Triple.modify (fun t ht => ⟨h.refreshed t deployment.id deployment ht.1, ht.2⟩)
  next hnone =>
    split
    · exact Triple.pure (fun _ ht => ht.2)
    · refine (h.openDeployment hrow).conseq (fun t ht => ?_) (fun _ _ ht => ht) (fun _ _ ht => ht)
      obtain ⟨rfl, hinv⟩ := ht
      exact ⟨hinv, hnone⟩

theorem releaseDeployment (h : KeptPreparation cfg env Inv Dead) {rows : List ExecutionDeployment}
    {r : Runtime S} (hr : ∀ w : Worker S, w.working.deployments = rows →
      r.deploymentId ∉ w.working.activeIds) :
    Triple (Refreshing Inv rows) (releaseDeployment cfg r) (fun _ => Refreshing Inv rows)
      (Fails Inv Dead) := by
  refine Triple.bind (Q := fun _ => Refreshing Inv rows)
    (Triple.modify (fun w hw => ⟨h.closed w _ (hr w hw.2) hw.1, hw.2⟩)) (fun _ => ?_)
  refine Triple.modify (fun w hw => ⟨h.event w _ (.releaseLease _ _) hw.1, ?_⟩)
  exact (amend_deployments (fun _ hdb => (sameRows_releaseWorkerLease hdb).deployments)).trans hw.2

theorem refreshDeployments (h : KeptPreparation cfg env Inv Dead) :
    Triple Inv (refreshDeployments cfg env) (fun _ => Inv) (Fails Inv Dead) := by
  refine Triple.get_bind (fun w _ => ?_)
  refine Triple.bind (Q := fun _ => Refreshing Inv w.working.deployments) ?_ (fun _ => ?_)
  · have hrows : ∀ d ∈ w.working.listDeployments [.running, .paused], d ∈ w.working.deployments :=
      fun d hd => (List.mem_filter.mp hd).1
    refine (Triple.each (fun d hd => h.refreshDeployment (hrows d hd))).conseq (fun t ht => ?_)
      (fun _ _ ht => ht) (fun _ _ ht => ht)
    obtain ⟨rfl, hinv⟩ := ht
    exact ⟨hinv, rfl⟩
  · refine Triple.get_bind (fun s _ => ?_)
    refine (Triple.each (fun r hr => h.releaseDeployment (fun t ht => ?_))).conseq
      (fun _ ht => ht.2) (fun _ _ ht => ht.1) (fun _ _ ht => ht)
    have hclosed := (List.mem_filter.mp hr).2
    rw [Database.activeIds, Database.listDeployments, ht]
    exact of_decide_eq_true hclosed

theorem reconcileDeployment (h : KeptPreparation cfg env Inv Dead) (id : ℕ) :
    Triple Inv (reconcileDeployment cfg env id) (fun _ => Inv) (Fails Inv Dead) := by
  refine Triple.get_bind (fun w _ => ?_)
  split
  · exact Triple.throw (fun _ ht => ht.2)
  · exact (h.perform (.reconcile id)).conseq (fun _ ht => ht.2) (fun _ _ ht => ht)
      (fun _ _ ht => ht)

theorem preparePoll (h : KeptPreparation cfg env Inv Dead) :
    Triple Inv (preparePoll cfg env) (fun _ => Inv) (Fails Inv Dead) := by
  refine Triple.bind h.refreshDeployments (fun _ => ?_)
  refine Triple.bind (interruptAt_triple h.dead .refreshed) (fun _ => Triple.get_bind (fun w _ => ?_))
  refine Triple.bind (Q := fun _ => Inv) ?_ (fun _ => interruptAt_triple h.dead .reconciled)
  exact (Triple.each (fun id _ => h.reconcileDeployment id)).conseq (fun _ ht => ht.2)
    (fun _ _ ht => ht) (fun _ _ ht => ht)

/-- The poll as the loop of `run` sees it, from what the part that has its bars does. -/
theorem poll_of_batches (h : KeptPreparation cfg env Inv Dead) {w : Worker S} (hw : Inv w)
    (hbatches : ∀ s batches, Inv s → Execution.preparePoll cfg env w = (.ok (), s) →
      s.consumers ≠ [] → env.coordinator.poll cfg.initialWindowBars s.consumers = .ok batches →
      Triple (fun t => t = s) (processBatches cfg env batches) (fun _ => Inv) (Fails Inv Dead)) :
    Inv (w.poll cfg env) ∨ ∃ w', Dead w' ∧ w.poll cfg env = w'.die cfg := by
  have hdispatch : ∀ s, Inv s → Execution.preparePoll cfg env w = (.ok (), s) →
      Triple (fun t => t = s) (dispatchPoll cfg env s) (fun _ => Inv) (Fails Inv Dead) := by
    intro s hs hprepared
    unfold Execution.dispatchPoll
    split
    · exact (h.perform .commit).conseq (fun _ ht => ht ▸ hs) (fun _ _ ht => ht) (fun _ _ ht => ht)
    next hconsumers =>
      split
      · exact Triple.throw (fun _ ht => ht ▸ hs)
      next batches hpoll => exact hbatches s batches hs hprepared hconsumers hpoll
  have hpoll : Triple (fun t => t = w) (pollOnce cfg env) (fun _ => Inv) (Fails Inv Dead) := by
    rw [pollOnce_eq]
    intro t ht
    subst ht
    have hprepared := h.preparePoll t hw
    simp only [Bind.bind, Action.bind]
    cases hres : Execution.preparePoll cfg env t with
    | mk r s =>
      rw [hres] at hprepared
      cases r with
      | error f => exact hprepared
      | ok u => exact hdispatch s hprepared hres s rfl
  have hres := hpoll w rfl
  unfold Worker.poll
  split at hres
  next heq =>
    rw [heq]
    exact .inl hres
  next f t heq =>
    rw [heq]
    cases f with
    | raised e => exact .inl (h.event t .restart .restart hres)
    | killed => exact .inr ⟨t, hres, rfl⟩

/-- The poll as the loop of `run` sees it, when each answer of the coordinator comes with an
invariant of its own for the rest of the poll. -/
theorem poll (h : KeptPreparation cfg env Inv Dead) {w : Worker S} (hw : Inv w)
    (hbatches : ∀ s batches, Inv s → Execution.preparePoll cfg env w = (.ok (), s) →
      env.coordinator.poll cfg.initialWindowBars s.consumers = .ok batches →
      ∃ Inv', Inv' s ∧ KeptBatches cfg env batches Inv' Dead ∧ ∀ t, Inv' t → Inv t) :
    Inv (w.poll cfg env) ∨ ∃ w', Dead w' ∧ w.poll cfg env = w'.die cfg := by
  refine h.poll_of_batches hw (fun s batches hs hprepared _ hpoll => ?_)
  obtain ⟨Inv', hs', hkept, hweaken⟩ := hbatches s batches hs hprepared hpoll
  refine hkept.processBatches.conseq (fun _ ht => ht ▸ hs') (fun _ t ht => hweaken t ht)
    (fun f t ht => ?_)
  cases f with
  | raised e => exact hweaken t ht
  | killed => exact ht

end KeptPreparation

namespace Kept

variable {cfg : WorkerConfig S} {env : PollEnvironment} {Inv Dead : Worker S → Prop}

theorem flattenPending (h : Kept cfg env Inv Dead) (id : ℕ) :
    Triple Inv (flattenPending cfg env id) (fun _ => Inv) (Fails Inv Dead) :=
  flattenPending_triple (fun w deployment hw => h.refreshed w id deployment hw) (h.flattened id)
    (fun w hw => h.cleared w id hw)

theorem keptBatches (h : Kept cfg env Inv Dead) (batches : List CompletedBarBatch) :
    KeptBatches cfg env batches Inv Dead where
  dead := h.dead
  commit w hw := h.event w .commit .commit hw
  refreshed w id deployment _ hw := h.refreshed w id deployment hw
  flattened := h.flattenPending
  ingested r deployment batch bars _ hkey hbars :=
    h.ingested r deployment bars ⟨batch, by rw [hkey], hbars⟩

theorem poll (h : Kept cfg env Inv Dead) {w : Worker S} (hw : Inv w) :
    Inv (w.poll cfg env) ∨ ∃ w', Dead w' ∧ w.poll cfg env = w'.die cfg :=
  h.toKeptPreparation.poll hw (fun _ batches hs _ _ => ⟨Inv, hs, h.keptBatches batches, fun _ ht => ht⟩)

end Kept

/-! ## Whole runs -/

/-- The database after the part of a start that recovers it. -/
def Worker.recovered (cfg : WorkerConfig S) (quotes : String → Option ExecutableQuote) (now : Time)
    (w : Worker S) : World :=
  Execution.step cfg.service (Execution.step cfg.service w.world .restart) (.startup quotes now)

/-- A start that fails ends the process after the recovery; one that succeeds has recovered and
reconciled. -/
theorem Worker.start_cases (cfg : WorkerConfig S) (quotes : String → Option ExecutableQuote)
    (broker : ExecutionBroker) (now : Time) (w : Worker S) :
    w.start cfg quotes broker now =
      ⟨Execution.step cfg.service (w.recovered cfg quotes now) .restart, [], false, w.evaluations, w.exceptions⟩ ∨
    ((∃ result, recover w.world.session.committed quotes now = .ok result) ∧
      w.start cfg quotes broker now =
        ⟨Execution.step cfg.service (Execution.step cfg.service (w.recovered cfg quotes now)
          (.reconcile none broker now)) .commit, [], true, w.evaluations, w.exceptions⟩) := by
  have hcommitted : (w.die cfg).world.session.committed = w.world.session.committed := rfl
  simp only [Worker.start, startup, bind, Action.bind, Action.get, perform, Action.modify,
    hcommitted]
  cases hrec : recover w.world.session.committed quotes now with
  | error e => exact .inl rfl
  | ok result =>
    obtain ⟨db, result⟩ := result
    cases hclosed : result.failedClosed with
    | true =>
      simp only [hclosed, if_true]
      exact .inl rfl
    | false =>
      simp only [hclosed, Bool.false_eq_true, if_false, Action.bind, Action.get]
      cases reconcilePending cfg.service broker now (Worker.working { w.die cfg with
          world := Execution.step cfg.service (w.die cfg).world (.startup quotes now) }) none
          (Execution.step cfg.service (w.die cfg).world (.startup quotes now)).nextId with
      | error e => exact .inl rfl
      | ok pass => exact .inr ⟨⟨_, rfl⟩, rfl⟩

/-- No transaction is open. -/
def Worker.Clean (w : Worker S) : Prop := w.world.session.working = w.world.session.committed

theorem clean_pollOnce (cfg : WorkerConfig S) (env : PollEnvironment) :
    Triple (fun _ => True) (pollOnce cfg env) (fun _ => Worker.Clean) (fun _ _ => True) := by
  have hcommit : Triple (fun _ => True) (perform cfg .commit) (fun _ => Worker.Clean (S := S))
      (fun _ _ => True) := Triple.modify (fun _ _ => rfl)
  rw [pollOnce_eq]
  refine Triple.bind (Triple.trivial _ _) (fun _ => Triple.get_bind (fun w _ => ?_))
  unfold dispatchPoll
  split
  · exact hcommit.conseq (fun _ _ => trivial) (fun _ _ h => h) (fun _ _ h => h)
  · split
    · exact Triple.throw (fun _ _ => trivial)
    · refine Triple.get_bind (fun _ _ => ?_)
      refine Triple.bind (Triple.trivial _ _) (fun _ => ?_)
      refine Triple.bind (Triple.trivial _ _) (fun _ => ?_)
      refine Triple.bind (Triple.trivial _ _) (fun _ => ?_)
      exact Triple.bind (Triple.trivial _ _) (fun _ => hcommit)

/-- Between the events of a worker no transaction is open. -/
theorem Worker.Clean.step {cfg : WorkerConfig S} {w : Worker S} (h : w.Clean) (e : WorkerEvent) :
    (w.step cfg e).Clean := by
  cases e with
  | start quotes broker now =>
    simp only [Worker.step]
    split
    · exact h
    · rcases w.start_cases cfg quotes broker now with heq | ⟨-, heq⟩ <;> rw [heq] <;> rfl
  | poll env =>
    simp only [Worker.step]
    split
    · have hpoll := clean_pollOnce cfg env w True.intro
      unfold Worker.poll
      split
      next heq =>
        rw [heq] at hpoll
        exact hpoll
      · rfl
      · rfl
    · exact h
  | operate command =>
    simp only [Worker.step, Execution.step, Clean]
    split
    · split
      · exact h
      · rfl
    · exact h
  | shutdown =>
    simp only [Worker.step]
    split
    · unfold Worker.shutdown
      split <;> rfl
    · exact h
  | die => rfl

/-- An invariant of the live worker and what remains of it when the process is gone. -/
structure KeptRuns (cfg : WorkerConfig S) (Good : WorkerEvent → Prop) (Inv Dead : Worker S → Prop) :
    Prop where
  alive : ∀ w, Inv w → w.alive = true
  poll : ∀ env, Good (.poll env) → Kept cfg env Inv Dead
  start : ∀ quotes broker now w, Good (.start quotes broker now) → Dead w →
    Dead ⟨Execution.step cfg.service (w.recovered cfg quotes now) .restart, [], false, w.evaluations, w.exceptions⟩ ∧
    ((∃ result, recover w.world.session.committed quotes now = .ok result) →
      Inv ⟨Execution.step cfg.service (Execution.step cfg.service (w.recovered cfg quotes now)
        (.reconcile none broker now)) .commit, [], true, w.evaluations, w.exceptions⟩)
  operate : ∀ w command, Inv w → Inv (w.after cfg (.operate command))
  operateDead : ∀ w command, Dead w → Dead (w.after cfg (.operate command))
  release : ∀ w id token, Inv w →
    Inv (({ w with runtimes := w.runtimes.filter (fun x => x.deploymentId ≠ id) } : Worker S).after
      cfg (.releaseLease id token))
  commit : ∀ w, Inv w → Inv (w.after cfg .commit)
  dead : ∀ w, Inv w → Dead w
  die : ∀ w, Dead w → Dead (w.die cfg)

def Holds (Inv Dead : Worker S → Prop) (w : Worker S) : Prop :=
  (w.alive = true ∧ Inv w) ∨ (w.alive = false ∧ Dead w)

namespace KeptRuns

variable {cfg : WorkerConfig S} {Good : WorkerEvent → Prop} {Inv Dead : Worker S → Prop}

theorem shutdown (h : KeptRuns cfg Good Inv Dead) {w : Worker S} (hw : Inv w) :
    Dead (w.shutdown cfg) := by
  have hrelease : Triple Inv (Action.each (releaseDeployment cfg) w.runtimes) (fun _ => Inv)
      (fun _ => Inv) := by
    refine Triple.each (fun r _ => ?_)
    exact fun t ht => h.release t r.deploymentId r.leaseToken ht
  have hres := hrelease w hw
  unfold Worker.shutdown
  split at hres
  next heq =>
    rw [heq]
    exact h.die _ (h.dead _ (h.commit _ hres))
  next heq =>
    rw [heq]
    exact h.die _ (h.dead _ hres)

theorem step (h : KeptRuns cfg Good Inv Dead) {w : Worker S} {e : WorkerEvent} (he : Good e)
    (hw : Holds Inv Dead w) : Holds Inv Dead (w.step cfg e) := by
  have hdie : ∀ {t}, Dead t → Holds Inv Dead (t.die cfg) := fun ht => .inr ⟨rfl, h.die _ ht⟩
  rcases hw with ⟨halive, hw⟩ | ⟨halive, hw⟩
  · cases e with
    | start quotes broker now => simpa [Worker.step, halive] using .inl ⟨halive, hw⟩
    | poll env =>
      simp only [Worker.step, halive, if_true]
      rcases (h.poll env he).poll hw with hinv | ⟨w', hdead, heq⟩
      · exact .inl ⟨h.alive _ hinv, hinv⟩
      · rw [heq]
        exact hdie hdead
    | operate command => exact .inl ⟨halive, h.operate w command hw⟩
    | shutdown =>
      simp only [Worker.step, halive, if_true]
      refine .inr ⟨?_, h.shutdown hw⟩
      unfold Worker.shutdown
      split <;> rfl
    | die => exact hdie (h.dead w hw)
  · cases e with
    | start quotes broker now =>
      simp only [Worker.step, halive, Bool.false_eq_true, if_false]
      obtain ⟨hfail, hok⟩ := h.start quotes broker now w he hw
      rcases w.start_cases cfg quotes broker now with heq | ⟨hrec, heq⟩
      · rw [heq]
        exact .inr ⟨rfl, hfail⟩
      · rw [heq]
        exact .inl ⟨rfl, hok hrec⟩
    | poll env => simpa [Worker.step, halive] using .inr ⟨halive, hw⟩
    | operate command => exact .inr ⟨halive, h.operateDead w command hw⟩
    | shutdown => simpa [Worker.step, halive] using .inr ⟨halive, hw⟩
    | die => exact hdie hw

theorem run (h : KeptRuns cfg Good Inv Dead) {w : Worker S} {events : List WorkerEvent}
    (hgood : ∀ e ∈ events, Good e) (hw : Holds Inv Dead w) :
    Holds Inv Dead (run (Worker.step cfg) w events) :=
  invariant_of_admissible _ (Admissible.of_forall hgood w) hw (fun _ _ he hs => h.step he hs)

end KeptRuns

/-! ## Properties of the rows -/

section Rows

variable {cfg : WorkerConfig S} {P : Database → Prop}

/-- A live worker whose databases both have a property. -/
structure LiveRows (P : Database → Prop) (w : Worker S) : Prop where
  alive : w.alive = true
  both : w.world.Both P

theorem LiveRows.after (cfg : WorkerConfig S) (hP : ∀ e db db', EventRows db db' e → P db → P db')
    {w : Worker S} (h : LiveRows P w) (e : Event) : LiveRows P (w.after cfg e) :=
  ⟨h.alive, both_step cfg.service (hP e) h.both⟩

theorem serviceCall_liveRows {call : BarCall} {env : BarEnvironment}
    (hP : ∀ db db', CallRows call db db' → P db → P db') :
    Triple (LiveRows P) (serviceCall cfg call env) (fun _ => LiveRows P)
      (Fails (LiveRows P) (fun w => w.world.Both P)) := by
  refine serviceCall_triple (fun w hw => ?_)
  have hafter : LiveRows P (w.after cfg (.processBar call env)) :=
    ⟨hw.alive, both_step (e := .processBar call env) cfg.service hP hw.both⟩
  split
  · exact hafter
  next f _ =>
    cases f with
    | raised e => exact hafter
    | killed => exact hafter.both

theorem ingestBatch_liveRows (hP : ∀ call db db', CallRows call db db' → P db → P db')
    (env : PollEnvironment) (r : Runtime S) (bars : List Bar) :
    Triple (LiveRows P) (ingestBatch cfg env r bars) (fun _ => LiveRows P)
      (Fails (LiveRows P) (fun w => w.world.Both P)) := by
  refine Triple.bind (Q := fun _ => LiveRows P)
    (Triple.modify (fun w hw => ⟨hw.alive, hw.both⟩)) (fun _ => ?_)
  split
  · exact Triple.bind (Q := fun _ => LiveRows P) (Triple.modify (fun _ hw => ⟨hw.alive, hw.both⟩))
      (fun _ => Triple.throw (fun _ hw => hw))
  · refine processResults_triple (fun result remaining => ?_)
    refine (serviceCall_liveRows (hP _)).conseq (fun _ hw => hw) (fun _ _ hw => hw) (fun f w hw => ?_)
    cases f with
    | raised e => exact ⟨hw.alive, hw.both⟩
    | killed => exact hw

theorem kept_liveRows (hP : ∀ e db db', EventRows db db' e → P db → P db') (env : PollEnvironment) :
    Kept cfg env (LiveRows P) (fun w => w.world.Both P) where
  dead _ hw := hw.both
  event _ e _ hw := hw.after cfg hP e
  refreshed _ _ _ hw := ⟨hw.alive, hw.both⟩
  opened _ _ _ _ _ _ hw := ⟨hw.alive, hw.both⟩
  closed _ _ _ hw := ⟨hw.alive, hw.both⟩
  cleared _ id hw := hw.after cfg hP (.clearPending id)
  flattened id _ := serviceCall_liveRows (hP (.processBar _ (env.flatten id)))
  ingested r _ bars _ := (ingestBatch_liveRows
    (fun call => hP (.processBar call (env.flatten r.deploymentId))) env r bars).conseq
    (fun _ hw => hw.1) (fun _ _ hw => hw) (fun _ _ hw => hw)

theorem keptRuns_liveRows (hP : ∀ e db db', EventRows db db' e → P db → P db') :
    KeptRuns cfg (fun _ => True) (LiveRows P) (fun w => w.world.Both P) where
  alive _ hw := hw.alive
  poll env _ := kept_liveRows hP env
  start quotes broker now w _ hw := by
    have hrecovered : (w.recovered cfg quotes now).Both P :=
      both_step cfg.service (hP (.startup quotes now)) (both_step cfg.service (hP .restart) hw)
    have hreconciled := both_step cfg.service (hP (.reconcile none broker now)) hrecovered
    exact ⟨both_step cfg.service (hP .restart) hrecovered, fun _ => ⟨rfl, both_step cfg.service (hP .commit) hreconciled⟩⟩
  operate _ command hw := hw.after cfg hP (.operate command)
  operateDead _ command hw := both_step cfg.service (hP (.operate command)) hw
  release w id token hw := by
    have hclosed : LiveRows P { w with runtimes := w.runtimes.filter (fun x => x.deploymentId ≠ id) } :=
      ⟨hw.alive, hw.both⟩
    exact hclosed.after cfg hP (.releaseLease id token)
  commit _ hw := hw.after cfg hP .commit
  dead _ hw := hw.both
  die _ hw := both_step cfg.service (hP .restart) hw

/-- A property that every event keeps holds of both databases after every run of the worker. -/
theorem rows_run (hP : ∀ e db db', EventRows db db' e → P db → P db') {w : Worker S}
    (hoff : w.alive = false) (hw : w.world.Both P) (events : List WorkerEvent) :
    (run (Worker.step cfg) w events).world.Both P := by
  have hholds : Holds (LiveRows P) (fun w => w.world.Both P) w := .inr ⟨hoff, hw⟩
  have hkept : KeptRuns cfg (fun _ => True) (LiveRows P) (fun w => w.world.Both P) := keptRuns_liveRows hP
  rcases hkept.run (fun _ _ => trivial) hholds with ⟨-, hlive⟩ | ⟨-, hdead⟩
  · exact hlive.both
  · exact hdead

end Rows

theorem EventRows.map_id {db db' : Database} {e : Event} (h : EventRows db db' e) :
    db'.deployments.map ExecutionDeployment.id = db.deployments.map ExecutionDeployment.id := by
  cases e with
  | processBar call env =>
    rcases h.deployments with heq | heq <;> rw [heq]
    exact map_modify (fun _ => rfl)
  | operate command =>
    rcases h with hcommand | rfl
    · have hrows := (frame_operatorCommand hcommand).timeframes
      simpa [Database.timeframes, Function.comp_def] using congrArg (List.map Prod.fst) hrows
    · rfl
  | clearPending id =>
    rcases h with hclear | rfl
    · have hrows := (frame_clearPendingDeploymentAction hclear).timeframes
      simpa [Database.timeframes, Function.comp_def] using congrArg (List.map Prod.fst) hrows
    · rfl
  | _ => exact congrArg _ h.deployments

end QBackend.Execution
