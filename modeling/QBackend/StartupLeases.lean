import QBackend.ConcurrentBooks
import QBackend.MetaTraderFills
import QBackend.OrderResolution

/-!
# Startup recovery beside another worker

A worker that starts marks every incomplete order UNKNOWN and then resolves every pending one,
without a look at the leases. While another worker holds the lease of a deployment, an order of it
that waits between the intent commit and the fill commit is such an order. The startup of a worker
leaves the orders of a leased deployment alone exactly as far as it reads none of them as open.
-/

namespace QBackend.Execution

open KeyedTables FallibleSteps InterleavedCommits

/-- Another worker holds an unexpired lease of the deployment. -/
def LeasedByOther (db : Database) (deploymentId : ℕ) (workerId : String) (now : Time) : Prop :=
  ∃ lease, db.getWorkerLease deploymentId = some lease ∧ lease.workerId ≠ workerId ∧
    now < lease.expiresAt

/-- The clock of the two transactions of a startup. -/
def Work.startupClock : Work → Option Time
  | .recover _ now => some now
  | .reconcile none _ now _ => some now
  | _ => none

/-- No order of a deployment that another worker has leased changes its status. -/
def RespectsLeases (c : Commit Database Transaction) (now : Time) : Prop :=
  ∀ id order, c.before.getExecutionOrder id = some order →
    LeasedByOther c.before order.deploymentId c.transaction.config.workerId now →
    c.after.statusOf id = some order.status

/-- The broker's answer about the order ends a pass over it with a fill or a rejection. -/
def Settles (broker : ExecutionBroker) (order : ExecutionOrder) (deployment : ExecutionDeployment) :
    Prop :=
  ∃ state, broker.lookupOrder (lookupRequestForOrder order deployment) = .ok state ∧
    (state.status = .rejected ∨ state.status = .notFound ∨
      state.status = .filled ∧ state.fill.isSome = true)

/-- The orders on which a work of the startup acts, as its session has loaded them: recovery on the
incomplete ones, the pass on the pending ones about which the broker has an answer. -/
def Work.ActsOn (loaded : Database) (order : ExecutionOrder) : Work → Prop
  | .recover _ _ => order.status = .intent ∨ order.status = .submitted
  | .reconcile _ broker _ _ => order.status = .unknown ∧ order.reconciliationState = .pending ∧
      ∃ deployment, loaded.getExecutionDeployment order.deploymentId = some deployment ∧
        Settles broker order deployment
  | _ => False

/-- Nothing on which the work acts belongs to a deployment that another worker has leased. -/
def ActsOnFree (c : Commit Database Transaction) (work : Work) (now : Time) : Prop :=
  ∀ loaded ∈ c.loaded.orders, work.ActsOn c.loaded loaded →
    ∀ order, c.before.getExecutionOrder loaded.id = some order →
      ¬ LeasedByOther c.before order.deploymentId c.transaction.config.workerId now

/-! ## A flush and the status of an order -/

section Flushes

variable {loaded written stored db db' : Database} {id : ℕ}

/-- A session that kept the status in its copy keeps it in the database. -/
theorem statusOf_flush {s : ExecutionOrderStatus}
    (h : Database.flush loaded written stored = .ok db)
    (hkept : written.statusOf id = loaded.statusOf id) (hs : stored.statusOf id = some s) :
    db.statusOf id = some s := by
  obtain ⟨rfl, -⟩ := flush_eq_ok h
  unfold Database.statusOf Database.getExecutionOrder at *
  obtain ⟨order, horder, rfl⟩ := Option.map_eq_some_iff.mp hs
  have hid : order.id = id := key_of_lookup horder
  have hmerged : ∃ row, mergeStored ExecutionOrder.id ExecutionOrder.merge loaded.orders
      written.orders order = some row ∧ row.status = order.status := by
    unfold mergeStored
    rw [hid]
    cases hl : lookup ExecutionOrder.id loaded.orders id with
    | none => exact ⟨order, by simp, rfl⟩
    | some l =>
      rw [hl] at hkept
      obtain ⟨w, hw, hstatus⟩ := Option.map_eq_some_iff.mp hkept
      rw [hw]
      refine ⟨l.merge w order, rfl, ?_⟩
      simp [ExecutionOrder.merge, hstatus]
  obtain ⟨row, hrow, hstatus⟩ := hmerged
  have hkey : ∀ l w s : ExecutionOrder, (l.merge w s).id = s.id := fun _ _ _ => rfl
  have hfound := lookup_mergeKeyed hkey horder hrow
  rw [Database.mergeTables, hfound, Option.map_some, hstatus]

theorem statusOf_modifyOrder_of_ne {f : ExecutionOrder → ExecutionOrder} {j : ℕ}
    (h : db'.orders = modify ExecutionOrder.id db.orders j f) (hf : ∀ o, (f o).id = o.id)
    (hne : id ≠ j) : db'.statusOf id = db.statusOf id := by
  unfold Database.statusOf Database.getExecutionOrder
  rw [h, lookup_modify_of_ne hf hne]

theorem Booked.statusOf_of_ne {rows : BookedRows} (h : Booked rows db db') (hne : id ≠ rows.orderId) :
    db'.statusOf id = db.statusOf id := by
  cases h with
  | settled f _ horders hidentity _ =>
    exact statusOf_modifyOrder_of_ne horders
      (fun o => ExecutionOrder.id_of_identity (hidentity o)) hne
  | filled a t account o realized cash f hrows _ _ _ _ _ _ _ _ _ horders hidentity _ =>
    subst hrows
    exact statusOf_modifyOrder_of_ne horders
      (fun o => ExecutionOrder.id_of_identity (hidentity o)) hne

end Flushes

/-! ## Recovery -/

section Recovery

variable {db db' : Database} {id : ℕ}

theorem statusOf_markOrdersUnknown {reason : String} {orders : List ExecutionOrder}
    (h : Database.markOrdersUnknown reason orders db = .ok db')
    (hid : ∀ s, db.statusOf id = some s → s ≠ .intent ∧ s ≠ .submitted) :
    db'.statusOf id = db.statusOf id := by
  induction orders generalizing db with
  | nil =>
    cases h
    rfl
  | cons order rest ih =>
    simp only [Database.markOrdersUnknown, bind_eq_ok] at h
    obtain ⟨db₁, h₁, h₂⟩ := h
    obtain ⟨o, ho, hmem, rfl⟩ := transitionExecutionOrder_ok h₁
    have hne : id ≠ order.id := by
      rintro rfl
      have hs := hid o.status (by rw [Database.statusOf, ho]; rfl)
      cases hstatus : o.status <;> simp_all [orderTransitions]
    have hsame : (db.modifyOrder order.id (Database.OrderUpdate.apply
        { reconciliationState := some .pending, rejectionReason := some reason } .unknown)).statusOf
          id = db.statusOf id :=
      statusOf_modifyOrder_of_ne rfl (fun _ => rfl) hne
    rw [ih h₂ (fun s hs => hid s (by rw [← hsame]; exact hs)), hsame]

theorem statusOf_markDeployments {deployments : List ExecutionDeployment} {n : ℕ}
    (h : markDeployments deployments db = .ok (db', n))
    (hid : ∀ s, db.statusOf id = some s → s ≠ .intent ∧ s ≠ .submitted) :
    db'.statusOf id = db.statusOf id := by
  induction deployments generalizing db n with
  | nil =>
    cases h
    rfl
  | cons deployment rest ih =>
    simp only [markDeployments, Database.markIncompleteOrdersUnknown, bind_eq_ok, pure_eq_ok,
      Prod.mk.injEq] at h
    obtain ⟨⟨db₁, n₁⟩, ⟨db₀, h₀, rfl, rfl⟩, ⟨db₂, n₂⟩, h₂, rfl, rfl⟩ := h
    have hsame := statusOf_markOrdersUnknown h₀ hid
    rw [ih h₂ (fun s hs => hid s (by rw [← hsame]; exact hs)), hsame]

theorem statusOf_recover {quotes : String → Option ExecutableQuote} {now : Time}
    {result : RecoveryResult} (h : recover db quotes now = .ok (db', result))
    (hid : ∀ s, db.statusOf id = some s → s ≠ .intent ∧ s ≠ .submitted) :
    db'.statusOf id = db.statusOf id := by
  simp only [recover, bind_eq_ok] at h
  obtain ⟨⟨db₁, n⟩, h₁, h⟩ := h
  have hmarked : db₁.statusOf id = (db.releaseExpiredLeases now).statusOf id :=
    statusOf_markDeployments h₁ hid
  split at h
  · cases h
    exact hmarked
  · cases h
    exact hmarked

end Recovery

/-! ## The pass -/

section Pass

variable {cfg : ServiceConfig} {broker : ExecutionBroker} {now : Time} {db db' : Database} {id : ℕ}

theorem statusOf_recordReconciliationAttempt {orderId : ℕ} {error : String}
    (h : db.recordReconciliationAttempt orderId now error = .ok db') :
    db'.statusOf id = db.statusOf id := by
  obtain ⟨f, rfl, hf⟩ := recordReconciliationAttempt_ok h
  have hkey : ∀ o, (f o).id = o.id := fun o => ExecutionOrder.id_of_identity (hf o).1
  by_cases hid : id = orderId
  · rw [hid, statusOf_modifyOrder db hkey, Database.statusOf]
    congr 1
    funext o
    exact (hf o).2.1
  · exact statusOf_modifyOrder_of_ne rfl hkey hid

theorem statusOf_reconcileWrite {order : ExecutionOrder} {fillId : ℕ}
    {deployment : ExecutionDeployment} (hsettles : ¬ Settles broker order deployment)
    (h : reconcileWrite cfg broker now order fillId deployment db = .ok db') :
    db'.statusOf id = db.statusOf id := by
  unfold reconcileWrite at h
  cases hcall : reconcileOrder cfg broker now db order deployment fillId with
  | error e =>
    rw [hcall] at h
    cases h
  | ok result =>
    rw [hcall] at h
    cases h
    obtain ⟨db', outcome⟩ := result
    simp only [reconcileOrder, bind_eq_ok] at hcall
    obtain ⟨state, hstate, hcall⟩ := hcall
    split at hcall
    next hfilled =>
      split at hcall
      · simp only [bind_eq_ok, pure_eq_ok, Prod.mk.injEq] at hcall
        obtain ⟨db₁, h₁, rfl, -⟩ := hcall
        exact statusOf_recordReconciliationAttempt h₁
      next fill hfill =>
        exact absurd ⟨state, hstate, .inr (.inr ⟨hfilled, by simp [hfill]⟩)⟩ hsettles
    next hrejected => exact absurd ⟨state, hstate, .inl hrejected⟩ hsettles
    next hnot => exact absurd ⟨state, hstate, .inr (.inl hnot)⟩ hsettles
    next =>
      simp only [bind_eq_ok, pure_eq_ok, Prod.mk.injEq] at hcall
      obtain ⟨db₁, h₁, rfl, -⟩ := hcall
      exact statusOf_recordReconciliationAttempt h₁

theorem statusOf_passWrite {loaded : Database} {nextId : ℕ}
    (hacts : ∀ order ∈ loaded.orders, order.id = id →
      ¬ (Work.reconcile none broker now nextId).ActsOn loaded order)
    {w : SessionWrite} (hw : w ∈ (Work.reconcile none broker now nextId).writes cfg loaded)
    (h : w.run db = .ok db') : db'.statusOf id = db.statusOf id := by
  simp only [Work.writes, List.mem_map] at hw
  obtain ⟨⟨order, fillId⟩, hmem, rfl⟩ := hw
  have horder : order ∈ passOrders loaded none := by
    obtain ⟨-, -, hget⟩ := List.mem_zipIdx hmem
    rw [hget]
    exact List.getElem_mem _
  simp only [passOrders, Database.listPendingReconciliationOrders, List.mem_filter,
    decide_eq_true_eq] at horder
  obtain ⟨⟨horder, hunknown, hpending, -⟩, hdeployment⟩ := horder
  obtain ⟨deployment, hdeployment⟩ := Option.isSome_iff_exists.mp hdeployment
  simp only [bookingWrite, hdeployment] at h
  by_cases hid : order.id = id
  · refine statusOf_reconcileWrite (fun hsettles => ?_) h
    exact hacts order horder hid ⟨hunknown, hpending, deployment, hdeployment, hsettles⟩
  · exact (booked_reconcileWrite h).statusOf_of_ne (fun e => hid e.symm)

end Pass

/-! ## Runs -/

theorem Transaction.execute_single {t : Transaction} {work : Work} {loaded before after : Database}
    (hworks : t.works = [work]) (h : t.execute loaded before = .ok after) :
    ∃ loaded', writeThrough SessionWrite.run Database.flush (work.writes t.config loaded) loaded
      before = .ok (loaded', after) := by
  unfold Transaction.execute at h
  rw [hworks] at h
  simp only [runWorks] at h
  cases hrun : writeThrough SessionWrite.run Database.flush (work.writes t.config loaded) loaded
      before with
  | error e =>
    rw [hrun] at h
    cases h
  | ok result =>
    rw [hrun] at h
    have hafter : result.2 = after := Except.ok.inj h
    exact ⟨result.1, by rw [← hafter]⟩

theorem respectsLeases_of_actsOnFree {c : Commit Database Transaction} {work : Work} {now : Time}
    (hrun : c.transaction.execute c.loaded c.before = .ok c.after)
    (hworks : c.transaction.works = [work]) (hclock : work.startupClock = some now)
    (hfree : ActsOnFree c work now) : RespectsLeases c now := by
  intro id order horder hleased
  obtain ⟨loaded', hwrites⟩ := Transaction.execute_single hworks hrun
  have hbefore : c.before.statusOf id = some order.status := by
    rw [Database.statusOf, horder]
    rfl
  -- The row that the session has loaded is none on which the work acts.
  have hacts : ∀ row ∈ c.loaded.orders, row.id = id → ¬ work.ActsOn c.loaded row := by
    rintro row hrow rfl hact
    exact hfree row hrow hact order horder hleased
  cases work with
  | recover quotes clock =>
    have halong : Along SessionWrite.run Database.flush (fun _ loaded _ => loaded = c.loaded)
        ((Work.recover quotes clock).writes c.transaction.config c.loaded) c.loaded c.before :=
      ⟨rfl, fun _ _ _ _ => trivial⟩
    refine writeThrough_invariant (fun db => db.statusOf id = some order.status) ?_ halong hwrites
      hbefore
    rintro w hw loaded stored written next rfl hwritten hnext hs
    refine statusOf_flush hnext ?_ hs
    rw [List.mem_singleton.mp hw] at hwritten
    cases hrecover : recover c.loaded quotes clock with
    | error e =>
      simp only [hrecover] at hwritten
      cases hwritten
    | ok result =>
      simp only [hrecover] at hwritten
      cases hwritten
      refine statusOf_recover hrecover (fun s hs => ?_)
      obtain ⟨row, hrow, rfl⟩ := Option.map_eq_some_iff.mp hs
      have hnot := hacts row (mem_of_lookup hrow) (key_of_lookup hrow)
      simpa only [Work.ActsOn, not_or] using hnot
  | reconcile deploymentId broker clock nextId =>
    cases deploymentId with
    | some d => cases hclock
    | none =>
      have halong : Along SessionWrite.run Database.flush (fun _ _ _ => True)
          ((Work.reconcile none broker clock nextId).writes c.transaction.config c.loaded) c.loaded
          c.before := along_of_forall (fun _ _ _ => trivial) _ _ _
      refine writeThrough_invariant (fun db => db.statusOf id = some order.status) ?_ halong hwrites
        hbefore
      intro w hw loaded stored written next _ hwritten hnext hs
      exact statusOf_flush hnext (statusOf_passWrite hacts hw hwritten) hs
  | _ => cases hclock

/-- Startup beside other workers, for every interleaving of the transactions of any number of
processes: where no startup acts on an order of a deployment that another worker has leased, none
changes the status of such an order. -/
theorem startup_respects_leases (start final : Database)
    (commits : List (Commit Database Transaction)) (hrun : ConcurrentRun start commits final)
    (hfree : ∀ c ∈ commits, ∀ work now, c.transaction.works = [work] →
      work.startupClock = some now → ActsOnFree c work now) :
    ∀ c ∈ commits, ∀ work now, c.transaction.works = [work] → work.startupClock = some now →
      RespectsLeases c now :=
  fun c hc work now hworks hclock =>
    respectsLeases_of_actsOnFree (hrun.executed c hc) hworks hclock (hfree c hc work now hworks hclock)

/-- A commit of one work by a session that has just read the database. -/
def soloCommit (workerId : String) (work : Work) (db : Database) : Commit Database Transaction :=
  ({ config := { workerId }, works := [work] } : Transaction).commitOn db db

/-- Commits one after another, each by a session that has just read the database. -/
def soloCommits (db : Database) : List (String × Work) → List (Commit Database Transaction)
  | [] => []
  | (workerId, work) :: rest =>
    soloCommit workerId work db :: soloCommits (soloCommit workerId work db).after rest

theorem concurrentRun_soloCommits {start store : Database}
    {commits : List (Commit Database Transaction)} (steps : List (String × Work))
    (h : ConcurrentRun start commits store) (hstore : store ∈ start :: commits.map Commit.after)
    (hok : ∀ c ∈ soloCommits store steps,
      (c.transaction.execute c.loaded c.before).toOption.isSome = true) :
    ∃ final, ConcurrentRun start (commits ++ soloCommits store steps) final := by
  induction steps generalizing commits store with
  | nil => exact ⟨store, by simpa [soloCommits] using h⟩
  | cons step rest ih =>
    obtain ⟨workerId, work⟩ := step
    have hnext : ConcurrentRun start (commits ++ [soloCommit workerId work store])
        (soloCommit workerId work store).after :=
      .commit _ h rfl (readCommitted_of_mem hstore)
        (Transaction.execute_commitOn (hok _ (by simp [soloCommits])))
    have hrest := ih hnext (by simp) (fun c hc => hok c (by simp [soloCommits, hc]))
    rwa [List.append_assoc] at hrest

/-- Worker `a` commits an intent, worker `b` starts while the order waits for the broker. -/
def startupBesideIntent : List (String × Work) :=
  [("a", .acquireLease 7 "token" 600000000 60000000),
    ("a", .prepare (buyCall 60000000) (deskEnvironment 60000000 (fun _ => none)) 200 201),
    ("b", .recover (deskQuotes 61000000) 61000000),
    ("b", .reconcile none (paperBroker (deskQuotes 61000000) 61000000) 61000000 300)]

/-- A startup commit that changes the status of an order of a deployment leased by another. -/
theorem not_respectsLeases (c : Commit Database Transaction) (id d : ℕ) (now expires : Time)
    (owner : String) (s s' : ExecutionOrderStatus)
    (horder : (c.before.getExecutionOrder id).map (fun o => (o.deploymentId, o.status)) = some (d, s))
    (hlease : (c.before.getWorkerLease d).map (fun l => (l.workerId, l.expiresAt)) =
      some (owner, expires))
    (hother : owner ≠ c.transaction.config.workerId) (hlive : now < expires)
    (hafter : c.after.statusOf id = some s') (hne : s' ≠ s) : ¬ RespectsLeases c now := by
  intro hrespects
  obtain ⟨order, hrow, hcolumns⟩ := Option.map_eq_some_iff.mp horder
  obtain ⟨lease, hheld, howner⟩ := Option.map_eq_some_iff.mp hlease
  simp only [Prod.mk.injEq] at hcolumns howner
  have hleased : LeasedByOther c.before order.deploymentId c.transaction.config.workerId now := by
    refine ⟨lease, ?_, ?_, ?_⟩
    · rw [hcolumns.1]
      exact hheld
    · rw [howner.1]
      exact hother
    · rw [howner.2]
      exact hlive
  have hkept := hrespects id order hrow hleased
  rw [hafter, hcolumns.2] at hkept
  exact hne (Option.some.inj hkept)

/-- The order of the leased deployment becomes UNKNOWN, and then REJECTED. -/
theorem startup_rejects_leased_order :
    ∃ commits final, ConcurrentRun deskWorld.session.committed commits final ∧
      (∀ c ∈ commits, c.transaction.config.workerId ∈ ["a", "b"]) ∧
      (∃ c ∈ commits, (∃ quotes, c.transaction.works = [.recover quotes 61000000]) ∧
        ¬ RespectsLeases c 61000000) ∧
      (∃ c ∈ commits, (∃ broker, c.transaction.works = [.reconcile none broker 61000000 300]) ∧
        ¬ RespectsLeases c 61000000) := by
  obtain ⟨final, hrun⟩ := concurrentRun_soloCommits startupBesideIntent
    (.start : ConcurrentRun deskWorld.session.committed [] _) (by simp) (by decide +kernel)
  refine ⟨_, final, hrun, by decide +kernel, ?_, ?_⟩
  · refine ⟨(soloCommits deskWorld.session.committed startupBesideIntent).get ⟨2, by decide⟩,
      List.get_mem _ _, ⟨_, rfl⟩, ?_⟩
    exact not_respectsLeases _ 201 7 61000000 660000000 "a" .intent .unknown (by decide +kernel)
      (by decide +kernel) (by decide +kernel) (by decide) (by decide +kernel) (by decide)
  · refine ⟨(soloCommits deskWorld.session.committed startupBesideIntent).get ⟨3, by decide⟩,
      List.get_mem _ _, ⟨_, rfl⟩, ?_⟩
    exact not_respectsLeases _ 201 7 61000000 660000000 "a" .unknown .rejected (by decide +kernel)
      (by decide +kernel) (by decide +kernel) (by decide) (by decide +kernel) (by decide)

/-- The same startup after the fill commit of worker `a`. -/
def startupBesideFill : List (String × Work) :=
  [("a", .acquireLease 7 "token" 600000000 60000000),
    ("a", .prepare (buyCall 60000000) (deskEnvironment 60000000 (fun _ => none)) 200 201),
    ("a", .fill (buyCall 60000000) 200 201 202
      { brokerMode := .paper, externalFillId := "paper:201", side := .buy, quantity := 1
        price := 101, filledAt := 60000000 } 60000000),
    ("b", .recover (deskQuotes 61000000) 61000000),
    ("b", .reconcile none (paperBroker (deskQuotes 61000000) 61000000) 61000000 300)]

theorem startup_keeps_filled_order :
    ∃ commits final, ConcurrentRun deskWorld.session.committed commits final ∧
      commits.map (fun c => c.after.statusOf 201) =
        [none, some .intent, some .filled, some .filled, some .filled] ∧
      ∀ c ∈ commits, ∀ work now, c.transaction.works = [work] → work.startupClock = some now →
        RespectsLeases c now := by
  obtain ⟨final, hrun⟩ := concurrentRun_soloCommits startupBesideFill
    (.start : ConcurrentRun deskWorld.session.committed [] _) (by simp) (by decide +kernel)
  refine ⟨_, final, hrun, by decide +kernel, ?_⟩
  refine startup_respects_leases deskWorld.session.committed final _ hrun ?_
  have hfilled : ∀ c ∈ [] ++ soloCommits deskWorld.session.committed startupBesideFill,
      (∀ work ∈ c.transaction.works, work.startupClock = none) ∨
        ∀ row ∈ c.loaded.orders, row.status = .filled := by
    decide +kernel
  intro c hc work now hworks hclock row hrow hacts
  rcases hfilled c hc with hnone | hrows
  · have hwork := hnone work (by simp [hworks])
    rw [hclock] at hwork
    cases hwork
  · have hstatus := hrows row hrow
    cases work <;> simp [Work.ActsOn, hstatus] at hacts

end QBackend.Execution
