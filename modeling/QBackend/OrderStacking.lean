import QBackend.ExactlyOnceExecution
import QBackend.WorkerRuns

/-!
# No stacking on an unresolved order

The risk gate refuses a deployment with an UNKNOWN order, recovery turns every order that a dead
process left open into an UNKNOWN one, and a call that runs to its end settles its own order. An
exception between the intent commit and the outcome commit breaks the last of the three: the
worker polls on with an order in INTENT that no gate looks at.
-/

namespace QBackend.Execution

open KeyedTables FallibleSteps StatefulActions RunInvariants

/-- At every broker call, every other order of the deployment was terminal. -/
def Unstacked (submissions : List Submission) : Prop :=
  ∀ s ∈ submissions, ∀ o ∈ s.orders, o.deploymentId = s.request.deploymentId →
    o.id ≠ s.request.orderId → o.status.IsTerminal

instance (submissions : List Submission) : Decidable (Unstacked submissions) :=
  inferInstanceAs (Decidable (∀ s ∈ submissions, ∀ o ∈ s.orders, o.deploymentId = s.request.deploymentId →
    o.id ≠ s.request.orderId → o.status.IsTerminal))

/-- The order is neither INTENT nor SUBMITTED. -/
def ExecutionOrder.Idle (o : ExecutionOrder) : Prop := o.status.IsTerminal ∨ o.status = .unknown

def Database.Idle (db : Database) : Prop := ∀ o ∈ db.orders, o.Idle

/-- Every order belongs to a deployment of the table. -/
def Database.Owned (db : Database) : Prop :=
  ∀ o ∈ db.orders, (db.accountView o.deploymentId).isSome

section Writes

variable {allowed : FillApplication → Prop} {pointValue : ℚ} {bound : ℕ} {db db' : Database}

theorem ExecutionOrder.deploymentId_of_identity {o o' : ExecutionOrder}
    (h : o'.identity = o.identity) : o'.deploymentId = o.deploymentId :=
  congrArg (fun i => i.2.1) h

/-- The table is idle once its one open order was settled. -/
theorem Rewritten.idle {id : ℕ} {f : ExecutionOrder → ExecutionOrder} {o : ExecutionOrder}
    (hf : Rewritten db id f db') (hnodup : (db.orders.map ExecutionOrder.id).Nodup)
    (ho : db.getExecutionOrder id = some o) (hstatus : (f o).Idle)
    (hothers : ∀ x ∈ db.orders, x.id ≠ id → x.Idle) : db'.Idle := by
  intro x hx
  rcases (hf.mem_iff hnodup ho).mp hx with rfl | ⟨hx, hne⟩
  · exact hstatus
  · exact hothers x hx hne

theorem SettleWrite.idle {id : ℕ} (hs : SettleWrite db id db')
    (hnodup : (db.orders.map ExecutionOrder.id).Nodup)
    (hothers : ∀ x ∈ db.orders, x.id ≠ id → x.Idle) : db'.Idle := by
  obtain ⟨o, f, ho, -, hf, hstatus, -⟩ := hs.change
  refine hf.idle hnodup ho ?_ hothers
  rcases hstatus with hstatus | hstatus
  · exact .inr hstatus
  · exact .inl (.inr (.inl hstatus))

theorem FillWrite.idle {a : FillApplication} (hw : FillWrite pointValue db a db')
    (hnodup : (db.orders.map ExecutionOrder.id).Nodup)
    (hothers : ∀ x ∈ db.orders, x.id ≠ a.orderId → x.Idle) : db'.Idle := by
  obtain ⟨o, f, ho, -, hf, hstatus, -⟩ := hw.change
  exact hf.idle hnodup ho (.inl (.inl hstatus)) hothers

theorem Rewritten.owned {id : ℕ} {f : ExecutionOrder → ExecutionOrder} (hf : Rewritten db id f db')
    (hview : db'.accountView = db.accountView) (h : db.Owned) : db'.Owned := by
  intro x hx
  rw [hview]
  refine hf.forall_orders h (fun o ho _ => ?_) x hx
  rw [ExecutionOrder.deploymentId_of_identity (hf.identity o)]
  exact h o ho

theorem Database.Idle.write (h : db.Idle) (hinv : OrderInvariant bound db)
    (hw : Write allowed pointValue 0 db db') : db'.Idle := by
  cases hw with
  | frame hf => exact fun o ho => h o (hf.orders ▸ ho)
  | annotate id f _ hf hkeep =>
    refine hf.forall_orders h (fun o ho _ => ?_)
    rw [ExecutionOrder.Idle, (hkeep o).1]
    exact h o ho
  | intent o _ hbelow _ => exact absurd hbelow (Nat.not_lt_zero _)
  | settle id hs => exact hs.idle hinv.nodup (fun x hx _ => h x hx)
  | fill a _ hf => exact hf.idle hinv.nodup (fun x hx _ => h x hx)

theorem Database.Owned.write (h : db.Owned) (hw : Write allowed pointValue 0 db db') :
    db'.Owned := by
  cases hw with
  | frame hf =>
    intro o ho
    rw [hf.accountView]
    exact h o (hf.orders ▸ ho)
  | annotate id f hu hf _ => exact hf.owned hu.accountView h
  | intent o _ hbelow _ => exact absurd hbelow (Nat.not_lt_zero _)
  | settle id hs =>
    obtain ⟨o, f, -, -, hf, -⟩ := hs.change
    exact hf.owned hs.accountView h
  | fill a _ hw =>
    obtain ⟨o, f, -, -, hf, -⟩ := hw.change
    exact hf.owned hw.accountView h

theorem Database.Idle.writes (h : db.Idle) (hinv : OrderInvariant bound db)
    (hw : Writes allowed pointValue 0 db db') : db'.Idle := by
  induction hw with
  | refl => exact h
  | tail hpre hstep ih =>
    exact ih.write (hinv.writes (Writes.mono hpre (Nat.zero_le bound))) hstep

theorem Database.Owned.writes (h : db.Owned) (hw : Writes allowed pointValue 0 db db') :
    db'.Owned := by
  induction hw with
  | refl => exact h
  | tail _ hstep ih => exact ih.write hstep

theorem Database.Owned.intent {o : ExecutionOrder} (h : db.Owned) (hi : IntentWrite db o db')
    (hknown : (db.accountView o.deploymentId).isSome) : db'.Owned := by
  intro x hx
  rw [hi.accountView]
  rw [hi.orders, List.mem_append, List.mem_singleton] at hx
  rcases hx with hx | rfl
  · exact h x hx
  · exact hknown

end Writes

/-! ## Recovery leaves no order open -/

section Recovery

variable {db db' : Database}

theorem markOrdersUnknown_rows {reason : String} {orders : List ExecutionOrder}
    (h : Database.markOrdersUnknown reason orders db = .ok db') :
    ∀ x ∈ db'.orders, ∃ o ∈ db.orders, x.identity = o.identity ∧
      (x.status = .unknown ∨ x.status = o.status ∧ o.id ∉ orders.map ExecutionOrder.id) := by
  induction orders generalizing db with
  | nil =>
    cases h
    exact fun x hx => ⟨x, hx, rfl, .inr ⟨rfl, by simp⟩⟩
  | cons order rest ih =>
    simp only [Database.markOrdersUnknown, bind_eq_ok] at h
    obtain ⟨db₁, h₁, h₂⟩ := h
    obtain ⟨-, -, -, rfl⟩ := transitionExecutionOrder_ok h₁
    intro x hx
    obtain ⟨o₁, ho₁, hident, hstatus⟩ := ih h₂ x hx
    simp only [Database.modifyOrder, mem_modify] at ho₁
    rcases ho₁ with ⟨o, ho, -, rfl⟩ | ⟨ho₁, hne⟩
    · refine ⟨o, ho, hident, .inl ?_⟩
      rcases hstatus with hs | ⟨hs, -⟩
      · exact hs
      · exact hs
    · refine ⟨o₁, ho₁, hident, ?_⟩
      rcases hstatus with hs | ⟨hs, hnot⟩
      · exact .inl hs
      · exact .inr ⟨hs, by simpa [hnot] using hne⟩

theorem markDeployments_idle {deployments : List ExecutionDeployment} {n : ℕ}
    (h : markDeployments deployments db = .ok (db', n)) :
    ∀ x ∈ db'.orders, ∃ o ∈ db.orders, x.identity = o.identity ∧
      (x.Idle ∨ x.status = o.status ∧ o.deploymentId ∉ deployments.map ExecutionDeployment.id) := by
  induction deployments generalizing db n with
  | nil =>
    cases h
    exact fun x hx => ⟨x, hx, rfl, .inr ⟨rfl, by simp⟩⟩
  | cons deployment rest ih =>
    simp only [markDeployments, Database.markIncompleteOrdersUnknown, bind_eq_ok, pure_eq_ok,
      Prod.mk.injEq] at h
    obtain ⟨⟨db₁, n₁⟩, ⟨db₀, h₀, rfl, rfl⟩, ⟨db₂, n₂⟩, h₂, rfl, rfl⟩ := h
    intro x hx
    obtain ⟨o₁, ho₁, hident₁, hx₁⟩ := ih h₂ x hx
    obtain ⟨o, ho, hident, ho₁s⟩ := markOrdersUnknown_rows h₀ o₁ ho₁
    refine ⟨o, ho, hident₁.trans hident, ?_⟩
    rcases hx₁ with hidle | ⟨hs, hnot⟩
    · exact .inl hidle
    · rw [ExecutionOrder.deploymentId_of_identity hident] at hnot
      rcases ho₁s with hunknown | ⟨hs', hlisted⟩
      · exact .inl (.inr (hs.trans hunknown))
      · by_cases hd : o.deploymentId = deployment.id
        · -- An open order of this deployment would have been listed.
          left
          have hclosed : ¬ (o.status = .intent ∨ o.status = .submitted) := by
            intro hopen
            refine hlisted (List.mem_map.mpr ⟨o, ?_, rfl⟩)
            simp [Database.listIncompleteOrders, Database.listOrdersForDeployment, ho, hd, hopen]
          rw [ExecutionOrder.Idle, hs, hs', ExecutionOrderStatus.IsTerminal]
          cases hstatus : o.status <;> simp_all
        · exact .inr ⟨hs.trans hs', by simp [hd, hnot]⟩

theorem recover_idle {quotes : String → Option ExecutableQuote} {now : Time}
    {result : RecoveryResult} (hown : db.Owned) (h : recover db quotes now = .ok (db', result)) :
    db'.Idle := by
  simp only [recover, bind_eq_ok] at h
  obtain ⟨⟨db₁, n⟩, h₁, h⟩ := h
  have hdb : db' = db₁ := by
    split at h <;> · cases h; rfl
  subst hdb
  intro x hx
  obtain ⟨o, ho, -, hidle | ⟨-, hnot⟩⟩ := markDeployments_idle h₁ x hx
  · exact hidle
  · have hknown := hown o ho
    simp only [Database.accountView, Option.isSome_map, Option.isSome_iff_exists] at hknown
    obtain ⟨deployment, hd⟩ := hknown
    exact absurd (List.mem_map.mpr ⟨deployment, mem_of_lookup hd, key_of_lookup hd⟩) hnot

end Recovery

/-! ## Invariants of a live and of a dead worker -/

/-- What holds whether or not the process is alive. -/
structure StackingInvariant (start : Books) (pointValue : ℚ) (w : World) : Prop
    extends ExactlyOnceInvariant start pointValue w where
  ownedCommitted : w.session.committed.Owned
  ownedWorking : w.session.working.Owned
  unstacked : Unstacked w.submissions

/-- Between the calls of a live worker no order is open. -/
structure IdleInvariant (start : Books) (pointValue : ℚ) (w : World) : Prop
    extends StackingInvariant start pointValue w where
  idleCommitted : w.session.committed.Idle
  idleWorking : w.session.working.Idle

section Steps

variable {start : Books} {pointValue : ℚ} {cfg : ServiceConfig} {w w' : World}

/-- An event that creates no order and calls no broker. -/
theorem StackingInvariant.settles (h : StackingInvariant start pointValue w)
    (ha : Advance IsPaperFill pointValue 0 w w') (hs : w'.submissions = w.submissions)
    (hinv : ExactlyOnceInvariant start pointValue w') : StackingInvariant start pointValue w' := by
  have hunstacked : Unstacked w'.submissions := by rw [hs]; exact h.unstacked
  cases ha with
  | stay hw _ _ => exact ⟨hinv, hw ▸ h.ownedCommitted, hw ▸ h.ownedWorking, hunstacked⟩
  | drop hw _ _ => exact ⟨hinv, by rw [hw]; exact h.ownedCommitted, by rw [hw]; exact h.ownedCommitted, hunstacked⟩
  | extend db _ hw _ hwrites _ _ =>
    exact ⟨hinv, by rw [hw]; exact h.ownedCommitted, by rw [hw]; exact h.ownedWorking.writes hwrites, hunstacked⟩
  | commit db _ hw _ hwrites _ _ =>
    have hown := h.ownedWorking.writes hwrites
    exact ⟨hinv, by rw [hw]; exact hown, by rw [hw]; exact hown, hunstacked⟩
  | recover db hw _ hwrites _ =>
    have hown := h.ownedCommitted.writes hwrites
    exact ⟨hinv, by rw [hw]; exact hown, by rw [hw]; exact hown, hunstacked⟩

theorem IdleInvariant.settles (h : IdleInvariant start pointValue w)
    (ha : Advance IsPaperFill pointValue 0 w w') (hs : w'.submissions = w.submissions)
    (hinv : ExactlyOnceInvariant start pointValue w') : IdleInvariant start pointValue w' := by
  have hbase := h.toStackingInvariant.settles ha hs hinv
  cases ha with
  | stay hw _ _ => exact ⟨hbase, hw ▸ h.idleCommitted, hw ▸ h.idleWorking⟩
  | drop hw _ _ => exact ⟨hbase, by rw [hw]; exact h.idleCommitted, by rw [hw]; exact h.idleCommitted⟩
  | extend db _ hw _ hwrites _ _ =>
    exact ⟨hbase, by rw [hw]; exact h.idleCommitted,
      by rw [hw]; exact h.idleWorking.writes h.working.toOrderInvariant hwrites⟩
  | commit db _ hw _ hwrites _ _ =>
    have hidle := h.idleWorking.writes h.working.toOrderInvariant hwrites
    exact ⟨hbase, by rw [hw]; exact hidle, by rw [hw]; exact hidle⟩
  | recover db hw _ hwrites _ =>
    have hidle := h.idleCommitted.writes h.committed.toOrderInvariant hwrites
    exact ⟨hbase, by rw [hw]; exact hidle, by rw [hw]; exact hidle⟩

theorem Unstacked.submit {o : ExecutionOrder} {db : Database} {request : MarketOrderRequest}
    (h : Unstacked w.submissions) (hidle : w.session.working.Idle)
    (hi : IntentWrite w.session.working o db) (hr : request.For o) :
    Unstacked (w.submissions ++ [⟨request, db.orders⟩]) := by
  intro s hs
  rcases List.mem_append.mp hs with hs | hs
  · exact h s hs
  · rw [List.mem_singleton.mp hs]
    intro x hx hdeployment hne
    rw [hi.orders, List.mem_append, List.mem_singleton] at hx
    rcases hx with hx | rfl
    · rcases hidle x hx with hterminal | hunknown
      · exact hterminal
      · exact absurd hunknown (hi.gate x hx (hdeployment.trans hr.deploymentId))
    · exact absurd hr.orderId.symm hne

theorem IdleInvariant.service {env : BarEnvironment} (h : IdleInvariant start cfg.pointValue w)
    (call : BarCall) (hpaper : IsPaperBroker env.broker)
    (hquiet : env.Quiet cfg) :
    StackingInvariant start cfg.pointValue (processCompletedBar cfg w call env).1 ∧
    ((processCompletedBar cfg w call env).2 ≠ .error .killed →
      IdleInvariant start cfg.pointValue (processCompletedBar cfg w call env).1) := by
  have hnext : ExactlyOnceInvariant start cfg.pointValue (processCompletedBar cfg w call env).1 :=
    h.toExactlyOnceInvariant.step (e := .processBar call env) hpaper
  have hstep : BarStep cfg w call env _ _ :=
    processCompletedBar_step h.working.below (h.freshFills (e := .processBar call env) hpaper)
  have hothers : ∀ {o : ExecutionOrder} {db : Database}, IntentWrite w.session.working o db →
      ∀ x ∈ db.orders, x.id ≠ o.id → x.Idle := by
    intro o db hi x hx hne
    rw [hi.orders, List.mem_append, List.mem_singleton] at hx
    rcases hx with hx | rfl
    · exact h.idleWorking x hx
    · exact absurd rfl hne
  have hnodup : ∀ {o : ExecutionOrder} {db : Database}, Intended w call o db →
      (db.orders.map ExecutionOrder.id).Nodup := by
    intro o db hi
    have hbelow : ∀ x ∈ w.session.working.orders, x.id < o.id := fun x hx => by
      have := h.working.below x hx
      have := hi.id
      omega
    exact ((h.working.toOrderInvariant.mono (Nat.le_add_right w.nextId 2)).intent hbelow
      (by rw [hi.id]; omega) hi.write).nodup
  generalize hw' : (processCompletedBar cfg w call env).1 = w' at hnext hstep ⊢
  generalize hr : (processCompletedBar cfg w call env).2 = r at hstep ⊢
  have hquick : IdleInvariant start cfg.pointValue w' →
      StackingInvariant start cfg.pointValue w' ∧
      (r ≠ .error .killed → IdleInvariant start cfg.pointValue w') :=
    fun hidle => ⟨hidle.toStackingInvariant, fun _ => hidle⟩
  cases hstep with
  | skipped => exact hquick h
  | failed n f hn =>
    exact hquick ⟨⟨hnext, h.ownedCommitted, h.ownedCommitted, h.unstacked⟩, h.idleCommitted,
      h.idleCommitted⟩
  | concluded db r hframe _ =>
    have hwrite : Write IsPaperFill cfg.pointValue 0 w.session.working db := .frame hframe
    have hown := h.ownedWorking.write hwrite
    have hidle := h.idleWorking.write h.working.toOrderInvariant hwrite
    exact hquick ⟨⟨hnext, hown, hown, h.unstacked⟩, hidle, hidle⟩
  | intended db o f hi hdead =>
    have hown := h.ownedWorking.intent hi.write hi.known
    refine ⟨⟨hnext, hown, hown, h.unstacked⟩, fun hne => ?_⟩
    exact absurd (congrArg Except.error (hdead hquiet)) hne
  | submitted db o request f hi hrequest hdead =>
    have hown := h.ownedWorking.intent hi.write hi.known
    refine ⟨⟨hnext, hown, hown, h.unstacked.submit h.idleWorking hi.write hrequest⟩, fun hne => ?_⟩
    exact absurd (congrArg Except.error (hdead hquiet)) hne
  | settled db o request db' r hi hrequest hsettle =>
    have hwrite : Write IsPaperFill cfg.pointValue 0 db db' := .settle o.id hsettle
    have hown := (h.ownedWorking.intent hi.write hi.known).write hwrite
    have hidle := hsettle.idle (hnodup hi) (hothers hi.write)
    exact hquick ⟨⟨hnext, hown, hown, h.unstacked.submit h.idleWorking hi.write hrequest⟩, hidle,
      hidle⟩
  | filled db o request db' r a hi hrequest ha hfill _ =>
    have hwrite : Write (fun _ => True) cfg.pointValue 0 db db' := .fill a trivial hfill
    have hown := (h.ownedWorking.intent hi.write hi.known).write hwrite
    have hidle := hfill.idle (hnodup hi) (ha ▸ hothers hi.write)
    exact hquick ⟨⟨hnext, hown, hown, h.unstacked.submit h.idleWorking hi.write hrequest⟩, hidle,
      hidle⟩

theorem IdleInvariant.event (h : IdleInvariant start cfg.pointValue w) {e : Event}
    (hpaper : e.IsPaper) (he : ∀ call env, e ≠ .processBar call env) :
    IdleInvariant start cfg.pointValue (step cfg w e) :=
  h.settles (step_settles h.working.toOrderInvariant (h.freshFills hpaper) hpaper.allowedFills he)
    (step_submissions_of_ne he) (h.toExactlyOnceInvariant.step hpaper)

theorem StackingInvariant.event (h : StackingInvariant start cfg.pointValue w) {e : Event}
    (hpaper : e.IsPaper) (he : ∀ call env, e ≠ .processBar call env) :
    StackingInvariant start cfg.pointValue (step cfg w e) :=
  h.settles (step_settles h.working.toOrderInvariant (h.freshFills hpaper) hpaper.allowedFills he)
    (step_submissions_of_ne he) (h.toExactlyOnceInvariant.step hpaper)

theorem StackingInvariant.startup (h : StackingInvariant start cfg.pointValue w)
    {quotes : String → Option ExecutableQuote} {now : Time} {result : Database × RecoveryResult}
    (hrec : recover w.session.committed quotes now = .ok result) :
    IdleInvariant start cfg.pointValue (step cfg w (.startup quotes now)) := by
  have hbase := h.event (e := .startup quotes now) trivial (by simp)
  have hidle : result.1.Idle := recover_idle h.ownedCommitted hrec
  have hsession : (step cfg w (.startup quotes now)).session = ⟨result.1, result.1⟩ := by
    simp only [step, hrec]
    rfl
  exact ⟨hbase, by rw [hsession]; exact hidle, by rw [hsession]; exact hidle⟩

end Steps

/-! ## Runs of the worker -/

/-- Every broker of the poll is the paper broker. -/
structure PollEnvironment.IsPaper (env : PollEnvironment) : Prop where
  broker : IsPaperBroker env.broker
  service : ∀ d t, IsPaperBroker (env.service d t).broker
  flatten : ∀ d, IsPaperBroker (env.flatten d).broker

def WorkerEvent.IsPaper : WorkerEvent → Prop
  | .start _ broker _ => IsPaperBroker broker
  | .poll env => env.IsPaper
  | _ => True

/-- No service call of the event meets an exception between its intent commit and its outcome
commit. -/
def WorkerEvent.Quiet (cfg : ServiceConfig) : WorkerEvent → Prop
  | .poll env => (∀ d t, (env.service d t).Quiet cfg) ∧ ∀ d, (env.flatten d).Quiet cfg
  | _ => True

section Runs

variable {S : Type} {cfg : WorkerConfig S} {start : Books}

/-- The invariant of the live worker. -/
def LiveIdle (cfg : WorkerConfig S) (start : Books) (w : Worker S) : Prop :=
  w.alive = true ∧ IdleInvariant start cfg.service.pointValue w.world

/-- What a dead process leaves. -/
def DeadStacking (cfg : WorkerConfig S) (start : Books) (w : Worker S) : Prop :=
  StackingInvariant start cfg.service.pointValue w.world

theorem PollEvent.isPaper {env : PollEnvironment} {e : Event} (h : PollEvent env e)
    (henv : env.IsPaper) : e.IsPaper := by
  cases h with
  | reconcile id => exact henv.broker
  | _ => trivial

theorem PollEvent.ne_processBar {env : PollEnvironment} {e : Event} (h : PollEvent env e) :
    ∀ call env', e ≠ .processBar call env' := by
  cases h <;> simp

theorem serviceCall_liveIdle {call : BarCall} {env : BarEnvironment}
    (hpaper : IsPaperBroker env.broker) (hquiet : env.Quiet cfg.service) :
    Triple (LiveIdle cfg start) (serviceCall cfg call env) (fun _ => LiveIdle cfg start)
      (Fails (LiveIdle cfg start) (DeadStacking cfg start)) := by
  refine serviceCall_triple (fun w hw => ?_)
  obtain ⟨hdead, hlive⟩ := hw.2.service call hpaper hquiet
  split
  next r hr => exact ⟨hw.1, hlive (by simp [hr])⟩
  next f hf =>
    cases f with
    | raised e => exact ⟨hw.1, hlive (by simp [hf])⟩
    | killed => exact hdead

theorem kept_liveIdle {env : PollEnvironment} (hpaper : (WorkerEvent.poll env).IsPaper)
    (hquiet : (WorkerEvent.poll env).Quiet cfg.service) :
    Kept cfg env (LiveIdle cfg start) (DeadStacking cfg start) where
  dead w hw := hw.2.toStackingInvariant
  event w e he hw := ⟨hw.1, hw.2.event (he.isPaper hpaper) he.ne_processBar⟩
  refreshed w id deployment hw := hw
  opened w deployment r hr hnone hrow hw := hw
  closed w id _ hw := hw
  cleared w id hw := ⟨hw.1, hw.2.event (e := .clearPending id) trivial (by simp)⟩
  flattened id token := serviceCall_liveIdle (hpaper.flatten id) (hquiet.2 id)
  ingested r deployment bars hbars := by
    refine Triple.bind (Q := fun _ => LiveIdle cfg start) (Triple.modify (fun w hw => hw.1))
      (fun _ => ?_)
    split
    · exact Triple.bind (Q := fun _ => LiveIdle cfg start) (Triple.modify (fun w hw => hw))
        (fun _ => Triple.throw (fun _ hw => hw))
    · refine processResults_triple (fun result remaining => ?_)
      refine (serviceCall_liveIdle (hpaper.service _ _) (hquiet.1 _ _)).conseq (fun _ hw => hw)
        (fun _ _ hw => hw) (fun f w hw => ?_)
      cases f with
      | raised e => exact hw
      | killed => exact hw

theorem keptRuns_liveIdle :
    KeptRuns cfg (fun e => e.IsPaper ∧ e.Quiet cfg.service) (LiveIdle cfg start)
      (DeadStacking cfg start) where
  alive w hw := hw.1
  poll env henv := kept_liveIdle henv.1 henv.2
  start quotes broker now w hgood hw := by
    have hrestart : StackingInvariant start cfg.service.pointValue
        (Execution.step cfg.service w.world .restart) :=
      StackingInvariant.event hw trivial (by simp)
    refine ⟨?_, fun ⟨result, hrec⟩ => ⟨rfl, ?_⟩⟩
    · exact (hrestart.event (e := .startup quotes now) trivial (by simp)).event (e := .restart)
        trivial (by simp)
    · exact ((hrestart.startup hrec).event (e := .reconcile none broker now) hgood.1 (by simp)).event
        (e := .commit) trivial (by simp)
  operate w command hw := ⟨hw.1, hw.2.event (e := .operate command) trivial (by simp)⟩
  operateDead w command hw :=
    StackingInvariant.event (e := .operate command) hw trivial (by simp)
  release w id token hw := ⟨hw.1, hw.2.event (e := .releaseLease id token) trivial (by simp)⟩
  commit w hw := ⟨hw.1, hw.2.event (e := .commit) trivial (by simp)⟩
  dead w hw := hw.2.toStackingInvariant
  die w hw := StackingInvariant.event (e := .restart) hw trivial (by simp)

end Runs

/-- No call of the broker stacks on an unresolved order, in every run of a worker on the paper
broker in which no exception falls between an intent commit and its outcome commit. -/
theorem no_stacking_on_unresolved_order {S : Type} (cfg : WorkerConfig S) (w : Worker S)
    (hw : w.world.Fresh) (hoff : w.alive = false) (events : List WorkerEvent)
    (hpaper : ∀ e ∈ events, e.IsPaper) (hquiet : ∀ e ∈ events, e.Quiet cfg.service) :
    Unstacked (run (Worker.step cfg) w events).world.submissions := by
  have hfresh : DeadStacking cfg w.world.session.committed.books w := by
    refine ⟨hw.exactlyOnceInvariant cfg.service.pointValue, ?_, ?_, ?_⟩
    · simp [Database.Owned, hw.orders]
    · simp [Database.Owned, hw.clean, hw.orders]
    · simp [Unstacked, hw.submissions]
  have hfinal := keptRuns_liveIdle.run (fun e he => ⟨hpaper e he, hquiet e he⟩)
    (.inr ⟨hoff, hfresh⟩ : Holds (LiveIdle cfg _) (DeadStacking cfg _) w)
  rcases hfinal with ⟨-, hlive⟩ | ⟨-, hdead⟩
  · exact hlive.2.unstacked
  · exact hdead.unstacked

/-! ## A broker that raises -/

/-- A strategy that asks to buy one contract on every bar. -/
def eagerStrategy : TradingStrategy Unit where
  computeIndicators s bars := (s, .ok { bars })
  checkEntryConditions _ _ := .ok [{ symbol := "WIN", action := .buy }]
  checkExitConditions _ _ _ := .ok []
  sizeSignal _ _ := .ok (some 1)

def deskConfig : WorkerConfig Unit where
  leaseTtl := 600000000
  strategy _ := eagerStrategy
  buildStrategy _ := .ok ((), 20)

def deskWorker : Worker Unit := { world := deskWorld }

/-- The minute bars that are complete at the `n`-th minute. -/
def deskBars (n : ℕ) : List Bar :=
  (List.range n).map (fun i =>
    { openTime := i * 60000000, open_ := 100, high := 101, low := 99, close := 100 })

/-- The paper broker while its quote source raises. -/
def unreachableBroker : ExecutionBroker where
  submitMarketOrder _ _ := .error (.external "quote source unavailable")
  lookupOrder _ := .ok paperLookup

/-- A poll at the `n`-th minute. -/
def deskPoll (n : ℕ) (broker : ExecutionBroker) (crash : Checkpoint → Option Interruption) :
    PollEnvironment :=
  let now : Time := n * 60000000
  let coordinator : BarCoordinator := { provider := fun _ _ _ => .ok (deskBars n), now }
  let service : BarEnvironment := { broker, quotes := deskQuotes now, now, crash }
  { now, coordinator, buildCoordinator := fun _ => coordinator, leaseToken := fun _ => "token"
    broker := paperBroker (deskQuotes now) now, service := fun _ _ => service
    flatten := fun _ => service }

def deskStart (n : ℕ) : WorkerEvent :=
  let now : Time := n * 60000000
  .start (deskQuotes now) (paperBroker (deskQuotes now) now) now

def noCrash : Checkpoint → Option Interruption := fun _ => none

/-- The broker raises in the first poll; the second poll brings the next signal. -/
def raisingRun : List WorkerEvent :=
  [deskStart 1, .poll (deskPoll 1 unreachableBroker noCrash),
    .poll (deskPoll 2 (paperBroker (deskQuotes 120000000) 120000000) noCrash)]

theorem unreachableBroker_isPaper : IsPaperBroker unreachableBroker :=
  ⟨⟨fun _ => none, 0, fun _ _ => .inr ⟨_, rfl⟩⟩, fun _ => rfl⟩

/-- The second order is submitted while the first one is still an intent. -/
theorem broker_exception_stacks_orders :
    deskWorker.world.Fresh ∧ (∀ e ∈ raisingRun, e.IsPaper) ∧
    ¬ Unstacked (run (Worker.step deskConfig) deskWorker raisingRun).world.submissions := by
  refine ⟨deskWorld_fresh, ?_, by decide +kernel⟩
  intro e he
  simp only [raisingRun, List.mem_cons, List.not_mem_nil, or_false] at he
  rcases he with rfl | rfl | rfl
  · exact isPaperBroker_paperBroker _ _
  · exact ⟨isPaperBroker_paperBroker _ _, fun _ _ => unreachableBroker_isPaper,
      fun _ => unreachableBroker_isPaper⟩
  · exact ⟨isPaperBroker_paperBroker _ _, fun _ _ => isPaperBroker_paperBroker _ _,
      fun _ => isPaperBroker_paperBroker _ _⟩

/-- A process that dies after an intent commit, its successor, and two more signals. -/
def killedRun : List WorkerEvent :=
  let quiet (n : ℕ) (crash : Checkpoint → Option Interruption) : WorkerEvent :=
    .poll (deskPoll n (paperBroker (deskQuotes (n * 60000000)) (n * 60000000)) crash)
  [deskStart 1, quiet 1 (fun c => if c = .afterIntentCommit then some .kill else none), deskStart 2,
    quiet 2 noCrash, quiet 3 noCrash]

theorem no_stacking_killed_run :
    (run (Worker.step deskConfig) deskWorker killedRun).world.session.committed.orders.map (·.status) =
      [.rejected, .filled, .filled] ∧
    Unstacked (run (Worker.step deskConfig) deskWorker killedRun).world.submissions := by
  have hpoll : ∀ n now crash, (∀ c, crash c ≠ some .raise) →
      (WorkerEvent.poll (deskPoll n (paperBroker (deskQuotes now) now) crash)).IsPaper ∧
      (WorkerEvent.poll (deskPoll n (paperBroker (deskQuotes now) now) crash)).Quiet {} := by
    intro n now crash hcrash
    have hpaper : IsPaperBroker (paperBroker (deskQuotes now) now) := isPaperBroker_paperBroker _ _
    have hquiet : BarEnvironment.Quiet {}
        { broker := paperBroker (deskQuotes now) now, quotes := deskQuotes (n * 60000000)
          now := n * 60000000, crash } :=
      ⟨hcrash _, hcrash _, fun _ => ⟨_, rfl⟩⟩
    exact ⟨⟨isPaperBroker_paperBroker _ _, fun _ _ => hpaper, fun _ => hpaper⟩,
      fun _ _ => hquiet, fun _ => hquiet⟩
  have hgood : ∀ e ∈ killedRun, e.IsPaper ∧ e.Quiet deskConfig.service := by
    intro e he
    simp only [killedRun, List.mem_cons, List.not_mem_nil, or_false] at he
    rcases he with rfl | rfl | rfl | rfl | rfl
    · exact ⟨isPaperBroker_paperBroker _ _, trivial⟩
    · exact hpoll _ _ _ (fun c => by cases c <;> decide)
    · exact ⟨isPaperBroker_paperBroker _ _, trivial⟩
    · exact hpoll _ _ _ (fun c => by cases c <;> decide)
    · exact hpoll _ _ _ (fun c => by cases c <;> decide)
  refine ⟨by decide +kernel, ?_⟩
  exact no_stacking_on_unresolved_order deskConfig deskWorker deskWorld_fresh rfl killedRun
    (fun e he => (hgood e he).1) (fun e he => (hgood e he).2)

end QBackend.Execution
