import QBackend.EvaluatorPosition

/-!
# No completed bar is lost

`ingest_completed_bars` moves the watermark past a whole batch before the first of its bars is
processed. A batch that fits the window and that no exception cuts short has a decision for every
bar; what an exception leaves of a batch is behind the watermark and never comes back.
-/

namespace QBackend.Execution

open KeyedTables FallibleSteps StatefulActions RunInvariants

/-! ## Decision rows -/

section Writes

variable {allowed : FillApplication → Prop} {pointValue : ℚ} {bound : ℕ} {db db' : Database}

theorem Write.grown (h : Write allowed pointValue bound db db') : Grown db db' := by
  cases h with
  | frame h => exact h.toGrown
  | annotate id f h _ _ => exact h.toGrown
  | intent o _ _ h => exact h.toGrown
  | settle id h => exact h.toGrown
  | fill a _ h => exact h.toGrown

theorem Writes.grown (h : Writes allowed pointValue bound db db') : Grown db db' := by
  induction h with
  | refl => exact .refl db
  | tail _ hstep ih => exact ih.trans hstep.grown

end Writes

/-! ## Decisions along a run -/

/-- Between the calls of a worker the open transaction has made no decision of its own, and no bar
was decided twice. -/
structure DecisionInvariant (w : World) : Prop where
  distinct : w.session.committed.decisionKeys.Nodup
  distinctWorking : w.session.working.decisionKeys.Nodup
  durable : ∀ k ∈ w.session.committed.decisionKeys, k ∈ w.session.working.decisionKeys
  visible : ∀ k ∈ w.session.working.decisionKeys, k ∈ w.session.committed.decisionKeys
  timeframes : w.session.working.timeframes = w.session.committed.timeframes

/-- Committed decisions stay, and so do timeframes. -/
structure DecisionsKept (w w' : World) : Prop where
  decisions : ∀ k ∈ w.session.committed.decisionKeys, k ∈ w'.session.committed.decisionKeys
  timeframes : w'.session.working.timeframes = w.session.working.timeframes

section Worlds

variable {start : Books} {cfg : ServiceConfig} {w w' : World}

theorem DecisionInvariant.advance {allowed : FillApplication → Prop} {pointValue : ℚ} {bound : ℕ}
    (h : DecisionInvariant w) (ha : Advance allowed pointValue bound w w')
    (hvisible : ∀ k ∈ w'.session.working.decisionKeys, k ∈ w'.session.committed.decisionKeys) :
    DecisionInvariant w' ∧ DecisionsKept w w' := by
  cases ha with
  | stay hs _ _ =>
    rw [hs] at hvisible
    refine ⟨⟨?_, ?_, ?_, ?_, ?_⟩, ⟨?_, ?_⟩⟩ <;> rw [hs]
    · exact h.distinct
    · exact h.distinctWorking
    · exact h.durable
    · exact hvisible
    · exact h.timeframes
    · exact fun k hk => hk
  | drop hs _ _ =>
    refine ⟨⟨?_, ?_, ?_, ?_, ?_⟩, ⟨?_, ?_⟩⟩ <;> rw [hs]
    · exact h.distinct
    · exact h.distinct
    · exact fun k hk => hk
    · exact fun k hk => hk
    · exact fun k hk => hk
    · exact h.timeframes.symm
  | extend db _ hs _ hw _ _ =>
    have hg := hw.grown
    rw [hs] at hvisible
    refine ⟨⟨?_, ?_, ?_, ?_, ?_⟩, ⟨?_, ?_⟩⟩ <;> rw [hs]
    · exact h.distinct
    · exact hg.distinct h.distinctWorking
    · exact fun k hk => hg.decisionKeys k (h.durable k hk)
    · exact hvisible
    · exact hg.timeframes.trans h.timeframes
    · exact fun k hk => hk
    · exact hg.timeframes
  | commit db _ hs _ hw _ _ =>
    have hg := hw.grown
    refine ⟨⟨?_, ?_, ?_, ?_, ?_⟩, ⟨?_, ?_⟩⟩ <;> rw [hs]
    · exact hg.distinct h.distinctWorking
    · exact hg.distinct h.distinctWorking
    · exact fun k hk => hk
    · exact fun k hk => hk
    · exact fun k hk => hg.decisionKeys k (h.durable k hk)
    · exact hg.timeframes
  | recover db hs _ hw _ =>
    have hg := hw.grown
    refine ⟨⟨?_, ?_, ?_, ?_, ?_⟩, ⟨?_, ?_⟩⟩ <;> rw [hs]
    · exact hg.distinct h.distinct
    · exact hg.distinct h.distinct
    · exact fun k hk => hk
    · exact fun k hk => hk
    · exact fun k hk => hg.decisionKeys k hk
    · exact hg.timeframes.trans h.timeframes.symm

/-- A write of the open transaction that makes no decision. -/
theorem visible_amend {result : Except ExecutionError Database}
    (h : ∀ k ∈ w.session.working.decisionKeys, k ∈ w.session.committed.decisionKeys)
    (hkeys : ∀ db, result = .ok db → db.decisionKeys = w.session.working.decisionKeys) :
    ∀ k ∈ (w.amend result).session.working.decisionKeys,
      k ∈ (w.amend result).session.committed.decisionKeys := by
  cases result with
  | error e => exact h
  | ok db =>
    intro k hk
    simp only [World.amend] at hk ⊢
    rw [hkeys db rfl] at hk
    exact h k hk

theorem step_visible {e : Event} (he : ∀ call env, e ≠ .processBar call env)
    (h : ∀ k ∈ w.session.working.decisionKeys, k ∈ w.session.committed.decisionKeys) :
    ∀ k ∈ (step cfg w e).session.working.decisionKeys,
      k ∈ (step cfg w e).session.committed.decisionKeys := by
  cases e with
  | processBar call env => exact absurd rfl (he call env)
  | startup quotes now =>
    simp only [step]
    split <;> exact fun k hk => hk
  | reconcile d broker now =>
    simp only [step]
    split
    · exact fun k hk => hk
    next hpass =>
      intro k hk
      dsimp only at hk ⊢
      rw [(sameRows_reconcileOrders hpass).decisionKeys] at hk
      exact h k hk
  | resolve id body now =>
    simp only [step]
    split
    · split
      · exact h
      · exact fun k hk => hk
    · exact h
  | operate command =>
    simp only [step]
    split
    · split
      · exact h
      · exact fun k hk => hk
    · exact h
  | acquireLease d token ttl now =>
    exact visible_amend h (fun _ hdb => (sameRows_acquireWorkerLease hdb).decisionKeys)
  | heartbeatLease d token ttl now =>
    exact visible_amend h (fun _ hdb => (sameRows_heartbeatWorkerLease hdb).decisionKeys)
  | releaseLease d token =>
    exact visible_amend h (fun _ hdb => (sameRows_releaseWorkerLease hdb).decisionKeys)
  | clearPending d =>
    refine visible_amend h (fun db hdb => ?_)
    unfold Database.clearPendingDeploymentAction at hdb
    split at hdb
    · cases hdb
    · cases hdb
      rfl
  | commit => exact fun k hk => hk
  | restart => exact fun k hk => hk

theorem BarStep.decides {call : BarCall} {env : BarEnvironment}
    {r : Except Failure BarProcessResult} (hstep : BarStep cfg w call env w' r)
    (h : ∀ k ∈ w.session.working.decisionKeys, k ∈ w.session.committed.decisionKeys) :
    (∀ k ∈ w'.session.working.decisionKeys, k ∈ w'.session.committed.decisionKeys) ∧
    (∀ x, r = .ok x → call.result.emitsDecision = true →
      call.barKey ∈ w'.session.committed.decisionKeys) := by
  have hrecorded : ∀ {o : ExecutionOrder} {db : Database}, Intended w call o db →
      call.barKey ∈ db.decisionKeys := fun hi => hi.barKey ▸ hi.write.recorded
  cases hstep with
  | skipped r hkey => exact ⟨h, fun _ _ hemits => h _ (hkey hemits)⟩
  | failed n f hn => exact ⟨fun k hk => hk, fun _ hr => nomatch hr⟩
  | concluded db r hframe hkey => exact ⟨fun k hk => hk, fun _ _ _ => hkey⟩
  | intended db o f hi _ => exact ⟨fun k hk => hk, fun _ hr => nomatch hr⟩
  | submitted db o request f hi _ _ => exact ⟨fun k hk => hk, fun _ hr => nomatch hr⟩
  | settled db o request db' r hi _ hs =>
    exact ⟨fun k hk => hk, fun _ _ _ => hs.decisionKeys _ (hrecorded hi)⟩
  | filled db o request db' r a hi _ _ hf _ =>
    exact ⟨fun k hk => hk, fun _ _ _ => hf.decisionKeys _ (hrecorded hi)⟩

/-- What a paper event keeps: the invariant of the orders, that of the decisions, and the ids of
the deployments. -/
structure PaperWorld (start : Books) (pointValue : ℚ) (w : World) : Prop where
  once : ExactlyOnceInvariant start pointValue w
  decisions : DecisionInvariant w
  ids : (w.session.working.timeframes.map Prod.fst).Nodup

theorem PaperWorld.event (h : PaperWorld start cfg.pointValue w) {e : Event} (hpaper : e.IsPaper)
    (he : ∀ call env, e ≠ .processBar call env) :
    PaperWorld start cfg.pointValue (step cfg w e) ∧ DecisionsKept w (step cfg w e) := by
  have hadvance : Advance IsPaperFill cfg.pointValue 0 w (step cfg w e) :=
    step_settles h.once.working.toOrderInvariant (h.once.freshFills hpaper) hpaper.allowedFills he
  obtain ⟨hdecisions, hkept⟩ :=
    h.decisions.advance hadvance (step_visible he h.decisions.visible)
  exact ⟨⟨h.once.step hpaper, hdecisions, hkept.timeframes ▸ h.ids⟩, hkept⟩

theorem PaperWorld.service (h : PaperWorld start cfg.pointValue w) (call : BarCall)
    {env : BarEnvironment} (hpaper : IsPaperBroker env.broker) :
    PaperWorld start cfg.pointValue (step cfg w (.processBar call env)) ∧
    DecisionsKept w (step cfg w (.processBar call env)) ∧
    (∀ x, (processCompletedBar cfg w call env).2 = .ok x → call.result.emitsDecision = true →
      call.barKey ∈ (step cfg w (.processBar call env)).session.committed.decisionKeys) := by
  have hevent : (Event.processBar call env).IsPaper := hpaper
  have hstep : BarStep cfg w call env _ _ :=
    processCompletedBar_step h.once.working.below (h.once.freshFills hevent)
  obtain ⟨hvisible, hdecided⟩ := hstep.decides h.decisions.visible
  have hadvance : Advance IsPaperFill cfg.pointValue (step cfg w (.processBar call env)).nextId w
      (step cfg w (.processBar call env)) :=
    step_advance h.once.working.toOrderInvariant (h.once.freshFills hevent) hevent.allowedFills
  obtain ⟨hdecisions, hkept⟩ := h.decisions.advance hadvance hvisible
  exact ⟨⟨h.once.step hevent, hdecisions, hkept.timeframes ▸ h.ids⟩, hkept, hdecided⟩

end Worlds

/-! ## Batches -/

/-- No bar of the batch was trimmed from the window that it was merged into. -/
def Evaluation.FitsWindow (e : Evaluation) : Prop :=
  ∀ b ∈ e.bars, b.openTime ∈ (mergeWindow e.rolling (sortIndex e.bars) e.windowBound).map Bar.openTime

instance (e : Evaluation) : Decidable e.FitsWindow :=
  inferInstanceAs (Decidable (∀ b ∈ e.bars, _))

/-- The exception left nothing behind the watermark: it came after the decision of the last bar. -/
def BatchException.Harmless (x : BatchException) : Prop := x.remaining = 0 ∧ x.decided = true

instance (x : BatchException) : Decidable x.Harmless := inferInstanceAs (Decidable (_ ∧ _))

section Delivery

variable {S : Type} {cfg : WorkerConfig S} {start : Books} {w : Worker S}

/-- Every batch so far fitted its window and was worked off. -/
structure Worker.Undisturbed (w : Worker S) : Prop where
  fits : ∀ e ∈ w.evaluations, e.FitsWindow
  harmless : ∀ x ∈ w.exceptions, x.Harmless

/-- The evaluator runs forward on the timeframe of its deployment. -/
structure Runtime.Follows (r : Runtime S) (db : Database) : Prop where
  replayMode : r.evaluator.replayMode = false
  timeframe : ∃ t, (r.deploymentId, t) ∈ db.timeframes ∧ r.evaluator.timeframe = t.toUpper

/-- Every bar behind a watermark has its decision, the bars of `pending` apart. -/
structure Delivering (cfg : WorkerConfig S) (start : Books) (pending : List (ℕ × Time))
    (w : Worker S) : Prop where
  alive : w.alive = true
  nodup : (w.runtimes.map Runtime.deploymentId).Nodup
  world : PaperWorld start cfg.service.pointValue w.world
  follows : ∀ r ∈ w.runtimes, r.Follows w.working
  delivered : w.Undisturbed → ∀ r ∈ w.runtimes, ∀ t ∈ r.passed,
    (r.deploymentId, t) ∈ w.world.session.committed.decisionKeys ∨ (r.deploymentId, t) ∈ pending

def DeadDelivery (cfg : WorkerConfig S) (start : Books) (w : Worker S) : Prop :=
  PaperWorld start cfg.service.pointValue w.world

namespace Delivering

variable {pending pending' : List (ℕ × Time)}

theorem after (h : Delivering cfg start pending w) {e : Event}
    (hworld : PaperWorld start cfg.service.pointValue (step cfg.service w.world e))
    (hkept : DecisionsKept w.world (step cfg.service w.world e)) :
    Delivering cfg start pending (w.after cfg e) := by
  refine ⟨h.alive, h.nodup, hworld, fun r hr => ?_, fun hclean r hr t ht => ?_⟩
  · obtain ⟨hmode, tf, htf, heq⟩ := h.follows r hr
    refine ⟨hmode, tf, ?_, heq⟩
    exact hkept.timeframes.symm ▸ htf
  · rcases h.delivered ⟨hclean.fits, hclean.harmless⟩ r hr t ht with hdecided | hpending
    · exact .inl (hkept.decisions _ hdecided)
    · exact .inr hpending

theorem event (h : Delivering cfg start pending w) {e : Event} (hpaper : e.IsPaper)
    (he : ∀ call env, e ≠ .processBar call env) : Delivering cfg start pending (w.after cfg e) :=
  h.after (h.world.event hpaper he).1 (h.world.event hpaper he).2

theorem settle (h : Delivering cfg start pending w)
    (hsettled : w.Undisturbed → ∀ k ∈ pending, k ∈ w.world.session.committed.decisionKeys ∨ k ∈ pending') :
    Delivering cfg start pending' w := by
  refine ⟨h.alive, h.nodup, h.world, h.follows, fun hclean r hr t ht => ?_⟩
  rcases h.delivered hclean r hr t ht with hdecided | hpending
  · exact .inl hdecided
  · exact hsettled hclean _ hpending

theorem noteException (h : Delivering cfg start pending w) (id remaining : ℕ) (decided : Bool) :
    Delivering cfg start pending (w.noteException id remaining decided) := by
  refine ⟨h.alive, h.nodup, h.world, h.follows, fun hclean => h.delivered ⟨hclean.fits, ?_⟩⟩
  exact fun x hx => hclean.harmless x (List.mem_append_left _ hx)

theorem closed (h : Delivering cfg start pending w) (id : ℕ) :
    Delivering cfg start pending
      { w with runtimes := w.runtimes.filter (fun x => x.deploymentId ≠ id) } :=
  ⟨h.alive, Worker.nodup_closed h.nodup id, h.world,
    fun r hr => h.follows r (List.mem_filter.mp hr).1,
    fun hclean r hr => h.delivered ⟨hclean.fits, hclean.harmless⟩ r (List.mem_filter.mp hr).1⟩

end Delivering

theorem Worker.Undisturbed.harmless_note {id remaining : ℕ} {decided : Bool}
    (h : (w.noteException id remaining decided).Undisturbed) : remaining = 0 ∧ decided = true :=
  h.harmless ⟨id, remaining, decided⟩ (List.mem_append_right _ (by simp))

theorem Worker.mem_decisionKeys_of_isDecided {id : ℕ} {t : Time} (h : w.isDecided id t = true) :
    (id, t) ∈ w.world.session.committed.decisionKeys := by
  obtain ⟨d, hd⟩ := Option.isSome_iff_exists.mp h
  have hkey := List.find?_some hd
  simp only [decide_eq_true_eq] at hkey
  refine List.mem_map.mpr ⟨d, List.mem_of_find?_eq_some hd, ?_⟩
  rw [hkey.1, hkey.2]

/-! ## Calls -/

/-- The bars that these results are to decide. -/
def decisionsOf (id : ℕ) (results : List ForwardDecisionResult) : List (ℕ × Time) :=
  (results.filter (·.emitsDecision)).map (fun result => (id, result.barCloseTime))

theorem mem_decisionsOf_cons {id : ℕ} {result : ForwardDecisionResult}
    {rest : List ForwardDecisionResult} {k : ℕ × Time} (h : k ∈ decisionsOf id (result :: rest)) :
    (result.emitsDecision = true ∧ k = (id, result.barCloseTime)) ∨ k ∈ decisionsOf id rest := by
  obtain ⟨x, hx, rfl⟩ := List.mem_map.mp h
  obtain ⟨hmem, hemits⟩ := List.mem_filter.mp hx
  rcases List.mem_cons.mp hmem with rfl | hmem
  · exact .inl ⟨hemits, rfl⟩
  · exact .inr (List.mem_map.mpr ⟨x, List.mem_filter.mpr ⟨hmem, hemits⟩, rfl⟩)

theorem flatten_delivering {call : BarCall} {env : BarEnvironment} (hpaper : IsPaperBroker env.broker) :
    Triple (Delivering cfg start []) (serviceCall cfg call env) (fun _ => Delivering cfg start [])
      (Fails (Delivering cfg start []) (DeadDelivery cfg start)) := by
  refine serviceCall_triple (fun w hw => ?_)
  obtain ⟨hworld, hkept, -⟩ := hw.world.service call hpaper
  split
  · exact hw.after hworld hkept
  next f _ =>
    cases f with
    | raised e => exact hw.after hworld hkept
    | killed => exact hworld

/-- The calls of a batch decide what its results promised. An exception keeps the promise only on
the last bar and after its decision. -/
theorem processResults_delivering {env : PollEnvironment} (hpaper : env.IsPaper) (r : Runtime S)
    (results : List ForwardDecisionResult) :
    Triple (Delivering cfg start (decisionsOf r.deploymentId results)) (processResults cfg env r results)
      (fun _ => Delivering cfg start []) (Fails (Delivering cfg start []) (DeadDelivery cfg start)) := by
  induction results with
  | nil => exact Triple.pure (fun _ hw => hw)
  | cons result rest ih =>
    refine Triple.bind (Triple.onFailure (serviceCall_triple fun w hw => ?_)) (fun _ => ih)
    obtain ⟨hworld, hkept, hdecided⟩ := hw.world.service
      { deploymentId := r.deploymentId, result, leaseToken := r.leaseToken }
      (hpaper.service r.deploymentId result.barCloseTime)
    have hafter := hw.after hworld hkept
    split
    next x hx =>
      refine hafter.settle (fun _ k hk => ?_)
      rcases mem_decisionsOf_cons hk with ⟨hemits, rfl⟩ | hk
      · exact .inl (hdecided x hx hemits)
      · exact .inr hk
    next f _ =>
      cases f with
      | killed => exact hworld
      | raised e =>
        refine (hafter.noteException _ _ _).settle (fun hclean k hk => ?_)
        obtain ⟨hlast, hknown⟩ := hclean.harmless_note
        rw [List.length_eq_zero_iff.mp hlast] at hk
        rcases mem_decisionsOf_cons hk with ⟨-, rfl⟩ | hk
        · exact .inl (Worker.mem_decisionKeys_of_isDecided hknown)
        · simp [decisionsOf] at hk

/-! ## Ingested batches -/

theorem newBarsForConsumer_after {batch : CompletedBarBatch} {watermark : Option Time}
    {bars : List Bar} {duration : Time} (hduration : barDuration batch.key.timeframe = .ok duration)
    (h : newBarsForConsumer batch watermark = .ok bars) :
    ∀ b ∈ bars, ∀ t ∈ watermark, t < b.closeTime duration := by
  unfold newBarsForConsumer at h
  split at h
  · cases h
    simp
  · rw [hduration] at h
    cases h
    intro b hb t ht
    have hafter := (List.mem_filter.mp hb).2
    rw [Option.mem_def.mp ht] at hafter
    simpa using hafter

theorem Evaluator.mem_closesPassed {ev : Evaluator S} {bars : List Bar} {t : Time}
    (h : t ∈ ev.closesPassed bars) :
    ∃ duration, barDuration ev.timeframe = .ok duration ∧ ∃ b ∈ bars, t = b.closeTime duration := by
  unfold closesPassed at h
  split at h
  next duration watermark hduration _ =>
    obtain ⟨hmem, -⟩ := List.mem_filter.mp h
    obtain ⟨b, hb, rfl⟩ := List.mem_map.mp hmem
    exact ⟨duration, hduration, b, hb, rfl⟩
  · cases h

theorem closesPassed_promised {strategy : TradingStrategy S} (hkeeps : strategy.KeepsRows)
    {r : Runtime S} {deployment : ExecutionDeployment} {bars : List Bar} {ev' : Evaluator S}
    {results : List ForwardDecisionResult} (hmode : r.evaluator.replayMode = false)
    (htimeframe : r.evaluator.timeframe = deployment.timeframe.toUpper)
    (hbars : NewBars r deployment bars)
    (hfits : ∀ b ∈ bars, b.openTime ∈
      (mergeWindow r.evaluator.rolling (sortIndex bars) r.evaluator.windowBound).map Bar.openTime)
    (h : r.evaluator.ingestCompletedBars strategy bars = (ev', .ok results)) :
    ∀ t ∈ ev'.closesPassed bars, (r.deploymentId, t) ∈ decisionsOf r.deploymentId results := by
  intro t ht
  obtain ⟨batch, hkey, hnew⟩ := hbars
  have hidentity := r.evaluator.ingestCompletedBars_identity strategy bars none
  rw [h] at hidentity
  simp only [Evaluator.identity, Prod.mk.injEq] at hidentity
  obtain ⟨duration, hduration, b, hb, rfl⟩ := Evaluator.mem_closesPassed ht
  rw [hidentity.2.1] at hduration
  have hafter := newBarsForConsumer_after (by rw [hkey, ← htimeframe]; exact hduration) hnew
  obtain ⟨result, hmem, hclose, hemits⟩ :=
    Evaluator.ingestCompletedBars_covers hkeeps hmode hduration hafter hfits h b hb
  exact List.mem_map.mpr ⟨result, List.mem_filter.mpr ⟨hmem, hemits⟩, by rw [hclose]⟩

theorem Delivering.timeframe (h : Delivering cfg start [] w) {r : Runtime S}
    {deployment : ExecutionDeployment} (hr : Ready r deployment w) :
    r.evaluator.timeframe = deployment.timeframe.toUpper := by
  obtain ⟨tf, htf, heq⟩ := (h.follows _ (mem_of_lookup hr.runtime)).timeframe
  have hid : deployment.id = r.deploymentId := key_of_lookup hr.row
  have hrow : (r.deploymentId, deployment.timeframe) ∈ w.working.timeframes :=
    List.mem_map.mpr ⟨deployment, mem_of_lookup hr.row, by rw [hid]⟩
  have hsame := eq_of_mem_of_key h.world.ids htf hrow rfl
  simp only [Prod.mk.injEq, true_and] at hsame
  rw [← hsame]
  exact heq

theorem Delivering.ingest (h : Delivering cfg start [] w) {r : Runtime S}
    {deployment : ExecutionDeployment} (hr : Ready r deployment w) {bars : List Bar}
    {ev' : Evaluator S} (hidentity : ev'.identity = r.evaluator.identity) {pending : List (ℕ × Time)}
    (hpending : (w.noteEvaluation r bars).Undisturbed →
      ∀ t ∈ ev'.closesPassed bars, (r.deploymentId, t) ∈ pending) :
    Delivering cfg start pending ((w.noteEvaluation r bars).updateRuntime r.deploymentId
      (fun x => { x with evaluator := ev', passed := x.passed ++ ev'.closesPassed bars })) := by
  have hmem := mem_of_lookup hr.runtime
  simp only [Evaluator.identity, Prod.mk.injEq] at hidentity
  obtain ⟨-, htimeframe, -, -, hmode⟩ := hidentity
  refine ⟨h.alive, ?_, h.world, fun x hx => ?_, fun hclean x hx t ht => ?_⟩
  · rw [Worker.map_updateRuntime (fun _ => by rfl)]
    exact h.nodup
  · rcases mem_modify.mp hx with ⟨x₀, hx₀, hkey, rfl⟩ | ⟨hx, -⟩
    · have hsame : x₀ = { r with deployment } := eq_of_mem_of_key h.nodup hx₀ hmem hkey
      obtain ⟨hforward, tf, htf, heq⟩ := h.follows x₀ hx₀
      subst hsame
      exact ⟨hmode.trans hforward, tf, htf, htimeframe.trans heq⟩
    · exact h.follows x hx
  · have hbefore : w.Undisturbed :=
      ⟨fun e he => hclean.fits e (List.mem_append_left _ he), hclean.harmless⟩
    rcases mem_modify.mp hx with ⟨x₀, hx₀, hkey, rfl⟩ | ⟨hx, -⟩
    · rcases List.mem_append.mp ht with ht | ht
      · exact (h.delivered hbefore x₀ hx₀ t ht).imp_right (by simp)
      · right
        show (x₀.deploymentId, t) ∈ pending
        rw [hkey]
        exact hpending ⟨hclean.fits, hclean.harmless⟩ t ht
    · exact (h.delivered hbefore x hx t ht).imp_right (by simp)

theorem ingestBatch_delivering {env : PollEnvironment} (hpaper : env.IsPaper)
    (hkeeps : ∀ id, (cfg.strategy id).KeepsRows) {r : Runtime S} {deployment : ExecutionDeployment}
    {bars : List Bar} (hbars : NewBars r deployment bars) :
    Triple (fun w => Delivering cfg start [] w ∧ Ready r deployment w) (ingestBatch cfg env r bars)
      (fun _ => Delivering cfg start []) (Fails (Delivering cfg start []) (DeadDelivery cfg start)) := by
  have hidentity := r.evaluator.ingestCompletedBars_identity (cfg.strategy r.deploymentId) bars none
  unfold ingestBatch
  cases hres : r.evaluator.ingestCompletedBars (cfg.strategy r.deploymentId) bars with
  | mk ev' results =>
    rw [hres] at hidentity
    cases results with
    | error e =>
      -- The bars that were evaluated before the exception are logged as unprocessed.
      refine Triple.bind (Q := fun _ => Delivering cfg start
        ((ev'.closesPassed bars).map (fun t => (r.deploymentId, t)))) ?_ (fun _ => ?_)
      · refine Triple.modify (fun w ⟨hw, hr⟩ => hw.ingest hr hidentity (fun _ t ht => ?_))
        exact List.mem_map.mpr ⟨t, ht, rfl⟩
      · refine Triple.bind (Q := fun _ => Delivering cfg start []) ?_
          (fun _ => Triple.throw (fun _ hw => hw))
        refine Triple.modify (fun w hw => (hw.noteException _ _ _).settle (fun hclean k hk => ?_))
        rw [List.length_eq_zero_iff.mp hclean.harmless_note.1] at hk
        simp at hk
    | ok results =>
      refine Triple.bind (Q := fun _ => Delivering cfg start (decisionsOf r.deploymentId results)) ?_
        (fun _ => processResults_delivering hpaper r results)
      refine Triple.modify (fun w ⟨hw, hr⟩ => hw.ingest hr hidentity (fun hclean => ?_))
      have hforward : r.evaluator.replayMode = false :=
        (hw.follows _ (mem_of_lookup hr.runtime)).replayMode
      have hfits := hclean.fits _ (List.mem_append_right _ (List.mem_singleton_self _))
      exact closesPassed_promised (hkeeps _) hforward (hw.timeframe hr) hbars hfits hres

/-! ## Polls and runs -/

theorem kept_delivering {env : PollEnvironment} (hpaper : env.IsPaper)
    (hkeeps : ∀ id, (cfg.strategy id).KeepsRows) :
    Kept cfg env (Delivering cfg start []) (DeadDelivery cfg start) where
  dead w hw := hw.world
  event w e he hw := hw.event (he.isPaper hpaper) he.ne_processBar
  refreshed w id deployment hw := by
    refine ⟨hw.alive, ?_, hw.world, fun r hr => ?_, fun hclean r hr t ht => ?_⟩
    · rw [Worker.map_updateRuntime (fun _ => by rfl)]
      exact hw.nodup
    · rcases mem_modify.mp hr with ⟨r₀, hr₀, -, rfl⟩ | ⟨hr, -⟩
      · exact ⟨(hw.follows r₀ hr₀).replayMode, (hw.follows r₀ hr₀).timeframe⟩
      · exact hw.follows r hr
    · rcases mem_modify.mp hr with ⟨r₀, hr₀, -, rfl⟩ | ⟨hr, -⟩
      · exact hw.delivered ⟨hclean.fits, hclean.harmless⟩ r₀ hr₀ t ht
      · exact hw.delivered ⟨hclean.fits, hclean.harmless⟩ r hr t ht
  opened w deployment r hr hnone hrow hw := by
    have hbuilt := buildRuntime_spec hr
    refine ⟨hw.alive, Worker.nodup_opened hw.nodup (hbuilt.deploymentId ▸ hnone), hw.world,
      fun x hx => ?_, fun hclean x hx t ht => ?_⟩
    · rcases List.mem_append.mp hx with hx | hx
      · exact hw.follows x hx
      · rw [List.mem_singleton.mp hx]
        refine ⟨hbuilt.replayMode, deployment.timeframe, ?_, hbuilt.timeframe⟩
        exact List.mem_map.mpr ⟨deployment, hrow, by rw [hbuilt.deploymentId]⟩
    · rcases List.mem_append.mp hx with hx | hx
      · exact hw.delivered ⟨hclean.fits, hclean.harmless⟩ x hx t ht
      · rw [List.mem_singleton.mp hx, hbuilt.passed] at ht
        cases ht
  closed w id _ hw := hw.closed id
  cleared w id hw := hw.event (e := .clearPending id) trivial (by simp)
  flattened id token := flatten_delivering (hpaper.flatten id)
  ingested r deployment bars hbars := ingestBatch_delivering hpaper hkeeps hbars

theorem keptRuns_delivering (hkeeps : ∀ id, (cfg.strategy id).KeepsRows) :
    KeptRuns cfg WorkerEvent.IsPaper (Delivering cfg start []) (DeadDelivery cfg start) where
  alive w hw := hw.alive
  poll env henv := kept_delivering henv hkeeps
  start quotes broker now w hgood hw := by
    have hrestart : PaperWorld start cfg.service.pointValue
        (Execution.step cfg.service w.world .restart) :=
      (PaperWorld.event (e := .restart) hw trivial (by simp)).1
    have hrecovered : PaperWorld start cfg.service.pointValue (w.recovered cfg quotes now) :=
      (hrestart.event (e := .startup quotes now) trivial (by simp)).1
    refine ⟨(hrecovered.event (e := .restart) trivial (by simp)).1, fun _ => ?_⟩
    have hreconciled := (hrecovered.event (e := .reconcile none broker now) hgood (by simp)).1
    exact ⟨rfl, by simp, (hreconciled.event (e := .commit) trivial (by simp)).1, by simp, by simp⟩
  operate w command hw := hw.event (e := .operate command) trivial (by simp)
  operateDead w command hw := (PaperWorld.event (e := .operate command) hw trivial (by simp)).1
  release w id token hw := (hw.closed id).event (e := .releaseLease id token) trivial (by simp)
  commit w hw := hw.event (e := .commit) trivial (by simp)
  dead w hw := hw.world
  die w hw := (PaperWorld.event (e := .restart) hw trivial (by simp)).1

end Delivery

/-- No completed bar is lost, in every run of a worker on the paper broker whose batches fit the
window and in which an exception comes only after the decision of the last bar of its batch:
each bar behind the watermark of an evaluator has one committed decision. -/
theorem no_completed_bar_lost {S : Type} (cfg : WorkerConfig S) (w : Worker S)
    (hw : w.world.Fresh) (hids : (w.working.deployments.map ExecutionDeployment.id).Nodup)
    (hoff : w.alive = false) (hkeeps : ∀ id, (cfg.strategy id).KeepsRows) (events : List WorkerEvent)
    (hpaper : ∀ e ∈ events, e.IsPaper)
    (hfits : ∀ e ∈ (run (Worker.step cfg) w events).evaluations, e.FitsWindow)
    (hharmless : ∀ x ∈ (run (Worker.step cfg) w events).exceptions, x.Harmless)
    (hrunning : (run (Worker.step cfg) w events).alive = true) :
    ∀ r ∈ (run (Worker.step cfg) w events).runtimes, ∀ t ∈ r.passed,
      (run (Worker.step cfg) w events).world.session.committed.decisionKeys.count
        (r.deploymentId, t) = 1 := by
  have hfresh : DeadDelivery cfg w.world.session.committed.books w := by
    refine ⟨hw.exactlyOnceInvariant cfg.service.pointValue, ⟨?_, ?_, ?_, ?_, ?_⟩, ?_⟩
    · simp [Database.decisionKeys, hw.decisions]
    · simp [Database.decisionKeys, hw.clean, hw.decisions]
    · simp [Database.decisionKeys, hw.decisions]
    · simp [Database.decisionKeys, hw.clean, hw.decisions]
    · rw [hw.clean]
    · rw [Database.timeframes, List.map_map]
      exact hids
  have hfinal := (keptRuns_delivering hkeeps).run hpaper
    (.inr ⟨hoff, hfresh⟩ : Holds (Delivering cfg _ []) (DeadDelivery cfg _) w)
  rcases hfinal with ⟨-, hlive⟩ | ⟨hdead, -⟩
  · intro r hr t ht
    rcases hlive.delivered ⟨hfits, hharmless⟩ r hr t ht with hdecided | hpending
    · exact List.count_eq_one_of_mem hlive.world.decisions.distinct hdecided
    · cases hpending
  · rw [hdead] at hrunning
    cases hrunning

/-- The broker raises on the first bar of a batch of two; the next poll brings the third bar. -/
def interruptedRun : List WorkerEvent :=
  [deskStart 2, .poll (deskPoll 2 unreachableBroker noCrash),
    .poll (deskPoll 3 (paperBroker (deskQuotes 180000000) 180000000) noCrash)]

/-- The second bar is behind the watermark without a decision, and a new process does not bring it
back. -/
theorem interrupted_batch_loses_bar :
    (¬ ∀ r ∈ (run (Worker.step deskConfig) deskWorker interruptedRun).runtimes, ∀ t ∈ r.passed,
      (run (Worker.step deskConfig) deskWorker interruptedRun).world.session.committed.decisionKeys.count
        (r.deploymentId, t) = 1) ∧
    (run (Worker.step deskConfig) deskWorker (interruptedRun ++ [.die, deskStart 4,
      .poll (deskPoll 4 (paperBroker (deskQuotes 240000000) 240000000) noCrash)])
      ).world.session.committed.decisionKeys = [(7, 60000000), (7, 180000000), (7, 240000000)] := by
  decide +kernel

/-- The successor of a killed process passes the bar of the first intent again and finds its
decision. -/
theorem no_completed_bar_lost_killed_run :
    (run (Worker.step deskConfig) deskWorker killedRun).runtimes.map Runtime.passed =
      [[60000000, 120000000, 180000000]] ∧
    ∀ r ∈ (run (Worker.step deskConfig) deskWorker killedRun).runtimes, ∀ t ∈ r.passed,
      (run (Worker.step deskConfig) deskWorker killedRun).world.session.committed.decisionKeys.count
        (r.deploymentId, t) = 1 := by
  have hpoll : ∀ n now crash,
      (WorkerEvent.poll (deskPoll n (paperBroker (deskQuotes now) now) crash)).IsPaper :=
    fun n now crash => ⟨isPaperBroker_paperBroker _ _, fun _ _ => isPaperBroker_paperBroker _ _,
      fun _ => isPaperBroker_paperBroker _ _⟩
  have hpaper : ∀ e ∈ killedRun, e.IsPaper := by
    intro e he
    simp only [killedRun, List.mem_cons, List.not_mem_nil, or_false] at he
    rcases he with rfl | rfl | rfl | rfl | rfl
    · exact isPaperBroker_paperBroker _ _
    · exact hpoll _ _ _
    · exact isPaperBroker_paperBroker _ _
    · exact hpoll _ _ _
    · exact hpoll _ _ _
  have hkeeps : ∀ id, (deskConfig.strategy id).KeepsRows := by
    intro id s bars frame hframe
    cases hframe
    rfl
  refine ⟨by decide +kernel, ?_⟩
  exact no_completed_bar_lost deskConfig deskWorker deskWorld_fresh (by decide) rfl hkeeps killedRun
    hpaper (by decide +kernel) (by decide +kernel) (by decide +kernel)

end QBackend.Execution
