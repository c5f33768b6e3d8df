import QBackend.BarDelivery
import QBackend.SharedPolling

/-!
# Seeded history

`seed_window` fills the rolling window of a new deployment and leaves its watermark empty. The
first batch is then new as a whole, and the bars of the seeding frame that it holds are decided
like any other. A deployment stays clear of its history as long as the coordinator hands out nothing
but later bars while there is no watermark.
-/

namespace QBackend.Execution

open KeyedTables FallibleSteps StatefulActions RunInvariants

variable {S : Type} {cfg : WorkerConfig S}

/-! ## Seeding -/

/-- The frame that `build_runtime` loads for a deployment. -/
def seedingFrame (cfg : WorkerConfig S) (coordinator : BarCoordinator)
    (deployment : ExecutionDeployment) : Except ExecutionError (List Bar) := do
  let key : BarStreamKey := ⟨deployment.symbol, deployment.timeframe.toUpper⟩
  let batch ← coordinator.fetchStream cfg.initialWindowBars key
    [{ deploymentId := deployment.id, symbol := deployment.symbol, timeframe := deployment.timeframe
       lastEvaluatedClose := deployment.lastBarCloseTime }]
  return batch.frame

/-- Every bar of a fetched frame is complete at the coordinator's clock. -/
theorem closeTime_le_of_mem_seedingFrame {coordinator : BarCoordinator}
    {deployment : ExecutionDeployment} {frame : List Bar} {duration : Time}
    (hduration : barDuration deployment.timeframe.toUpper = .ok duration)
    (h : seedingFrame cfg coordinator deployment = .ok frame) :
    ∀ b ∈ frame, b.closeTime duration ≤ coordinator.now := by
  simp only [seedingFrame, BarCoordinator.fetchStream, hduration, bind_eq_ok, pure_eq_ok] at h
  obtain ⟨batch, ⟨duration', hd, raw, -, rfl⟩, rfl⟩ := h
  cases hd
  intro b hb
  simpa using (List.mem_filter.mp hb).2

/-! ## What an evaluation may close -/

namespace Evaluator

variable {strategy : TradingStrategy S} {ev : Evaluator S} {duration : Time}

theorem evaluateRow_closes {row : BarRow} {t : Time} {ev' : Evaluator S}
    {result : ForwardDecisionResult} (h : ev.evaluateRow strategy row t = (ev', .ok result)) :
    result.barCloseTime = t := by
  unfold evaluateRow at h
  dsimp only at h
  split at h
  · cases h
  next r hr =>
    simp only [bind_eq_ok, pure_eq_ok] at hr
    obtain ⟨queued, -, quantity, -, rfl⟩ := hr
    simp only [Prod.mk.injEq, Except.ok.injEq] at h
    rw [← h.2]

theorem evaluateBars_closes {throughClose : Option Time} {bars : List Bar}
    {results : List ForwardDecisionResult}
    (h : (ev.evaluateBars strategy duration throughClose bars).2 = .ok results) :
    ∀ result ∈ results, ∃ b ∈ bars, result.barCloseTime = b.closeTime duration := by
  induction bars generalizing ev results with
  | nil =>
    cases h
    simp
  | cons bar rest ih =>
    have hrest : ∀ {ev₁ : Evaluator S} {results},
        (ev₁.evaluateBars strategy duration throughClose rest).2 = .ok results →
        ∀ result ∈ results, ∃ b ∈ bar :: rest, result.barCloseTime = b.closeTime duration := by
      intro ev₁ results h₁ result hresult
      obtain ⟨b, hb, heq⟩ := ih h₁ result hresult
      exact ⟨b, List.mem_cons_of_mem bar hb, heq⟩
    unfold evaluateBars at h
    dsimp only at h
    split at h
    · cases h
      simp
    · split at h
      · exact hrest h
      · split at h
        · cases h
        · split at h
          · exact hrest h
          · split at h
            · cases h
            next ev₁ result heq =>
              have hclose : result.barCloseTime = bar.closeTime duration := evaluateRow_closes heq
              cases hres : (ev₁.evaluateBars strategy duration throughClose rest).2 with
              | error e =>
                simp only [hres, Except.map] at h
                cases h
              | ok later =>
                simp only [hres, Except.map, Except.ok.injEq] at h
                subst h
                intro x hx
                rcases List.mem_cons.mp hx with rfl | hx
                · exact ⟨bar, by simp, hclose⟩
                · exact hrest hres x hx

theorem evaluateBars_invariant {P : Evaluator S → Prop}
    (hstrategy : ∀ ev s, P ev → P { ev with strategy := s })
    (hrow : ∀ ev row t, P ev → P (ev.evaluateRow strategy row t).1) (h : P ev)
    (throughClose : Option Time) (bars : List Bar) :
    P (ev.evaluateBars strategy duration throughClose bars).1 := by
  induction bars generalizing ev with
  | nil => exact h
  | cons bar rest ih =>
    unfold evaluateBars
    dsimp only
    split
    · exact h
    · split
      · exact ih h
      · split
        · exact hstrategy _ _ h
        · split
          · exact ih (hstrategy _ _ h)
          next row _ =>
            have hnext := hrow _ row (bar.closeTime duration) (hstrategy ev
              (augmentIndicatorFrame strategy ev.strategy ev.rolling).1 h)
            split
            next heq =>
              rw [heq] at hnext
              exact hnext
            next heq =>
              rw [heq] at hnext
              exact ih hnext

theorem isSome_evaluateBars (h : ev.lastEvaluatedClose.isSome) (throughClose : Option Time)
    (bars : List Bar) :
    (ev.evaluateBars strategy duration throughClose bars).1.lastEvaluatedClose.isSome := by
  refine evaluateBars_invariant (P := fun ev => ev.lastEvaluatedClose.isSome) (fun _ _ h => h)
    (fun ev row t h => ?_) h throughClose bars
  unfold evaluateRow
  dsimp only
  split
  · exact h
  · split
    · rfl
    · exact h

theorem evaluateBars_replay (hmode : ev.replayMode = true) (throughClose : Option Time)
    (bars : List Bar) :
    (ev.evaluateBars strategy duration throughClose bars).1.lastEvaluatedClose =
      ev.lastEvaluatedClose := by
  refine (evaluateBars_invariant (P := fun ev' => ev'.replayMode = true ∧
    ev'.lastEvaluatedClose = ev.lastEvaluatedClose) (fun _ _ h => h) (fun ev' row t h => ?_)
    ⟨hmode, rfl⟩ throughClose bars).2
  unfold evaluateRow
  simp only [h.1, Bool.not_true, Bool.false_and, Bool.false_eq_true, if_false]
  split <;> exact ⟨rfl, h.2⟩

theorem ingestCompletedBars_watermark {bars : List Bar} (hduration : barDuration ev.timeframe = .ok duration) :
    ∀ t ∈ (ev.ingestCompletedBars strategy bars).1.lastEvaluatedClose,
      t ∈ ev.lastEvaluatedClose ∨ ∃ b ∈ bars, t = b.closeTime duration := by
  unfold ingestCompletedBars
  split
  · exact fun t ht => .inl ht
  · simp only [hduration]
    intro t ht
    rcases evaluateBars_watermark t ht with hold | ⟨b, hb, rfl⟩
    · exact .inl hold
    · exact .inr ⟨b, mem_sortIndex.mp hb, rfl⟩

theorem ingestCompletedBars_closes {bars : List Bar} {results : List ForwardDecisionResult}
    (hduration : barDuration ev.timeframe = .ok duration)
    (h : (ev.ingestCompletedBars strategy bars).2 = .ok results) :
    ∀ result ∈ results, ∃ b ∈ bars, result.barCloseTime = b.closeTime duration := by
  unfold ingestCompletedBars at h
  split at h
  · cases h
    simp
  · simp only [hduration] at h
    intro result hresult
    obtain ⟨b, hb, heq⟩ := evaluateBars_closes h result hresult
    exact ⟨b, mem_sortIndex.mp hb, heq⟩

theorem isSome_ingestCompletedBars (strategy : TradingStrategy S) (h : ev.lastEvaluatedClose.isSome) (bars : List Bar)
    (throughClose : Option Time) :
    (ev.ingestCompletedBars strategy bars throughClose).1.lastEvaluatedClose.isSome := by
  unfold ingestCompletedBars
  dsimp only
  split
  · exact h
  · split
    · exact h
    · exact isSome_evaluateBars (by exact h) throughClose _

theorem replayRecovery_watermark (strategy : TradingStrategy S) (ev : Evaluator S) (bars : List Bar) (endClose : Option Time) :
    (ev.replayRecovery strategy bars endClose).1.lastEvaluatedClose = ev.lastEvaluatedClose := by
  unfold replayRecovery ingestCompletedBars
  dsimp only
  split
  · rfl
  · split
    · rfl
    · exact evaluateBars_replay rfl endClose _

end Evaluator

theorem warmUp_watermark {strategy : TradingStrategy S} {ev ev' : Evaluator S}
    {batch : Option CompletedBarBatch} (h : warmUp strategy ev batch = .ok ev') :
    ev'.lastEvaluatedClose = ev.lastEvaluatedClose := by
  unfold warmUp at h
  split at h
  · cases h
    rfl
  · split at h
    · cases h
      rfl
    · split at h
      · cases h
        rfl
      next batch _ _ close _ =>
        have hreplay := ev.replayRecovery_watermark strategy batch.frame (some close)
        split at h
        · cases h
        next heq =>
          cases h
          rw [heq] at hreplay
          exact hreplay

theorem buildRuntime_watermark {coordinator : BarCoordinator} {db : Database}
    {deployment : ExecutionDeployment} {token : String} {r : Runtime S}
    (h : buildRuntime cfg coordinator db deployment token = .ok r) :
    r.evaluator.lastEvaluatedClose = deployment.lastBarCloseTime := by
  simp only [buildRuntime, bind_eq_ok, pure_eq_ok] at h
  obtain ⟨trade, -, ⟨s, windowBound⟩, -, batches, -, ev, hev, rfl⟩ := h
  exact warmUp_watermark hev

/-! ## The invariant -/

/-- A deployment, its stream, and the clock of the coordinator that seeded it. -/
structure Activation where
  deploymentId : ℕ
  key : BarStreamKey
  since : Time

/-- Nothing of the deployment lies at or before its activation: no decision, no order, no
watermark. -/
structure Activation.Rows (a : Activation) (db : Database) : Prop where
  decisions : ∀ t, (a.deploymentId, t) ∈ db.decisionKeys → a.since < t
  orders : ∀ t, (a.deploymentId, t) ∈ db.orderKeys → a.since < t
  deployments : ∀ d ∈ db.deployments, d.id = a.deploymentId →
    (⟨d.symbol, d.timeframe.toUpper⟩ : BarStreamKey) = a.key ∧
      ∀ t ∈ d.lastBarCloseTime, a.since < t

/-- A call for another deployment, or for a bar after the activation. -/
def Activation.Admits (a : Activation) : Event → Prop
  | .processBar call _ => call.deploymentId = a.deploymentId → a.since < call.result.barCloseTime
  | _ => True

section Rows

variable {a : Activation} {db db' : Database}

theorem Activation.Rows.same (h : a.Rows db) (hsame : SameRows db db') : a.Rows db' := by
  constructor
  · rw [hsame.decisionKeys]
    exact h.decisions
  · rw [hsame.orderKeys]
    exact h.orders
  · rw [hsame.deployments]
    exact h.deployments

/-- A rewrite of a deployment that leaves its stream and its watermark. -/
theorem Activation.Rows.modify (h : a.Rows db) (id : ℕ)
    {f : ExecutionDeployment → ExecutionDeployment}
    (hf : ∀ d, ((f d).id, (f d).symbol, (f d).timeframe, (f d).lastBarCloseTime) =
      (d.id, d.symbol, d.timeframe, d.lastBarCloseTime)) :
    a.Rows { db with deployments := modify ExecutionDeployment.id db.deployments id f } := by
  refine ⟨h.decisions, h.orders, fun d hd hid => ?_⟩
  rcases mem_modify.mp hd with ⟨d₀, hd₀, -, rfl⟩ | ⟨hd, -⟩
  · have hsame := hf d₀
    simp only [Prod.mk.injEq] at hsame
    rw [hsame.1] at hid
    rw [hsame.2.1, hsame.2.2.1, hsame.2.2.2]
    exact h.deployments d₀ hd₀ hid
  · exact h.deployments d hd hid

theorem Activation.Rows.call {call : BarCall} (h : a.Rows db)
    (hcall : call.deploymentId = a.deploymentId → a.since < call.result.barCloseTime)
    (hrows : CallRows call db db') : a.Rows db' := by
  refine ⟨fun t ht => ?_, fun t ht => ?_, fun d hd hid => ?_⟩
  · rcases hrows.decisionKeys _ ht with hold | hnew
    · exact h.decisions t hold
    · simp only [BarCall.barKey, Prod.mk.injEq] at hnew
      exact hnew.2 ▸ hcall hnew.1.symm
  · rcases hrows.orderKeys _ ht with hold | hnew
    · exact h.orders t hold
    · simp only [BarCall.barKey, Prod.mk.injEq] at hnew
      exact hnew.2 ▸ hcall hnew.1.symm
  · rcases hrows.deployments with hdeployments | hdeployments <;> rw [hdeployments] at hd
    · exact h.deployments d hd hid
    · rcases mem_modify.mp hd with ⟨d₀, hd₀, hkey, rfl⟩ | ⟨hd, -⟩
      · have hown : d₀.id = a.deploymentId := hid
        refine ⟨(h.deployments d₀ hd₀ hown).1, fun t ht => ?_⟩
        rw [← Option.mem_some_iff.mp ht]
        exact hcall (hkey.symm.trans hown)
      · exact h.deployments d hd hid

theorem Activation.Rows.event {e : Event} (h : a.Rows db) (he : a.Admits e)
    (hrows : EventRows db db' e) : a.Rows db' := by
  cases e with
  | processBar call env => exact h.call he hrows
  | operate command =>
    rcases hrows with hcommand | rfl
    · cases command with
      | transition id target =>
        simp only [OperatorCommand.apply, Database.transitionDeploymentLifecycle] at hcommand
        split at hcommand
        · cases hcommand
        · simp only [bind_eq_ok, pure_eq_ok] at hcommand
          obtain ⟨_, -, rfl⟩ := hcommand
          exact h.modify id (fun _ => rfl)
      | requestFlatten id =>
        simp only [OperatorCommand.apply, Database.setPendingFlatten] at hcommand
        split at hcommand
        · cases hcommand
        · cases hcommand
          exact h.modify id (fun _ => rfl)
      | setKillSwitch enabled =>
        cases hcommand
        exact ⟨h.decisions, h.orders, h.deployments⟩
    · exact h
  | clearPending id =>
    rcases hrows with hclear | rfl
    · unfold Database.clearPendingDeploymentAction at hclear
      split at hclear
      · cases hclear
      · cases hclear
        exact h.modify id (fun _ => rfl)
    · exact h
  | _ => exact h.same hrows

theorem Activation.rows_step {w : World} (cfg : ServiceConfig) (h : w.Both a.Rows) (e : Event)
    (he : a.Admits e) : (step cfg w e).Both a.Rows :=
  both_step cfg (fun _ _ hrows hdb => hdb.event he hrows) h

end Rows

/-- The evaluator reads the stream of the activation, and its watermark is later; with `marked`
there is one. -/
structure Activation.Follows (a : Activation) (marked : Prop) (ev : Evaluator S) : Prop where
  timeframe : ev.timeframe = a.key.timeframe
  later : ∀ t ∈ ev.lastEvaluatedClose, a.since < t
  isSome : marked → ev.lastEvaluatedClose.isSome

/-- The invariant of the live worker. -/
structure Activation.Live (a : Activation) (marked : Prop) (w : Worker S) : Prop where
  alive : w.alive = true
  rows : w.world.Both a.Rows
  runtimes : ∀ r ∈ w.runtimes, r.deploymentId = a.deploymentId → a.Follows marked r.evaluator

def Activation.Left (a : Activation) (w : Worker S) : Prop := w.world.Both a.Rows

section Live

variable {a : Activation} {marked : Prop} {w : Worker S}

theorem Activation.Live.after (h : a.Live marked w) {e : Event} (he : a.Admits e) :
    a.Live marked (w.after cfg e) :=
  ⟨h.alive, a.rows_step cfg.service h.rows e he, h.runtimes⟩

theorem Activation.Left.after (h : a.Left w) {e : Event} (he : a.Admits e) :
    a.Left (w.after cfg e) :=
  a.rows_step cfg.service h e he

theorem Activation.Live.updateRuntime (h : a.Live marked w) {id : ℕ} {f : Runtime S → Runtime S}
    (hid : ∀ r, (f r).deploymentId = r.deploymentId)
    (hf : ∀ r ∈ w.runtimes, r.deploymentId = id → id = a.deploymentId →
      a.Follows marked (f r).evaluator) : a.Live marked (w.updateRuntime id f) := by
  refine ⟨h.alive, h.rows, fun r hr hown => ?_⟩
  rcases mem_modify.mp hr with ⟨r₀, hr₀, hkey, rfl⟩ | ⟨hr, -⟩
  · rw [hid] at hown
    exact hf r₀ hr₀ hkey (hkey.symm.trans hown)
  · exact h.runtimes r hr hown

theorem Activation.Live.refreshed (h : a.Live marked w) (id : ℕ) (deployment : ExecutionDeployment) :
    a.Live marked (w.updateRuntime id (fun r => { r with deployment })) :=
  h.updateRuntime (fun _ => rfl) (fun r hr hkey hown => h.runtimes r hr (hkey.trans hown))

theorem Activation.Live.opened (h : a.Live False w) {coordinator : BarCoordinator}
    {deployment : ExecutionDeployment} {token : String} {r : Runtime S}
    (hbuild : buildRuntime cfg coordinator w.working deployment token = .ok r)
    (hrow : deployment ∈ w.working.deployments) :
    a.Live False { w with runtimes := w.runtimes ++ [r] } := by
  refine ⟨h.alive, h.rows, fun x hx hown => ?_⟩
  rcases List.mem_append.mp hx with hx | hx
  · exact h.runtimes x hx hown
  · rw [List.mem_singleton.mp hx] at hown ⊢
    have hbuilt := buildRuntime_spec hbuild
    obtain ⟨hkey, hwatermark⟩ :=
      h.rows.working.deployments deployment hrow (hbuilt.deploymentId.symm.trans hown)
    refine ⟨hbuilt.timeframe.trans (congrArg BarStreamKey.timeframe hkey), ?_, False.elim⟩
    rw [buildRuntime_watermark hbuild]
    exact hwatermark

theorem Activation.Live.closed (h : a.Live marked w) (id : ℕ) :
    a.Live marked { w with runtimes := w.runtimes.filter (fun x => x.deploymentId ≠ id) } :=
  ⟨h.alive, h.rows, fun r hr => h.runtimes r (List.mem_filter.mp hr).1⟩

/-- A service call for another deployment or a later bar. -/
theorem serviceCall_live {call : BarCall} {env : BarEnvironment}
    (hcall : call.deploymentId = a.deploymentId → a.since < call.result.barCloseTime) :
    Triple (a.Live marked) (serviceCall cfg call env) (fun _ => a.Live marked)
      (Fails (a.Live marked) a.Left) := by
  refine serviceCall_triple (fun w hw => ?_)
  have hafter : a.Live marked (w.after cfg (.processBar call env)) := hw.after hcall
  split
  · exact hafter
  next f _ =>
    cases f with
    | raised e => exact hafter
    | killed => exact hafter.rows

theorem processResults_live {env : PollEnvironment} {r : Runtime S}
    {results : List ForwardDecisionResult}
    (h : ∀ result ∈ results, r.deploymentId = a.deploymentId → a.since < result.barCloseTime) :
    Triple (a.Live marked) (processResults cfg env r results) (fun _ => a.Live marked)
      (Fails (a.Live marked) a.Left) := by
  induction results with
  | nil => exact Triple.pure (fun _ hw => hw)
  | cons result rest ih =>
    refine Triple.bind (Q := fun _ => a.Live marked) (Triple.onFailure ?_)
      (fun _ => ih (fun x hx => h x (List.mem_cons_of_mem result hx)))
    refine (serviceCall_live (fun hown => h result (by simp) hown)).conseq (fun _ hw => hw)
      (fun _ _ hw => hw) (fun f w hw => ?_)
    cases f with
    | raised e => exact ⟨hw.alive, hw.rows, hw.runtimes⟩
    | killed => exact hw

theorem Activation.Follows.ingest (strategy : TradingStrategy S) {ev : Evaluator S}
    (h : a.Follows marked ev) {bars : List Bar}
    (hbars : ∀ duration, barDuration a.key.timeframe = .ok duration →
      ∀ b ∈ bars, a.since < b.closeTime duration) :
    a.Follows marked (ev.ingestCompletedBars strategy bars).1 ∧
    ∀ results, (ev.ingestCompletedBars strategy bars).2 = .ok results →
      ∀ result ∈ results, a.since < result.barCloseTime := by
  have hidentity := ev.ingestCompletedBars_identity strategy bars none
  simp only [Evaluator.identity, Prod.mk.injEq] at hidentity
  have htimeframe := hidentity.2.1.trans h.timeframe
  have hsome := fun hmarked => Evaluator.isSome_ingestCompletedBars strategy (h.isSome hmarked) bars none
  cases hduration : barDuration ev.timeframe with
  | error e =>
    by_cases hempty : bars = []
    · subst hempty
      refine ⟨h, fun results hresults => ?_⟩
      cases hresults
      simp
    · refine ⟨⟨htimeframe, ?_, hsome⟩, fun results hresults => ?_⟩
      · simpa [Evaluator.ingestCompletedBars, hempty, hduration] using h.later
      · simp [Evaluator.ingestCompletedBars, hempty, hduration] at hresults
  | ok duration =>
    have hlater := hbars duration (h.timeframe ▸ hduration)
    refine ⟨⟨htimeframe, fun t ht => ?_, hsome⟩, fun results hresults result hresult => ?_⟩
    · rcases Evaluator.ingestCompletedBars_watermark hduration t ht with hold | ⟨b, hb, rfl⟩
      · exact h.later t hold
      · exact hlater b hb
    · obtain ⟨b, hb, heq⟩ := Evaluator.ingestCompletedBars_closes hduration hresults result hresult
      rw [heq]
      exact hlater b hb

theorem ingestBatch_live {env : PollEnvironment} {r : Runtime S} {bars : List Bar}
    (hfollows : r.deploymentId = a.deploymentId → a.Follows marked r.evaluator)
    (hbars : r.deploymentId = a.deploymentId → ∀ duration,
      barDuration a.key.timeframe = .ok duration → ∀ b ∈ bars, a.since < b.closeTime duration) :
    Triple (a.Live marked) (ingestBatch cfg env r bars) (fun _ => a.Live marked)
      (Fails (a.Live marked) a.Left) := by
  have hingest := fun hown => (hfollows hown).ingest (cfg.strategy r.deploymentId) (hbars hown)
  unfold ingestBatch
  cases hres : r.evaluator.ingestCompletedBars (cfg.strategy r.deploymentId) bars with
  | mk ev' results =>
    rw [hres] at hingest
    refine Triple.bind (Q := fun _ => a.Live marked) (Triple.modify (fun w hw => ?_)) (fun _ => ?_)
    · have hnoted : a.Live marked (w.noteEvaluation r bars) := ⟨hw.alive, hw.rows, hw.runtimes⟩
      exact hnoted.updateRuntime (fun _ => rfl) (fun _ _ _ hown => (hingest hown).1)
    · cases results with
      | error e =>
        refine Triple.bind (Q := fun _ => a.Live marked)
          (Triple.modify (fun w hw => ⟨hw.alive, hw.rows, hw.runtimes⟩))
          (fun _ => Triple.throw (fun _ hw => hw))
      | ok results =>
        exact processResults_live (fun result hresult hown => (hingest hown).2 results rfl result hresult)

/-! ## Polls and runs -/

/-- The batches hold only bars after the activation. -/
def Activation.Later (a : Activation) (batches : List CompletedBarBatch) : Prop :=
  ∀ batch ∈ batches, batch.key = a.key → ∀ duration, barDuration a.key.timeframe = .ok duration →
    ∀ b ∈ batch.frame, a.since < b.closeTime duration

/-- The poll finds the deployment with a watermark, or is handed later bars only; a flatten, whose
decision carries the time of the clock, comes after the activation. -/
structure Activation.Clear (a : Activation) (cfg : WorkerConfig S) (env : PollEnvironment)
    (w : Worker S) : Prop where
  flatten : a.since < (env.flatten a.deploymentId).now
  batches : ∀ s batches, preparePoll cfg env w = (.ok (), s) →
    (∃ r ∈ s.runtimes, r.deploymentId = a.deploymentId ∧ r.evaluator.lastEvaluatedClose = none) →
    env.coordinator.poll cfg.initialWindowBars s.consumers = .ok batches → a.Later batches

def Activation.ClearStep (a : Activation) (cfg : WorkerConfig S) (w : Worker S) : WorkerEvent → Prop
  | .poll env => a.Clear cfg env w
  | _ => True

theorem mem_frame_of_newBars {batch : CompletedBarBatch} {watermark : Option Time} {bars : List Bar}
    (h : newBarsForConsumer batch watermark = .ok bars) : ∀ b ∈ bars, b ∈ batch.frame := by
  unfold newBarsForConsumer at h
  split at h
  · cases h
    simp
  · simp only [bind_eq_ok, pure_eq_ok] at h
    obtain ⟨duration, -, rfl⟩ := h
    exact fun b hb => (List.mem_filter.mp hb).1

theorem admits_pollEvent {env : PollEnvironment} {e : Event} (he : PollEvent env e) : a.Admits e := by
  cases he <;> trivial

theorem keptPreparation_live (env : PollEnvironment) :
    KeptPreparation cfg env (a.Live False) a.Left where
  dead _ hw := hw.rows
  event _ _ he hw := hw.after (admits_pollEvent he)
  refreshed _ id deployment hw := hw.refreshed id deployment
  opened _ _ _ hr _ hrow hw := hw.opened hr hrow
  closed _ id _ hw := hw.closed id

/-- The rest of a poll, when its batches are later or every runtime of the deployment is marked. -/
theorem keptBatches_live {env : PollEnvironment} {batches : List CompletedBarBatch}
    (hflatten : a.since < (env.flatten a.deploymentId).now) (h : a.Later batches ∨ marked) :
    KeptBatches cfg env batches (a.Live marked) a.Left where
  dead w hw := hw.rows
  commit w hw := hw.after trivial
  refreshed w id deployment _ hw := hw.refreshed id deployment
  flattened id := by
    refine flattenPending_triple (fun w deployment hw => hw.refreshed id deployment) (fun token => ?_)
      (fun w hw => hw.after trivial)
    refine serviceCall_live (fun hown => ?_)
    have hid : id = a.deploymentId := hown
    subst hid
    exact hflatten
  ingested r deployment batch bars hbatch hkey hnew := by
    intro w hw
    have hrow : deployment ∈ w.working.deployments := mem_of_lookup hw.2.row
    have hid : deployment.id = r.deploymentId := key_of_lookup hw.2.row
    have hmem := mem_of_lookup hw.2.runtime
    have hfollows : r.deploymentId = a.deploymentId → a.Follows marked r.evaluator :=
      fun hown => by simpa using hw.1.runtimes _ hmem hown
    refine ingestBatch_live hfollows (fun hown duration hduration b hb => ?_) w hw.1
    have hstream : batch.key = a.key :=
      hkey.trans (hw.1.rows.working.deployments deployment hrow (hid.trans hown)).1
    rcases h with hlater | hmarked
    · exact hlater batch hbatch hstream duration hduration b (mem_frame_of_newBars hnew b hb)
    · obtain ⟨t, ht⟩ := Option.isSome_iff_exists.mp ((hfollows hown).isSome hmarked)
      have hafter := newBarsForConsumer_after (by rw [hstream]; exact hduration) hnew b hb t ht
      exact ((hfollows hown).later t ht).trans hafter

theorem Activation.Live.poll (h : a.Live False w) {env : PollEnvironment} (hclear : a.Clear cfg env w) :
    a.Live False (w.poll cfg env) ∨ ∃ w', a.Left w' ∧ w.poll cfg env = w'.die cfg := by
  refine (keptPreparation_live env).poll h (fun s batches hs hprepared hpoll => ?_)
  by_cases hnone : ∃ r ∈ s.runtimes, r.deploymentId = a.deploymentId ∧
      r.evaluator.lastEvaluatedClose = none
  · exact ⟨a.Live False, hs,
      keptBatches_live hclear.flatten (.inl (hclear.batches s batches hprepared hnone hpoll)),
      fun _ ht => ht⟩
  · refine ⟨a.Live True, ⟨hs.alive, hs.rows, fun r hr hown => ?_⟩,
      keptBatches_live hclear.flatten (.inr trivial),
      fun t ht => ⟨ht.alive, ht.rows, fun r hr hown => ?_⟩⟩
    · have hfollows := hs.runtimes r hr hown
      refine ⟨hfollows.timeframe, hfollows.later, fun _ => ?_⟩
      by_contra hempty
      exact hnone ⟨r, hr, hown, Option.not_isSome_iff_eq_none.mp hempty⟩
    · have hfollows := ht.runtimes r hr hown
      exact ⟨hfollows.timeframe, hfollows.later, False.elim⟩

theorem keptRuns_live :
    KeptRuns cfg (fun e => ∀ env, e ≠ .poll env) (a.Live False) (a.Left (S := S)) where
  alive w hw := hw.alive
  poll env henv := absurd rfl (henv env)
  start quotes broker now w _ hw := by
    have hrecovered : (w.recovered cfg quotes now).Both a.Rows :=
      a.rows_step cfg.service (a.rows_step cfg.service hw .restart trivial) (.startup quotes now) trivial
    refine ⟨a.rows_step cfg.service hrecovered .restart trivial, fun _ => ⟨rfl, ?_, by simp⟩⟩
    exact a.rows_step cfg.service (a.rows_step cfg.service hrecovered (.reconcile none broker now) trivial) .commit trivial
  operate w command hw := hw.after trivial
  operateDead w command hw := hw.after trivial
  release w id token hw := (hw.closed id).after trivial
  commit w hw := hw.after trivial
  dead w hw := hw.rows
  die w hw := Activation.Left.after (e := .restart) hw trivial

theorem clear_run {events : List WorkerEvent}
    (hrun : Admissible (Worker.step cfg) (a.ClearStep cfg) w events)
    (hw : Holds (a.Live False) a.Left w) :
    Holds (a.Live False) a.Left (run (Worker.step cfg) w events) := by
  refine invariant_of_admissible _ hrun hw (fun w e he hw => ?_)
  cases e with
  | poll env =>
    rcases hw with ⟨halive, hlive⟩ | ⟨halive, hleft⟩
    · simp only [Worker.step, halive, if_true]
      rcases hlive.poll he with hlive' | ⟨w', hleft', heq⟩
      · exact .inl ⟨hlive'.alive, hlive'⟩
      · rw [heq]
        exact .inr ⟨rfl, hleft'.after (e := .restart) trivial⟩
    · simpa [Worker.step, halive] using .inr ⟨halive, hleft⟩
  | start quotes broker now => exact keptRuns_live.step (by simp) hw
  | operate command => exact keptRuns_live.step (by simp) hw
  | shutdown => exact keptRuns_live.step (by simp) hw
  | die => exact keptRuns_live.step (by simp) hw

end Live

/-- The activation of a deployment by a poll. -/
def activationOf (env : PollEnvironment) (deployment : ExecutionDeployment) : Activation where
  deploymentId := deployment.id
  key := ⟨deployment.symbol, deployment.timeframe.toUpper⟩
  since := (env.buildCoordinator deployment.id).now

/-- Seeded history does not trade, in every run from the first activation of a deployment on in
which the coordinator hands out only later bars while the deployment has no watermark: no bar of
the seeding frame has a decision or an order, and whatever the deployment decides is later than its
activation. -/
theorem seeded_history_never_trades {S : Type} (cfg : WorkerConfig S) (w : Worker S)
    (hw : w.world.Fresh) (hids : (w.working.deployments.map ExecutionDeployment.id).Nodup)
    (hoff : w.alive = false) (before : List WorkerEvent) (deployment : ExecutionDeployment)
    (hrow : deployment ∈ (run (Worker.step cfg) w before).working.deployments)
    (hfirst : deployment.lastBarCloseTime = none)
    (hdecisions : ∀ t, (deployment.id, t) ∉ (run (Worker.step cfg) w before).working.decisionKeys)
    (horders : ∀ t, (deployment.id, t) ∉ (run (Worker.step cfg) w before).working.orderKeys)
    (hnew : (run (Worker.step cfg) w before).runtime deployment.id = none)
    (env : PollEnvironment) (after : List WorkerEvent)
    (hclear : Admissible (Worker.step cfg) ((activationOf env deployment).ClearStep cfg)
      (run (Worker.step cfg) w before) (.poll env :: after)) :
    let final := (run (Worker.step cfg) w (before ++ .poll env :: after)).world.session.committed
    (∀ frame, seedingFrame cfg (env.buildCoordinator deployment.id) deployment = .ok frame →
      ∀ duration, barDuration deployment.timeframe.toUpper = .ok duration → ∀ b ∈ frame,
        (deployment.id, b.closeTime duration) ∉ final.decisionKeys ∧
        (deployment.id, b.closeTime duration) ∉ final.orderKeys) ∧
    ∀ t, (deployment.id, t) ∈ final.decisionKeys ∨ (deployment.id, t) ∈ final.orderKeys →
      (env.buildCoordinator deployment.id).now < t := by
  intro final
  have hclean : (run (Worker.step cfg) w before).Clean :=
    invariant Worker.Clean hw.clean (fun _ e hs => hs.step e) before
  have hnodup : ((run (Worker.step cfg) w before).working.deployments.map
      ExecutionDeployment.id).Nodup := by
    refine (rows_run (P := fun db => (db.deployments.map ExecutionDeployment.id).Nodup)
      (fun e db db' hrows hdb => hrows.map_id ▸ hdb) hoff ⟨?_, hids⟩ before).working
    rw [← hw.clean]
    exact hids
  have hrows : (activationOf env deployment).Rows (run (Worker.step cfg) w before).working := by
    refine ⟨fun t ht => absurd ht (hdecisions t), fun t ht => absurd ht (horders t), fun d hd hid => ?_⟩
    have hsame : d = deployment := eq_of_mem_of_key hnodup hd hrow hid
    subst hsame
    simp [activationOf, hfirst]
  have hboth : (run (Worker.step cfg) w before).world.Both (activationOf env deployment).Rows :=
    ⟨by rw [← show _ = _ from hclean]; exact hrows, hrows⟩
  have hstart : Holds ((activationOf env deployment).Live False) (activationOf env deployment).Left
      (run (Worker.step cfg) w before) := by
    cases halive : (run (Worker.step cfg) w before).alive with
    | false => exact .inr ⟨halive, hboth⟩
    | true =>
      refine .inl ⟨halive, halive, hboth, fun r hr hown => ?_⟩
      exact absurd hown (lookup_eq_none.mp hnew r hr)
  have hfinal : (activationOf env deployment).Rows final := by
    have hholds := clear_run hclear hstart
    rw [← run_append] at hholds
    rcases hholds with ⟨-, hlive⟩ | ⟨-, hleft⟩
    · exact hlive.rows.committed
    · exact hleft.committed
  have hlater : ∀ t, (deployment.id, t) ∈ final.decisionKeys ∨ (deployment.id, t) ∈ final.orderKeys →
      (env.buildCoordinator deployment.id).now < t := by
    rintro t (ht | ht)
    · exact hfinal.decisions t ht
    · exact hfinal.orders t ht
  refine ⟨fun frame hframe duration hduration b hb => ?_, hlater⟩
  have hcomplete := closeTime_le_of_mem_seedingFrame hduration hframe b hb
  exact ⟨fun ht => absurd (hlater _ (.inl ht)) hcomplete.not_gt,
    fun ht => absurd (hlater _ (.inr ht)) hcomplete.not_gt⟩

/-! ## The first poll of a deployment -/

/-- The deployment of the desk. -/
def deskDeployment : ExecutionDeployment :=
  { id := 7, paperAccountId := 1, lifecycle := .running, symbol := "WIN", timeframe := "M1" }

/-- A poll on the paper broker that builds its runtimes at the `m`-th minute and asks for bars at
the `n`-th. -/
def seedingPoll (m n : ℕ) : PollEnvironment :=
  { deskPoll n (paperBroker (deskQuotes (n * 60000000)) (n * 60000000)) noCrash with
    coordinator := deskCoordinator n n
    buildCoordinator := fun _ => deskCoordinator m m }

/-- The first poll decides, and orders on, both bars that it has just seeded. -/
theorem first_poll_trades_seeded_bars :
    ∃ frame, seedingFrame deskConfig
        ((seedingPoll 2 2).buildCoordinator deskDeployment.id) deskDeployment = .ok frame ∧
      frame.length = 2 ∧ ∀ b ∈ frame,
        (deskDeployment.id, b.closeTime 60000000) ∈ (run (Worker.step deskConfig) deskWorker
          [deskStart 2, .poll (seedingPoll 2 2)]).world.session.committed.decisionKeys ∧
        (deskDeployment.id, b.closeTime 60000000) ∈ (run (Worker.step deskConfig) deskWorker
          [deskStart 2, .poll (seedingPoll 2 2)]).world.session.committed.orderKeys := by
  obtain ⟨frame, hframe⟩ := exists_ok_of_isSome (x := seedingFrame deskConfig
    ((seedingPoll 2 2).buildCoordinator deskDeployment.id) deskDeployment)
    (by decide +kernel)
  have hbars : frame = deskBars 2 := by
    have hoption : (seedingFrame deskConfig ((seedingPoll 2 2).buildCoordinator
        deskDeployment.id) deskDeployment).toOption = some (deskBars 2) := by decide +kernel
    rw [hframe] at hoption
    exact Option.some.inj hoption
  subst hbars
  exact ⟨deskBars 2, hframe, rfl, by decide +kernel⟩

/-- A desk whose initial window is two bars. -/
def shortWindowConfig : WorkerConfig Unit := { deskConfig with initialWindowBars := 2 }

/-- A build that takes three minutes: by then the window has moved past the two seeded bars, and the
deployment decides the fourth and the fifth. -/
theorem seeded_history_never_trades_slow_build :
    (run (Worker.step shortWindowConfig) deskWorker [deskStart 2, .poll (seedingPoll 2 5)]
      ).world.session.committed.decisionKeys = [(7, 240000000), (7, 300000000)] ∧
    ∀ frame, seedingFrame shortWindowConfig ((seedingPoll 2 5).buildCoordinator deskDeployment.id)
        deskDeployment = .ok frame →
      ∀ duration, barDuration deskDeployment.timeframe.toUpper = .ok duration → ∀ b ∈ frame,
        (deskDeployment.id, b.closeTime duration) ∉ (run (Worker.step shortWindowConfig) deskWorker
          [deskStart 2, .poll (seedingPoll 2 5)]).world.session.committed.decisionKeys := by
  refine ⟨by decide +kernel, fun frame hframe duration hduration b hb => ?_⟩
  have hbatches : ((seedingPoll 2 5).coordinator.poll shortWindowConfig.initialWindowBars
      (preparePoll shortWindowConfig (seedingPoll 2 5)
        (run (Worker.step shortWindowConfig) deskWorker [deskStart 2])).2.consumers).toOption =
      some [⟨⟨"WIN", "M1"⟩, (deskBars 5).drop 3⟩] := by decide +kernel
  have hminute : barDuration deskDeployment.timeframe.toUpper = .ok 60000000 := by
    have hminutes : tfMinutes deskDeployment.timeframe.toUpper.toUpper = some 1 := by decide +kernel
    rw [barDuration, hminutes]
    rfl
  have hclear : Admissible (Worker.step shortWindowConfig)
      ((activationOf (seedingPoll 2 5) deskDeployment).ClearStep shortWindowConfig)
      (run (Worker.step shortWindowConfig) deskWorker [deskStart 2]) [.poll (seedingPoll 2 5)] := by
    refine ⟨⟨by decide, fun s batches hprepared _ hpoll batch hbatch _ d hd => ?_⟩, trivial⟩
    rw [hprepared, hpoll] at hbatches
    have hsame : batches = [⟨⟨"WIN", "M1"⟩, (deskBars 5).drop 3⟩] := Option.some.inj hbatches
    have hd' : d = 60000000 := Except.ok.inj (hd.symm.trans hminute)
    rw [hsame] at hbatch
    rw [List.mem_singleton.mp hbatch, hd']
    show ∀ b ∈ (deskBars 5).drop 3, (120000000 : Time) < b.closeTime 60000000
    decide +kernel
  have hstate : (run (Worker.step shortWindowConfig) deskWorker [deskStart 2]).working.decisionKeys = [] ∧
      (run (Worker.step shortWindowConfig) deskWorker [deskStart 2]).working.orderKeys = [] := by
    decide +kernel
  have hnew : ((run (Worker.step shortWindowConfig) deskWorker [deskStart 2]).runtime
      deskDeployment.id).isNone = true := by decide +kernel
  exact ((seeded_history_never_trades shortWindowConfig deskWorker deskWorld_fresh (by decide) rfl
    [deskStart 2] deskDeployment (by decide +kernel) rfl (by rw [hstate.1]; simp) (by rw [hstate.2]; simp)
    (Option.isNone_iff_eq_none.mp hnew) (seedingPoll 2 5) [] hclear).1 frame hframe duration
    hduration b hb).1

end QBackend.Execution
