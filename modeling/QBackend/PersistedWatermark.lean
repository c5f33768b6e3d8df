import QBackend.PendingFlattens

/-!
# The persisted watermark

`last_bar_close_time` of a deployment is written by every service call that concludes. A call for a
market bar moves it to that bar, and while bars come in order it stays at the newest decided one. A
flatten that trades is such a call too, with the time of the clock in the place of a bar, and after
a restart the bars up to that time are passed over.
-/

namespace QBackend.Execution

open FallibleSteps KeyedTables RunInvariants

/-! ## Writes -/

/-- The `last_bar_close_time` of a deployment. -/
def Database.watermark (db : Database) (id : ℕ) : Option Time :=
  (db.getExecutionDeployment id).bind (·.lastBarCloseTime)

theorem Database.watermark_of_deployments {db db' : Database}
    (h : db'.deployments = db.deployments) : db'.watermark = db.watermark := by
  funext id
  rw [watermark, getExecutionDeployment, h]
  rfl

section Rows

variable {db db' : Database} {id : ℕ} {f : ExecutionDeployment → ExecutionDeployment}

theorem Database.watermark_modify
    (h : db'.deployments = modify ExecutionDeployment.id db.deployments id f)
    (hid : ∀ d, (f d).id = d.id) (hf : ∀ d, (f d).lastBarCloseTime = d.lastBarCloseTime) :
    db'.watermark = db.watermark := by
  funext d
  have hmap : (lookup ExecutionDeployment.id (modify ExecutionDeployment.id db.deployments id f)
      d).map ExecutionDeployment.lastBarCloseTime =
        (lookup ExecutionDeployment.id db.deployments d).map ExecutionDeployment.lastBarCloseTime :=
    map_lookup_modify hid hf d
  have hjoin : ∀ o : Option ExecutionDeployment,
      o.bind (·.lastBarCloseTime) = (o.map ExecutionDeployment.lastBarCloseTime).join := by
    intro o
    cases o <;> rfl
  rw [watermark, watermark, hjoin, hjoin, getExecutionDeployment, getExecutionDeployment, h, hmap]

theorem Database.watermark_event {e : Event} (he : ∀ call env, e ≠ .processBar call env)
    (h : EventRows db db' e) : db'.watermark = db.watermark := by
  cases e with
  | processBar call env => exact absurd rfl (he call env)
  | operate command =>
    rcases h with hcommand | rfl
    · cases command with
      | transition d target =>
        simp only [OperatorCommand.apply, Database.transitionDeploymentLifecycle] at hcommand
        split at hcommand
        · cases hcommand
        · simp only [bind_eq_ok, pure_eq_ok] at hcommand
          obtain ⟨-, -, rfl⟩ := hcommand
          exact watermark_modify rfl (fun _ => rfl) (fun _ => rfl)
      | requestFlatten d =>
        simp only [OperatorCommand.apply, Database.setPendingFlatten] at hcommand
        split at hcommand
        · cases hcommand
        · cases hcommand
          exact watermark_modify rfl (fun _ => rfl) (fun _ => rfl)
      | setKillSwitch enabled =>
        cases hcommand
        rfl
    · rfl
  | clearPending d =>
    rcases h with hclear | rfl
    · simp only [Database.clearPendingDeploymentAction] at hclear
      split at hclear
      · cases hclear
      · cases hclear
        exact watermark_modify rfl (fun _ => rfl) (fun _ => rfl)
    · rfl
  | _ => exact watermark_of_deployments (SameRows.deployments h)

theorem CallRows.watermark {call : BarCall} (h : CallRows call db db') :
    db'.watermark = db.watermark ∨ (call.barKey ∈ db'.decisionKeys ∧
      db'.watermark = Function.update db.watermark call.deploymentId
        (some call.result.barCloseTime)) := by
  rcases h.decided with hsame | hkey
  · exact .inl (Database.watermark_of_deployments hsame)
  · rcases h.deployments with hsame | hmoved
    · exact .inl (Database.watermark_of_deployments hsame)
    · cases hrow : db.getExecutionDeployment call.deploymentId with
      | none =>
        left
        funext d
        rw [Database.watermark, Database.watermark, Database.getExecutionDeployment, hmoved]
        by_cases hd : d = call.deploymentId
        · subst hd
          rw [lookup_modify_self (fun _ => by rfl), ← Database.getExecutionDeployment, hrow]
          rfl
        · rw [lookup_modify_of_ne (fun _ => by rfl) hd, Database.getExecutionDeployment]
      | some deployment =>
        right
        refine ⟨hkey, ?_⟩
        funext d
        rw [Database.watermark, Database.getExecutionDeployment, hmoved]
        by_cases hd : d = call.deploymentId
        · subst hd
          rw [lookup_modify_self (fun _ => by rfl), ← Database.getExecutionDeployment, hrow,
            Function.update_self]
          rfl
        · rw [lookup_modify_of_ne (fun _ => by rfl) hd, Function.update_of_ne hd]
          rfl

end Rows

/-! ## Calls that write nothing -/

section Calls

variable {cfg : ServiceConfig} {w : World} {call : BarCall} {env : BarEnvironment}

/-- The session after a call that moves no watermark. -/
def World.Settled (w w' : World) : Prop :=
  w' = w ∨ ∃ db, w'.session = ⟨db, db⟩ ∧
    (db = w.session.committed ∨ db.deployments = w.session.working.deployments)

/-- A bar that was decided before is not decided again. -/
theorem processCompletedBar_decided (hkey : call.barKey ∈ w.session.working.decisionKeys) :
    w.Settled (processCompletedBar cfg w call env).1 := by
  unfold processCompletedBar
  dsimp only
  split
  · exact .inr ⟨_, rfl, .inl rfl⟩
  next deployment hdeployment =>
    have hid : deployment.id = call.deploymentId := key_of_lookup hdeployment
    split
    · exact .inl rfl
    · split
      · exact .inl rfl
      next hnone =>
        rw [hid] at hnone
        exact absurd hkey (getDecisionForBar_eq_none.mp hnone)

theorem prepareOrder_flat {db : Database} {deployment : ExecutionDeployment}
    {decisionId orderId : ℕ} {p : Preparation} (hflatten : call.flatten = true)
    (hflat : (db.holding deployment.id).IsFlat)
    (h : prepareOrder cfg db deployment call env decisionId orderId = .ok p) :
    ∃ db' outcome rejection, p = .concluded db' outcome rejection ∧
      db'.deployments = db.deployments := by
  simp only [prepareOrder, bind_eq_ok] at h
  obtain ⟨db₁, h₁, h⟩ := h
  obtain ⟨-, -, rfl⟩ := frame_createExecutionDecision h₁
  have hmap : mapSignalToOrder .close (db.holding deployment.id).side
      (db.holding deployment.id).quantity none = none := isFlat_iff_mapSignalToOrder.mp hflat
  simp only [hflatten, not_true_eq_false, and_false, if_false, if_true] at h
  split at h
  · simp only [bind_eq_ok, pure_eq_ok] at h
    obtain ⟨db₂, h₂, rfl⟩ := h
    exact ⟨db₂, _, _, rfl, (sameRows_updateExecutionDecisionOutcome h₂).deployments⟩
  next hsome =>
    have hopen := hmap.symm.trans hsome
    cases hopen

theorem processCompletedBar_flat (hflatten : call.flatten = true)
    (hflat : (w.session.working.holding call.deploymentId).IsFlat) :
    w.Settled (processCompletedBar cfg w call env).1 := by
  unfold processCompletedBar
  dsimp only
  split
  · exact .inr ⟨_, rfl, .inl rfl⟩
  next deployment hdeployment =>
    have hid : deployment.id = call.deploymentId := key_of_lookup hdeployment
    rw [← hid] at hflat
    split
    · exact .inl rfl
    · split
      · exact .inl rfl
      · split
        · exact .inr ⟨_, rfl, .inl rfl⟩
        next db outcome rejection hprepare =>
          obtain ⟨db', _, _, hp, hdeployments⟩ := prepareOrder_flat hflatten hflat hprepare
          cases hp
          exact .inr ⟨_, rfl, .inr hdeployments⟩
        next db order hprepare =>
          obtain ⟨_, _, _, hp, -⟩ := prepareOrder_flat hflatten hflat hprepare
          cases hp

end Calls

/-! ## Runs -/

/-- A world with the market bars, by deployment and close, on which a call made a decision. -/
structure Journal where
  world : World
  market : List (ℕ × Time) := []

namespace Journal

def step (cfg : ServiceConfig) (j : Journal) (e : Event) : Journal where
  world := Execution.step cfg j.world e
  market :=
    match e with
    | .processBar call _ =>
      if call.flatten = false ∧ call.barKey ∉ j.world.session.working.decisionKeys ∧
          call.barKey ∈ (Execution.step cfg j.world e).session.committed.decisionKeys then
        j.market ++ [call.barKey]
      else j.market
    | _ => j.market

/-- A market bar is not older than the decided ones of its deployment, or was decided before. -/
def BarsInOrder (j : Journal) : Event → Prop
  | .processBar call _ => call.flatten = true ∨
    call.barKey ∈ j.world.session.working.decisionKeys ∨
    ∀ k ∈ j.market, k.1 = call.deploymentId → k.2 ≤ call.result.barCloseTime
  | _ => True

/-- A flatten meets a flat position or a time that is decided already, or its time is between the
watermark and the newest decided market bar. -/
def FlattensInside (j : Journal) : Event → Prop
  | .processBar call _ => call.flatten = false ∨
    call.barKey ∈ j.world.session.working.decisionKeys ∨
    (j.world.session.working.holding call.deploymentId).IsFlat ∨
    ((∀ t, j.world.session.working.watermark call.deploymentId = some t →
        t ≤ call.result.barCloseTime) ∧
      ∃ k ∈ j.market, k.1 = call.deploymentId ∧ call.result.barCloseTime ≤ k.2)
  | _ => True

/-- The watermarks of the session, each covered by a decided market bar. -/
structure Exact (j : Journal) (watermark : ℕ → Option Time) : Prop where
  both : j.world.Both (fun db => db.watermark = watermark)
  covered : ∀ d t, watermark d = some t → ∃ k ∈ j.market, k.1 = d ∧ t ≤ k.2

end Journal

/-- No watermark is lost or moved back. -/
def WatermarksAdvance (before after : ℕ → Option Time) : Prop :=
  ∀ d t, before d = some t → ∃ t', after d = some t' ∧ t ≤ t'

theorem WatermarksAdvance.refl (f : ℕ → Option Time) : WatermarksAdvance f f :=
  fun _ t h => ⟨t, h, le_rfl⟩

theorem WatermarksAdvance.trans {f g h : ℕ → Option Time} (hfg : WatermarksAdvance f g)
    (hgh : WatermarksAdvance g h) : WatermarksAdvance f h := by
  intro d t ht
  obtain ⟨t', ht', hle⟩ := hfg d t ht
  obtain ⟨t'', ht'', hle'⟩ := hgh d t' ht'
  exact ⟨t'', ht'', hle.trans hle'⟩

theorem WatermarksAdvance.update {f : ℕ → Option Time} {d : ℕ} {t : Time}
    (h : ∀ t', f d = some t' → t' ≤ t) : WatermarksAdvance f (Function.update f d (some t)) := by
  intro d' t' ht'
  by_cases hd : d' = d
  · subst hd
    exact ⟨t, Function.update_self .., h t' ht'⟩
  · exact ⟨t', (Function.update_of_ne hd ..).trans ht', le_rfl⟩

section Steps

variable {cfg : ServiceConfig} {j : Journal} {watermark : ℕ → Option Time} {e : Event}

theorem Journal.market_subset (cfg : ServiceConfig) (j : Journal) (e : Event) :
    j.market ⊆ (j.step cfg e).market := by
  unfold step
  cases e with
  | processBar call env =>
    dsimp only
    split
    · exact List.subset_append_left _ _
    · exact List.Subset.refl _
  | _ => exact List.Subset.refl _

theorem Journal.Exact.stay (h : j.Exact watermark)
    (hboth : (Execution.step cfg j.world e).Both (fun db => db.watermark = watermark)) :
    (j.step cfg e).Exact watermark := by
  refine ⟨hboth, fun d t ht => ?_⟩
  obtain ⟨k, hk, hkey⟩ := h.covered d t ht
  exact ⟨k, j.market_subset cfg e hk, hkey⟩

theorem World.Settled.both {w w' : World} (hs : w.Settled w')
    (h : w.Both (fun db => db.watermark = watermark)) :
    w'.Both (fun db => db.watermark = watermark) := by
  rcases hs with rfl | ⟨db, hw, rfl | hdeployments⟩
  · exact h
  · exact .of_eq hw h.committed
  · exact .of_eq hw ((Database.watermark_of_deployments hdeployments).trans h.working)

theorem Journal.Exact.step (h : j.Exact watermark) (horder : j.BarsInOrder e)
    (hflatten : j.FlattensInside e) :
    ∃ watermark', (j.step cfg e).Exact watermark' ∧ WatermarksAdvance watermark watermark' := by
  have hstay : (Execution.step cfg j.world e).Both (fun db => db.watermark = watermark) →
      ∃ watermark', (j.step cfg e).Exact watermark' ∧ WatermarksAdvance watermark watermark' :=
    fun hboth => ⟨watermark, h.stay hboth, .refl _⟩
  by_cases hcall : ∃ call env, e = .processBar call env
  · obtain ⟨call, env, rfl⟩ := hcall
    by_cases hdecided : call.barKey ∈ j.world.session.working.decisionKeys
    · exact hstay ((processCompletedBar_decided hdecided).both h.both)
    · rcases wrote_processCompletedBar cfg j.world call env with heq | ⟨db, hw, hrows⟩
      · refine hstay ?_
        show (processCompletedBar cfg j.world call env).1.Both _
        rw [heq]
        exact h.both
      · -- Both databases had the same watermarks before the call.
        have hmoved : db.watermark = watermark ∨ (call.barKey ∈ db.decisionKeys ∧
            db.watermark = Function.update watermark call.deploymentId
              (some call.result.barCloseTime)) := by
          rcases hrows with hrows | hrows
          · rw [← h.both.committed]
            exact hrows.watermark
          · rw [← h.both.working]
            exact hrows.watermark
        rcases hmoved with hsame | ⟨hkey, hupdate⟩
        · exact hstay (.of_eq hw hsame)
        · have hboth : (Execution.step cfg j.world (.processBar call env)).Both
              (fun db => db.watermark = Function.update watermark call.deploymentId
                (some call.result.barCloseTime)) := .of_eq hw hupdate
          have hcommitted : call.barKey ∈
              (processCompletedBar cfg j.world call env).1.session.committed.decisionKeys := by
            rw [hw]
            exact hkey
          have hcover : ∀ k ∈ (j.step cfg (.processBar call env)).market,
              k.1 = call.deploymentId → call.result.barCloseTime ≤ k.2 →
              (j.step cfg (.processBar call env)).Exact (Function.update watermark call.deploymentId
                (some call.result.barCloseTime)) := by
            intro k hk hown hle
            refine ⟨hboth, fun d t ht => ?_⟩
            by_cases hd : d = call.deploymentId
            · subst hd
              rw [Function.update_self, Option.some.injEq] at ht
              exact ⟨k, hk, hown, ht ▸ hle⟩
            · rw [Function.update_of_ne hd] at ht
              obtain ⟨k', hk', hkey'⟩ := h.covered d t ht
              exact ⟨k', j.market_subset cfg _ hk', hkey'⟩
          cases hflat : call.flatten with
          | false =>
            have hmarket : (j.step cfg (.processBar call env)).market =
                j.market ++ [call.barKey] := if_pos ⟨hflat, hdecided, hcommitted⟩
            refine ⟨_, hcover call.barKey (by simp [hmarket]) rfl le_rfl, .update fun t ht => ?_⟩
            obtain ⟨k, hk, hown, hle⟩ := h.covered _ t ht
            have hinOrder := (horder.resolve_left (by simp [hflat])).resolve_left hdecided
            exact hle.trans (hinOrder k hk hown)
          | true =>
            rcases (hflatten.resolve_left (by simp [hflat])).resolve_left hdecided with
              hclosed | ⟨hafter, k, hk, hown, hle⟩
            · exact hstay ((processCompletedBar_flat hflat hclosed).both h.both)
            · refine ⟨_, hcover k (j.market_subset cfg _ hk) hown hle, .update fun t ht => ?_⟩
              rw [h.both.working] at hafter
              exact hafter t ht
  · refine hstay (both_step cfg (fun db db' hrows hdb => ?_) h.both)
    refine (Database.watermark_event (fun call env heq => hcall ⟨call, env, heq⟩) hrows).trans hdb

theorem Journal.Exact.run (h : j.Exact watermark) {events : List Event}
    (horder : Admissible (Journal.step cfg) BarsInOrder j events)
    (hflatten : Admissible (Journal.step cfg) FlattensInside j events) :
    ∃ watermark', (run (Journal.step cfg) j events).Exact watermark' ∧
      WatermarksAdvance watermark watermark' := by
  induction events generalizing j watermark with
  | nil => exact ⟨watermark, h, .refl _⟩
  | cons e es ih =>
    obtain ⟨mid, hmid, hadvance⟩ := h.step horder.1 hflatten.1
    obtain ⟨last, hlast, hadvance'⟩ := ih hmid horder.2 hflatten.2
    exact ⟨last, hlast, hadvance.trans hadvance'⟩

end Steps

/-- In a run in which bars come in order and flattens stay inside, no persisted watermark moves
back or past the newest decided market bar, and so a later bar is after it. -/
theorem persisted_watermark_exact (cfg : ServiceConfig) (w : World)
    (hnew : w.Both (fun db => ∀ d, db.watermark d = none)) (events : List Event)
    (horder : Admissible (Journal.step cfg) Journal.BarsInOrder ⟨w, []⟩ events)
    (hflatten : Admissible (Journal.step cfg) Journal.FlattensInside ⟨w, []⟩ events) :
    (∀ n, WatermarksAdvance
      (run (Journal.step cfg) ⟨w, []⟩ (events.take n)).world.session.committed.watermark
      (run (Journal.step cfg) ⟨w, []⟩ events).world.session.committed.watermark) ∧
    (∀ d t, (run (Journal.step cfg) ⟨w, []⟩ events).world.session.committed.watermark d = some t →
      ∃ k ∈ (run (Journal.step cfg) ⟨w, []⟩ events).market, k.1 = d ∧ t ≤ k.2) ∧
    ∀ d close, (∀ k ∈ (run (Journal.step cfg) ⟨w, []⟩ events).market, k.1 = d → k.2 < close) →
      ∀ t, (run (Journal.step cfg) ⟨w, []⟩ events).world.session.committed.watermark d = some t →
        t < close := by
  have hstart : Journal.Exact ⟨w, []⟩ (fun _ => none) :=
    ⟨⟨funext hnew.committed, funext hnew.working⟩, fun d t ht => by cases ht⟩
  obtain ⟨last, hlast, -⟩ := hstart.run horder hflatten
  have hcovered : ∀ d t,
      (run (Journal.step cfg) ⟨w, []⟩ events).world.session.committed.watermark d = some t →
        ∃ k ∈ (run (Journal.step cfg) ⟨w, []⟩ events).market, k.1 = d ∧ t ≤ k.2 := by
    rw [hlast.both.committed]
    exact hlast.covered
  refine ⟨fun n => ?_, hcovered, fun d close hafter t ht => ?_⟩
  · rw [← List.take_append_drop n events, admissible_append] at horder hflatten
    obtain ⟨mid, hmid, -⟩ := hstart.run horder.1 hflatten.1
    obtain ⟨last', hlast', hadvance⟩ := hmid.run horder.2 hflatten.2
    rw [← run_append, List.take_append_drop] at hlast'
    rw [hmid.both.committed, hlast'.both.committed]
    exact hadvance
  · obtain ⟨k, hk, hown, hle⟩ := hcovered d t ht
    exact lt_of_le_of_lt hle (hafter k hk hown)

/-! ## A flatten between two bars -/

/-- A bar with a signal to close the position. -/
def closeCall (barCloseTime : Time) : BarCall :=
  { deploymentId := 7, leaseToken := "token", result := { barCloseTime, signalAction := .close } }

def steadyEnvironment (now : Time) : BarEnvironment := deskEnvironment now (fun _ => none)

/-- A contract is bought on one bar and sold on the next. -/
def roundTrip : List Event :=
  [.acquireLease 7 "token" 600000000 60000000,
    .commit,
    .processBar (buyCall 60000000) (steadyEnvironment 60000000),
    .processBar (closeCall 120000000) (steadyEnvironment 120000000)]

/-- A flatten half a minute later finds nothing to close. -/
def flattenedAfter : List Event :=
  roundTrip ++ [.processBar (flattenCall 7 "token" 150000000) (steadyEnvironment 150000000)]

theorem persisted_watermark_exact_round_trip :
    (run (Journal.step {}) ⟨deskWorld, []⟩ flattenedAfter).world.session.committed.watermark 7 =
      some 120000000 ∧
    ∀ n, WatermarksAdvance
      (run (Journal.step {}) ⟨deskWorld, []⟩
        (flattenedAfter.take n)).world.session.committed.watermark
      (run (Journal.step {}) ⟨deskWorld, []⟩
        flattenedAfter).world.session.committed.watermark := by
  refine ⟨by decide +kernel, (persisted_watermark_exact {} deskWorld ?_ _ ?_ ?_).1⟩
  · have hnone : ∀ d, deskWorld.session.committed.watermark d = none := by
      intro d
      by_cases hd : d = 7
      · subst hd
        rfl
      · have hrow : deskWorld.session.committed.getExecutionDeployment d = none := by
          simp [deskWorld, Database.getExecutionDeployment, lookup, Ne.symm hd]
        rw [Database.watermark, hrow]
        rfl
    exact ⟨hnone, hnone⟩
  · exact ⟨trivial, trivial, .inr (.inr (by decide +kernel)), .inr (.inr (by decide +kernel)),
      .inl rfl, trivial⟩
  · exact ⟨trivial, trivial, .inl rfl, .inl rfl, .inr (.inr (.inl (by decide +kernel))), trivial⟩

/-- The contract is still held when a flatten comes, before the bar of the second minute was
processed. -/
def flattenedBetween : List Event :=
  roundTrip.take 3 ++ [.processBar (flattenCall 7 "token" 150000000) (steadyEnvironment 150000000)]

/-- The watermark is the time of the flatten, and the newest decided market bar closed a minute and
a half before it. -/
theorem flatten_passes_bar :
    Admissible (Journal.step {}) Journal.BarsInOrder ⟨deskWorld, []⟩ flattenedBetween ∧
    ¬ ∀ d t, (run (Journal.step {}) ⟨deskWorld, []⟩
        flattenedBetween).world.session.committed.watermark d = some t →
      ∃ k ∈ (run (Journal.step {}) ⟨deskWorld, []⟩ flattenedBetween).market, k.1 = d ∧ t ≤ k.2 := by
  refine ⟨⟨trivial, trivial, .inr (.inr (by decide +kernel)), .inl rfl, trivial⟩, fun h => ?_⟩
  have hmoved : (run (Journal.step {}) ⟨deskWorld, []⟩
      flattenedBetween).world.session.committed.watermark 7 = some 150000000 := by decide +kernel
  have hmarket : (run (Journal.step {}) ⟨deskWorld, []⟩ flattenedBetween).market =
      [(7, 60000000)] := by decide +kernel
  obtain ⟨k, hk, -, hle⟩ := h 7 150000000 hmoved
  rw [hmarket, List.mem_singleton] at hk
  subst hk
  exact absurd hle (by decide)

end QBackend.Execution
