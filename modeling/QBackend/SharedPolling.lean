import QBackend.RestartParity

/-!
# Shared and solo polling

The coordinator fetches one span for all consumers of a stream, from the earliest watermark among
them. A consumer with a watermark finds in it what a poll of its own would bring. A consumer
without one is given the span of the others in place of its initial window.
-/

namespace QBackend.Execution

open FallibleSteps

/-- The new bars that a consumer takes out of a poll of `consumers`. -/
def BarCoordinator.newBars (c : BarCoordinator) (initialWindowBars : ℕ)
    (consumers : List DeploymentBarConsumer) (consumer : DeploymentBarConsumer) :
    Except ExecutionError (List Bar) := do
  let batches ← c.poll initialWindowBars consumers
  match batches.find? (fun b => b.key = consumer.key) with
  | none => return []
  | some batch => newBarsForConsumer batch consumer.lastEvaluatedClose

/-! ## One stream -/

theorem barDuration_pos {timeframe : String} {duration : Time}
    (h : barDuration timeframe = .ok duration) : 0 < duration := by
  unfold barDuration at h
  split at h
  · cases h
  next minutes hminutes =>
    cases h
    have hpos : 0 < minutes := by
      unfold tfMinutes at hminutes
      split at hminutes <;> cases hminutes <;> decide
    exact Int.mul_pos (Int.natCast_pos.mpr hpos) (by decide)

theorem eraseDups_of_forall_eq {α : Type} [DecidableEq α] {a : α} {as : List α}
    (h : ∀ b ∈ as, b = a) : (a :: as).eraseDups = [a] := by
  rw [List.eraseDups_cons]
  have hfilter : as.filter (fun b => !b == a) = [] := by
    rw [List.filter_eq_nil_iff]
    intro b hb
    simp [h b hb]
  rw [hfilter, List.eraseDups_nil]

section Stream

variable {c : BarCoordinator} {n : ℕ} {group : List DeploymentBarConsumer}
  {consumer : DeploymentBarConsumer} {history : List Bar} {duration : Time}

/-- Consumers of one stream are polled with one fetch. -/
theorem BarCoordinator.poll_stream (hmem : consumer ∈ group)
    (hgroup : ∀ x ∈ group, x.key = consumer.key) :
    c.poll n group = (c.fetchStream n consumer.key group).map (fun batch => [batch]) := by
  have hkeys : (group.map DeploymentBarConsumer.key).eraseDups = [consumer.key] := by
    cases group with
    | nil => cases hmem
    | cons first rest =>
      rw [List.map_cons, hgroup first (by simp)]
      refine eraseDups_of_forall_eq (fun k hk => ?_)
      obtain ⟨x, hx, rfl⟩ := List.mem_map.mp hk
      exact hgroup x (List.mem_cons_of_mem first hx)
  have hall : group.filter (fun x => x.key = consumer.key) = group :=
    List.filter_eq_self.mpr (fun x hx => by simpa using hgroup x hx)
  rw [poll, hkeys]
  simp only [List.mapM_cons, List.mapM_nil, hall]
  cases c.fetchStream n consumer.key group <;> rfl

theorem BarCoordinator.newBars_eq (hmem : consumer ∈ group)
    (hgroup : ∀ x ∈ group, x.key = consumer.key)
    (hduration : barDuration consumer.key.timeframe = .ok duration)
    (hserves : c.provider.Serves consumer.key history duration) (hordered : Ordered history) :
    c.newBars n group consumer = .ok (history.filter (fun b =>
      c.fetchStart duration n group ≤ b.openTime ∧ b.closeTime duration ≤ c.now ∧
        consumer.lastEvaluatedClose.all (· < b.closeTime duration))) := by
  have hfetch := fetchStream_serves hduration hserves hordered n group
  simp only [newBars, poll_stream hmem hgroup, hfetch, Except.map, bind, Except.bind,
    decide_true, List.find?_cons_of_pos, newBarsForConsumer, hduration]
  split
  next hempty =>
    have hnone : ∀ b ∈ history, ¬ (c.fetchStart duration n group ≤ b.openTime ∧
        b.closeTime duration ≤ c.now) := by
      intro b hb hspan
      have hin : b ∈ history.filter (fun b => c.fetchStart duration n group ≤ b.openTime ∧
          b.closeTime duration ≤ c.now) := List.mem_filter.mpr ⟨hb, by simpa using hspan⟩
      rw [hempty] at hin
      cases hin
    refine congrArg Except.ok (List.filter_eq_nil_iff.mpr (fun b hb => ?_)).symm
    simp only [decide_eq_true_eq]
    exact fun h => hnone b hb ⟨h.1, h.2.1⟩
  · refine congrArg Except.ok ?_
    rw [List.filter_filter]
    refine List.filter_congr (fun b _ => ?_)
    rw [Bool.eq_iff_iff]
    simp only [Bool.and_eq_true, decide_eq_true_eq]
    tauto

theorem earliestClose_le {watermark : Time} (hmem : consumer ∈ group)
    (hwatermark : consumer.lastEvaluatedClose = some watermark) :
    ∃ earliest, earliestClose group = some earliest ∧ earliest ≤ watermark := by
  have hin : watermark ∈ group.filterMap (·.lastEvaluatedClose) :=
    List.mem_filterMap.mpr ⟨consumer, hmem, hwatermark⟩
  cases hmin : earliestClose group with
  | none =>
    rw [earliestClose, List.min?_eq_none_iff] at hmin
    rw [hmin] at hin
    cases hin
  | some earliest => exact ⟨earliest, rfl, (List.min?_eq_some_iff.mp hmin).2 watermark hin⟩

theorem BarCoordinator.fetchStart_le {watermark : Time} {b : Bar} (hpos : 0 < duration)
    (hoverlap : 1 ≤ c.overlapBars) (hmem : consumer ∈ group)
    (hwatermark : consumer.lastEvaluatedClose = some watermark)
    (hafter : watermark < b.closeTime duration) : c.fetchStart duration n group ≤ b.openTime := by
  obtain ⟨earliest, hearliest, hle⟩ := earliestClose_le hmem hwatermark
  have hspan : duration * 1 ≤ duration * c.overlapBars :=
    Int.mul_le_mul_of_nonneg_left (Int.ofNat_le.mpr hoverlap) hpos.le
  rw [fetchStart, hearliest]
  dsimp only
  unfold Bar.closeTime at hafter
  show (earliest : ℤ) - duration * c.overlapBars ≤ b.openTime
  have h₁ : (earliest : ℤ) ≤ watermark := hle
  have h₂ : (watermark : ℤ) < b.openTime + duration := hafter
  have h₃ : (duration : ℤ) * 1 ≤ duration * c.overlapBars := hspan
  linarith

theorem BarCoordinator.newBars_of_watermark {watermark : Time} (hmem : consumer ∈ group)
    (hgroup : ∀ x ∈ group, x.key = consumer.key)
    (hduration : barDuration consumer.key.timeframe = .ok duration)
    (hserves : c.provider.Serves consumer.key history duration) (hordered : Ordered history)
    (hoverlap : 1 ≤ c.overlapBars) (hwatermark : consumer.lastEvaluatedClose = some watermark) :
    c.newBars n group consumer = .ok (history.filter (fun b =>
      b.closeTime duration ≤ c.now ∧ watermark < b.closeTime duration)) := by
  rw [newBars_eq hmem hgroup hduration hserves hordered]
  refine congrArg Except.ok (List.filter_congr (fun b _ => ?_))
  rw [Bool.eq_iff_iff]
  simp only [hwatermark, Option.all_some, decide_eq_true_eq]
  constructor
  · exact fun h => h.2
  · intro h
    exact ⟨fetchStart_le (barDuration_pos hduration) hoverlap hmem hwatermark h.2, h⟩

theorem BarCoordinator.newBars_of_none (hmem : consumer ∈ group)
    (hgroup : ∀ x ∈ group, x.key = consumer.key)
    (hduration : barDuration consumer.key.timeframe = .ok duration)
    (hserves : c.provider.Serves consumer.key history duration) (hordered : Ordered history)
    (hnone : consumer.lastEvaluatedClose = none) :
    c.newBars n group consumer = .ok (history.filter (fun b =>
      c.fetchStart duration n group ≤ b.openTime ∧ b.closeTime duration ≤ c.now)) := by
  rw [newBars_eq hmem hgroup hduration hserves hordered]
  simp [hnone]

end Stream

theorem filter_eq_filter_iff {α : Type} {as : List α} {p q : α → Bool} :
    as.filter p = as.filter q ↔ ∀ a ∈ as, p a = q a := by
  constructor
  · intro h a ha
    have hsame : a ∈ as.filter p ↔ a ∈ as.filter q := by rw [h]
    simp only [List.mem_filter, ha, true_and] at hsame
    exact Bool.eq_iff_iff.mpr hsame
  · exact fun h => List.filter_congr h

/-- Sharing a stream leaves a consumer with a watermark what a poll of its own brings. One without
a watermark loses nothing exactly if nobody in the group has one, or the span of the group and its
initial window hold the same completed bars. -/
theorem shared_polling_eq_solo_polling (c : BarCoordinator) (n : ℕ)
    (group : List DeploymentBarConsumer) (consumer : DeploymentBarConsumer) (hmem : consumer ∈ group)
    (hgroup : ∀ x ∈ group, x.key = consumer.key) (history : List Bar) (duration : Time)
    (hduration : barDuration consumer.key.timeframe = .ok duration)
    (hserves : c.provider.Serves consumer.key history duration) (hordered : Ordered history)
    (hoverlap : 1 ≤ c.overlapBars) :
    c.newBars n group consumer = c.newBars n [consumer] consumer ↔
      (consumer.lastEvaluatedClose = none → ∀ earliest, earliestClose group = some earliest →
        ∀ b ∈ history, b.closeTime duration ≤ c.now →
          (earliest - duration * c.overlapBars ≤ b.openTime ↔ c.now - duration * n ≤ b.openTime)) := by
  have hsolo : consumer ∈ [consumer] := List.mem_singleton_self consumer
  have hkey : ∀ x ∈ [consumer], x.key = consumer.key := by simp
  cases hclose : consumer.lastEvaluatedClose with
  | some watermark =>
    rw [c.newBars_of_watermark hmem hgroup hduration hserves hordered hoverlap hclose,
      c.newBars_of_watermark hsolo hkey hduration hserves hordered hoverlap hclose]
    simp
  | none =>
    have hown : c.fetchStart duration n [consumer] = c.now - duration * n := by
      simp [BarCoordinator.fetchStart, earliestClose, hclose]
    rw [c.newBars_of_none hmem hgroup hduration hserves hordered hclose,
      c.newBars_of_none hsolo hkey hduration hserves hordered hclose, Except.ok.injEq,
      filter_eq_filter_iff, hown]
    cases hearliest : earliestClose group with
    | none =>
      have hshared : c.fetchStart duration n group = c.now - duration * n := by
        simp [BarCoordinator.fetchStart, hearliest]
      simp [hshared]
    | some earliest =>
      have hshared : c.fetchStart duration n group = earliest - duration * c.overlapBars := by
        simp [BarCoordinator.fetchStart, hearliest]
      simp only [hshared, forall_const, Option.some.injEq, forall_eq']
      refine forall₂_congr (fun b _ => ?_)
      rw [decide_eq_decide]
      constructor
      · intro h hcomplete
        have hiff := h
        simp only [hcomplete, and_true] at hiff
        exact hiff
      · intro h
        constructor
        · exact fun hb => ⟨(h hb.2).mp hb.1, hb.2⟩
        · exact fun hb => ⟨(h hb.2).mpr hb.1, hb.2⟩

/-! ## A newcomer beside a running deployment -/

def newcomer : DeploymentBarConsumer := { deploymentId := 8, symbol := "WIN", timeframe := "M1" }

/-- A deployment whose watermark is the close of the fourth bar. -/
def runner : DeploymentBarConsumer :=
  { deploymentId := 7, symbol := "WIN", timeframe := "M1", lastEvaluatedClose := some 240000000 }

/-- Alone the newcomer receives five bars, beside the runner two. -/
theorem newcomer_loses_initial_window :
    ((deskCoordinator 5 5).newBars 500 [newcomer, runner] newcomer).toOption.map List.length = some 2 ∧
    ((deskCoordinator 5 5).newBars 500 [newcomer] newcomer).toOption.map List.length = some 5 ∧
    (deskCoordinator 5 5).newBars 500 [newcomer, runner] newcomer ≠
      (deskCoordinator 5 5).newBars 500 [newcomer] newcomer := by
  have hshared : ((deskCoordinator 5 5).newBars 500 [newcomer, runner] newcomer).toOption.map List.length =
      some 2 := by decide +kernel
  have hsolo : ((deskCoordinator 5 5).newBars 500 [newcomer] newcomer).toOption.map List.length =
      some 5 := by decide +kernel
  refine ⟨hshared, hsolo, fun heq => ?_⟩
  rw [heq, hsolo] at hshared
  cases hshared

/-- The runner is not disturbed. -/
theorem runner_keeps_new_bars :
    ((deskCoordinator 5 5).newBars 500 [newcomer, runner] runner).toOption.map List.length = some 1 ∧
    (deskCoordinator 5 5).newBars 500 [newcomer, runner] runner =
      (deskCoordinator 5 5).newBars 500 [runner] runner := by
  refine ⟨by decide +kernel, ?_⟩
  have hgroup : ∀ x ∈ [newcomer, runner], x.key = runner.key := by
    intro x hx
    rcases List.mem_pair.mp hx with rfl | rfl <;> rfl
  have hduration : barDuration runner.key.timeframe = .ok 60000000 := by
    have hminutes : tfMinutes runner.key.timeframe.toUpper = some 1 := by decide +kernel
    rw [barDuration, hminutes]
    rfl
  have hserves : (deskCoordinator 5 5).provider.Serves runner.key (deskBars 5) 60000000 :=
    fun start stop => ⟨[], by simp, by simp [deskCoordinator]⟩
  have hordered : Ordered (deskBars 5) := by
    unfold Ordered
    decide +kernel
  refine (shared_polling_eq_solo_polling (deskCoordinator 5 5) 500 [newcomer, runner] runner
    (by simp) hgroup (deskBars 5) 60000000 hduration hserves hordered le_rfl).mpr ?_
  exact fun h => by cases h

end QBackend.Execution
