import QBackend.AlphaResearch

/-!
# The choice of champions

The window of a seed, the seed of a candidate and the frozen candidate are each the one with the
greatest objective, also where the objective is to be minimized, and the sort of the seeds reads an
objective of zero as no objective.
-/

namespace QBackend.Research

open JsonValues FallibleSteps Optimization OrderedSeries

/-! ## The direction of the objective -/

/-- `_robustness_score`. -/
def robustnessScore (objective : ℚ) (mode : ObjectiveMode) : ℚ :=
  if mode = .minimizeDrawdown then -objective else objective

/-- The robustness score of an objective value, below all others where the value is missing. -/
def directed (mode : ObjectiveMode) : Option ℚ → WithBot ℚ
  | none => ⊥
  | some objective => robustnessScore objective mode

def Beats (mode : ObjectiveMode) (objective other : Option ℚ) : Prop :=
  directed mode other < directed mode objective

variable {mode : ObjectiveMode}

theorem not_beats_none (mode : ObjectiveMode) (other : Option ℚ) : ¬ Beats mode none other :=
  not_lt_bot

theorem beats_some_none (mode : ObjectiveMode) (objective : ℚ) : Beats mode (some objective) none :=
  WithBot.bot_lt_coe _

theorem not_beats_some {v u : ℚ} :
    ¬ Beats mode (some v) (some u) ↔ robustnessScore v mode ≤ robustnessScore u mode := by
  unfold Beats directed
  rw [not_lt, WithBot.coe_le_coe]

theorem robustnessScore_le {v u : ℚ} (hmode : mode ≠ .minimizeDrawdown) :
    robustnessScore v mode ≤ robustnessScore u mode ↔ v ≤ u := by
  unfold robustnessScore
  rw [if_neg hmode, if_neg hmode]

theorem robustnessScore_le_minimize {v u : ℚ} :
    robustnessScore v .minimizeDrawdown ≤ robustnessScore u .minimizeDrawdown ↔ u ≤ v := by
  unfold robustnessScore
  rw [if_pos rfl, if_pos rfl]
  exact neg_le_neg_iff

theorem robustnessScore_zero (mode : ObjectiveMode) : robustnessScore 0 mode = 0 := by
  unfold robustnessScore
  split
  · exact neg_zero
  · rfl

/-- The greatest of some objectives is beaten by none of them where they are to be maximized, and
elsewhere only if they are all equal. -/
theorem greatest_unbeaten_iff (mode : ObjectiveMode) (P : ℚ → Prop) {greatest : ℚ}
    (hgreatest : P greatest)
    (hle : ∀ v, P v → v ≤ greatest) :
    (∀ v, P v → ¬ Beats mode (some v) (some greatest)) ↔
      (mode = .minimizeDrawdown → ∀ v u, P v → P u → v = u) := by
  by_cases hmode : mode = .minimizeDrawdown
  · subst hmode
    constructor
    · intro h _ v u hv hu
      have heq : ∀ w, P w → w = greatest := fun w hw =>
        le_antisymm (hle w hw) (robustnessScore_le_minimize.mp (not_beats_some.mp (h w hw)))
      rw [heq v hv, heq u hu]
    · intro h v hv
      rw [h rfl v greatest hv hgreatest]
      exact lt_irrefl _
  · refine iff_of_true (fun v hv => ?_) fun hmin => absurd hmin hmode
    exact not_beats_some.mpr ((robustnessScore_le hmode).mpr (hle v hv))

/-! ## The window -/

/-- A window that can be chosen, with its objective. -/
def Eligible (mode : ObjectiveMode) (window : WindowResult ℚ) (objective : ℚ) : Prop :=
  ∃ metrics, testedMetrics window = some metrics ∧ window.bestParams.isEmpty = false ∧
    resolveObjective metrics mode = .ok objective

/-- The objective and the parameters are of a window that no other one beats. -/
structure WindowUnbeaten (mode : ObjectiveMode) (windows : List (WindowResult ℚ))
    (best : Option (ℚ × Dict ℚ)) : Prop where
  chosen : ∀ b ∈ best, ∃ w ∈ windows, Eligible mode w b.1 ∧ w.bestParams = b.2
  unbeaten : ∀ w ∈ windows, ∀ v, Eligible mode w v → ¬ Beats mode (some v) (best.map Prod.fst)

/-- The objective is to be maximized, or all windows that can be chosen have the same. -/
def WindowsAgree (mode : ObjectiveMode) (windows : List (WindowResult ℚ)) : Prop :=
  mode = .minimizeDrawdown → ∀ v u, (∃ w ∈ windows, Eligible mode w v) →
    (∃ w ∈ windows, Eligible mode w u) → v = u

theorem bestWindow_cons {best best' : Option (ℚ × Dict ℚ)} {window : WindowResult ℚ}
    {windows : List (WindowResult ℚ)}
    (h : bestWindow mode best (window :: windows) = .ok best') :
    ((∀ v, ¬ Eligible mode window v) ∧ bestWindow mode best windows = .ok best') ∨
      ∃ score, (∀ v, Eligible mode window v ↔ v = score) ∧
        (((∀ b ∈ best, b.1 < score) ∧
            bestWindow mode (some (score, window.bestParams)) windows = .ok best') ∨
          (∃ b ∈ best, score ≤ b.1) ∧ bestWindow mode best windows = .ok best') := by
  unfold bestWindow at h
  cases hmetrics : testedMetrics window with
  | none =>
    rw [hmetrics] at h
    refine .inl ⟨?_, h⟩
    rintro v ⟨metrics, hsome, -⟩
    rw [hmetrics] at hsome
    cases hsome
  | some metrics =>
    rw [hmetrics] at h
    cases hparams : window.bestParams.isEmpty with
    | true =>
      refine .inl ⟨?_, by simpa only [hparams, if_true] using h⟩
      rintro v ⟨_, -, hne, -⟩
      rw [hparams] at hne
      cases hne
    | false =>
      simp only [hparams, Bool.false_eq_true, if_false] at h
      obtain ⟨score, hscore, h⟩ := bind_eq_ok.mp h
      refine .inr ⟨score, fun v => ⟨?_, ?_⟩, ?_⟩
      · rintro ⟨metrics', hsome, -, hv⟩
        rw [hmetrics] at hsome
        obtain rfl := Option.some.inj hsome
        rw [hscore] at hv
        exact (Except.ok.inj hv).symm
      · rintro rfl
        exact ⟨metrics, hmetrics, hparams, hscore⟩
      · split at h
        next hall =>
          refine .inl ⟨fun b hb => ?_, h⟩
          rw [Option.mem_def.mp hb] at hall
          exact of_decide_eq_true hall
        next hall =>
          refine .inr ⟨?_, h⟩
          cases best with
          | none => exact absurd rfl hall
          | some b => exact ⟨b, rfl, not_lt.mp fun hlt => hall (decide_eq_true hlt)⟩

theorem bestWindow_ok {best best' : Option (ℚ × Dict ℚ)} {windows : List (WindowResult ℚ)}
    (h : bestWindow mode best windows = .ok best') :
    (∀ b' ∈ best', b' ∈ best ∨ ∃ w ∈ windows, Eligible mode w b'.1 ∧ w.bestParams = b'.2) ∧
      (∀ b ∈ best, ∃ b' ∈ best', b.1 ≤ b'.1) ∧
      ∀ w ∈ windows, ∀ v, Eligible mode w v → ∃ b' ∈ best', v ≤ b'.1 := by
  induction windows generalizing best with
  | nil =>
    obtain rfl := Except.ok.inj h
    exact ⟨fun b' hb' => .inl hb', fun b hb => ⟨b, hb, le_rfl⟩, by simp⟩
  | cons window windows ih =>
    obtain ⟨hnone, h⟩ | ⟨score, hscore, ⟨hlt, h⟩ | ⟨⟨b, hb, hle⟩, h⟩⟩ := bestWindow_cons h
    · obtain ⟨hmem, hbest, hall⟩ := ih h
      refine ⟨fun b' hb' => ?_, hbest, fun w hw v hv => ?_⟩
      · exact (hmem b' hb').imp id fun ⟨w, hw, hb⟩ => ⟨w, List.mem_cons_of_mem _ hw, hb⟩
      · obtain rfl | hw := List.mem_cons.mp hw
        · exact absurd hv (hnone v)
        · exact hall w hw v hv
    · obtain ⟨hmem, hbest, hall⟩ := ih h
      obtain ⟨top, htop, hscoretop⟩ := hbest _ rfl
      refine ⟨fun b' hb' => .inr ?_, fun b hb => ?_, fun w hw v hv => ?_⟩
      · obtain hb' | ⟨w, hw, hb'⟩ := hmem b' hb'
        · obtain rfl := Option.some.inj hb'
          exact ⟨window, List.mem_cons_self, (hscore score).mpr rfl, rfl⟩
        · exact ⟨w, List.mem_cons_of_mem _ hw, hb'⟩
      · exact ⟨top, htop, (hlt b hb).le.trans hscoretop⟩
      · obtain rfl | hw := List.mem_cons.mp hw
        · exact ⟨top, htop, ((hscore v).mp hv).le.trans hscoretop⟩
        · exact hall w hw v hv
    · obtain ⟨hmem, hbest, hall⟩ := ih h
      refine ⟨fun b' hb' => ?_, hbest, fun w hw v hv => ?_⟩
      · exact (hmem b' hb').imp id fun ⟨w, hw, hb⟩ => ⟨w, List.mem_cons_of_mem _ hw, hb⟩
      · obtain rfl | hw := List.mem_cons.mp hw
        · obtain ⟨b', hb', hbb'⟩ := hbest b hb
          exact ⟨b', hb', (((hscore v).mp hv).le.trans hle).trans hbb'⟩
        · exact hall w hw v hv

theorem windowUnbeaten_iff {windows : List (WindowResult ℚ)} {best : Option (ℚ × Dict ℚ)}
    (h : bestWindow mode none windows = .ok best) :
    WindowUnbeaten mode windows best ↔ WindowsAgree mode windows := by
  obtain ⟨hmem, -, hall⟩ := bestWindow_ok h
  have hchosen : ∀ b ∈ best, ∃ w ∈ windows, Eligible mode w b.1 ∧ w.bestParams = b.2 := by
    intro b hb
    obtain hnone | hw := hmem b hb
    · cases hnone
    · exact hw
  cases best with
  | none =>
    have hnone : ∀ w ∈ windows, ∀ v, ¬ Eligible mode w v := fun w hw v hv => by
      obtain ⟨b, hb, -⟩ := hall w hw v hv
      cases hb
    refine iff_of_true ⟨hchosen, fun w hw v hv => absurd hv (hnone w hw v)⟩ ?_
    rintro - v u ⟨w, hw, hv⟩ -
    exact absurd hv (hnone w hw v)
  | some b =>
    obtain ⟨w, hw, hb, -⟩ := hchosen b rfl
    have hiff := greatest_unbeaten_iff mode (fun v => ∃ w ∈ windows, Eligible mode w v)
      ⟨w, hw, hb⟩ (by
        rintro v ⟨w, hw, hv⟩
        obtain ⟨b', hb', hle⟩ := hall w hw v hv
        obtain rfl := Option.some.inj hb'
        exact hle)
    refine Iff.trans ⟨fun hun => ?_, fun hun => ⟨hchosen, fun w hw v hv => ?_⟩⟩ hiff
    · rintro v ⟨w, hw, hv⟩
      exact hun.unbeaten w hw v hv
    · exact hun v ⟨w, hw, hv⟩

theorem evaluateSeedRun_bestParams {seed : ℤ} {result : WalkForwardResult ℚ} {record : SeedRun}
    (h : evaluateSeedRun mode seed (.ok result) = .ok record)
    (hcompleted : record.status = .completed) :
    ∃ best, bestWindow mode none result.windows = .ok best ∧
      record.bestParams = best.map Prod.snd := by
  simp only [evaluateSeedRun] at h
  obtain ⟨returns, -, h⟩ := bind_eq_ok.mp h
  split at h
  · obtain rfl := pure_eq_ok.mp h
    cases hcompleted
  · obtain ⟨trades, -, h⟩ := bind_eq_ok.mp h
    split at h
    · obtain rfl := pure_eq_ok.mp h
      cases hcompleted
    · obtain ⟨objective, -, h⟩ := bind_eq_ok.mp h
      obtain ⟨best, hbest, h⟩ := bind_eq_ok.mp h
      obtain rfl := pure_eq_ok.mp h
      exact ⟨best, hbest, rfl⟩

/-! ## The seed -/

def completedSeeds (seeds : List SeedRun) : List SeedRun :=
  seeds.filter fun seed => seed.status = .completed

/-- The champion is a completed seed that no other one beats. -/
structure SeedUnbeaten (mode : ObjectiveMode) (seeds : List SeedRun) : Prop where
  chosen : ∀ c ∈ selectChampionSeed seeds, c ∈ completedSeeds seeds
  unbeaten : ∀ seed ∈ completedSeeds seeds, ∃ c ∈ selectChampionSeed seeds,
    ¬ Beats mode seed.objectiveValue c.objectiveValue

/-- Objectives to be minimized are equal unless they are zero, and where one is zero there is a
better one or the first seed has it and no other is worse. -/
structure SeedsAgree (mode : ObjectiveMode) (seeds : List SeedRun) : Prop where
  nonzero : mode = .minimizeDrawdown → ∀ s ∈ completedSeeds seeds, ∀ t ∈ completedSeeds seeds,
    ∀ v u, s.objectiveValue = some v → t.objectiveValue = some u → v ≠ 0 → u ≠ 0 → v = u
  zero : (∃ s ∈ completedSeeds seeds, s.objectiveValue = some 0) →
    (∃ s ∈ completedSeeds seeds, ∃ v, s.objectiveValue = some v ∧ 0 < robustnessScore v mode) ∨
      (∃ first ∈ (completedSeeds seeds).head?, first.objectiveValue = some 0) ∧
        ∀ s ∈ completedSeeds seeds, ∀ v, s.objectiveValue = some v → 0 ≤ robustnessScore v mode

variable {seeds : List SeedRun} {c : SeedRun}

theorem rank_of_ne_zero {seed : SeedRun} {v : ℚ} (h : seed.objectiveValue = some v) (hv : v ≠ 0) :
    seed.rank = v := by
  unfold SeedRun.rank
  rw [h]
  exact if_neg hv

theorem le_rank_iff {seed : SeedRun} {v : ℚ} :
    v ≤ seed.rank ↔ ∃ k, seed.objectiveValue = some k ∧ k ≠ 0 ∧ v ≤ k := by
  constructor
  · intro h
    unfold SeedRun.rank at h
    cases hk : seed.objectiveValue with
    | none =>
      rw [hk] at h
      exact absurd (le_bot_iff.mp h) WithBot.coe_ne_bot
    | some k =>
      rw [hk] at h
      by_cases hzero : k = 0
      · exact absurd (le_bot_iff.mp (h.trans (if_pos hzero).le)) WithBot.coe_ne_bot
      · exact ⟨k, rfl, hzero, WithBot.coe_le_coe.mp (h.trans (if_neg hzero).le)⟩
  · rintro ⟨k, hk, hne, hle⟩
    rw [rank_of_ne_zero hk hne]
    exact WithBot.coe_le_coe.mpr hle

theorem selectChampionSeed_eq (seeds : List SeedRun) : selectChampionSeed seeds =
    ((completedSeeds seeds).insertionSort fun a b => b.rank ≤ a.rank).head? := rfl

theorem selectChampionSeed_some (h : selectChampionSeed seeds = some c) :
    c ∈ completedSeeds seeds ∧ (∀ s ∈ completedSeeds seeds, s.rank ≤ c.rank) ∧
      (c.rank = ⊥ → (completedSeeds seeds).head? = some c) := by
  rw [selectChampionSeed_eq] at h
  cases hsorted : (completedSeeds seeds).insertionSort fun a b => b.rank ≤ a.rank with
  | nil =>
    rw [hsorted] at h
    cases h
  | cons a rest =>
    obtain ⟨before, after, hsplit, hbefore, hafter⟩ := head_insertionSort hsorted
    rw [hsorted] at h
    obtain rfl := Option.some.inj h
    rw [hsplit]
    refine ⟨by simp, fun s hs => ?_, fun hbot => ?_⟩
    · obtain hs | hs := List.mem_append.mp hs
      · exact (hbefore s hs).le
      · obtain rfl | hs := List.mem_cons.mp hs
        · exact le_rfl
        · exact hafter s hs
    · cases before with
      | nil => rfl
      | cons b before =>
        have hlt := hbefore b List.mem_cons_self
        rw [hbot] at hlt
        exact absurd hlt not_lt_bot

theorem exists_champion {s : SeedRun} (hs : s ∈ completedSeeds seeds) :
    ∃ c, selectChampionSeed seeds = some c := by
  have hmem : s ∈ (completedSeeds seeds).insertionSort fun a b => b.rank ≤ a.rank :=
    (List.mem_insertionSort _).mpr hs
  rw [selectChampionSeed_eq]
  cases hsorted : (completedSeeds seeds).insertionSort fun a b => b.rank ≤ a.rank with
  | nil =>
    rw [hsorted] at hmem
    cases hmem
  | cons c rest => exact ⟨c, rfl⟩

/-- The objective of a champion: the greatest that is not zero, or that of the first seed. -/
def ChampionValue (seeds : List SeedRun) (v : ℚ) : Prop :=
  (v ≠ 0 ∧ (∃ s ∈ completedSeeds seeds, s.objectiveValue = some v) ∧
      ∀ s ∈ completedSeeds seeds, ∀ u, s.objectiveValue = some u → u ≠ 0 → u ≤ v) ∨
    v = 0 ∧ (∃ first ∈ (completedSeeds seeds).head?, first.objectiveValue = some 0) ∧
      ∀ s ∈ completedSeeds seeds, ∀ u, s.objectiveValue = some u → u = 0

/-- A champion of no rank is the first seed, and no seed has a value but zero. -/
theorem champion_cases (h : selectChampionSeed seeds = some c) :
    (∃ k, c.objectiveValue = some k ∧ k ≠ 0 ∧
        ∀ s ∈ completedSeeds seeds, ∀ u, s.objectiveValue = some u → u ≠ 0 → u ≤ k) ∨
      (∀ k, c.objectiveValue = some k → k = 0) ∧ (completedSeeds seeds).head? = some c ∧
        ∀ s ∈ completedSeeds seeds, ∀ u, s.objectiveValue = some u → u = 0 := by
  obtain ⟨hmem, hle, hfirst⟩ := selectChampionSeed_some h
  have hrank : ∀ s ∈ completedSeeds seeds, ∀ u, s.objectiveValue = some u → u ≠ 0 →
      ∃ k, c.objectiveValue = some k ∧ k ≠ 0 ∧ u ≤ k := fun s hs u hu hne =>
    le_rank_iff.mp ((rank_of_ne_zero hu hne).ge.trans (hle s hs))
  by_cases hvalue : ∃ k, c.objectiveValue = some k ∧ k ≠ 0
  · obtain ⟨k, hk, hne⟩ := hvalue
    refine .inl ⟨k, hk, hne, fun s hs u hu hune => ?_⟩
    obtain ⟨k', hk', -, hle⟩ := hrank s hs u hu hune
    rw [hk] at hk'
    exact hle.trans (Option.some.inj hk').ge
  · have hzero : ∀ s ∈ completedSeeds seeds, ∀ u, s.objectiveValue = some u → u = 0 := by
      intro s hs u hu
      by_contra hne
      obtain ⟨k, hk, hkne, -⟩ := hrank s hs u hu hne
      exact hvalue ⟨k, hk, hkne⟩
    refine .inr ⟨hzero c hmem, hfirst ?_, hzero⟩
    unfold SeedRun.rank
    cases hk : c.objectiveValue with
    | none => rfl
    | some k => exact if_pos (hzero c hmem k hk)

theorem championValue_iff {v : ℚ} :
    ChampionValue seeds v ↔ ∃ c ∈ selectChampionSeed seeds, c.objectiveValue = some v := by
  constructor
  · rintro (⟨hne, ⟨s, hs, hv⟩, hle⟩ | ⟨rfl, ⟨first, hfirst, hv⟩, hzero⟩)
    · obtain ⟨c, hc⟩ := exists_champion hs
      refine ⟨c, hc, ?_⟩
      obtain ⟨k, hk, hkne, hgreatest⟩ | ⟨-, -, hzero⟩ := champion_cases hc
      · have hcmem := (selectChampionSeed_some hc).1
        rw [hk, le_antisymm (hgreatest s hs v hv hne) (hle c hcmem k hk hkne)]
      · exact absurd (hzero s hs v hv) hne
    · have hmem : first ∈ completedSeeds seeds := List.mem_of_mem_head? hfirst
      obtain ⟨c, hc⟩ := exists_champion hmem
      refine ⟨c, hc, ?_⟩
      obtain ⟨k, hk, hkne, -⟩ | ⟨-, hhead, -⟩ := champion_cases hc
      · exact absurd (hzero c (selectChampionSeed_some hc).1 k hk) hkne
      · rw [Option.mem_def.mp hfirst] at hhead
        rw [← Option.some.inj hhead, hv]
  · rintro ⟨c, hc, hv⟩
    obtain ⟨k, hk, hkne, hgreatest⟩ | ⟨hk, hhead, hzero⟩ := champion_cases hc
    · rw [hv] at hk
      obtain rfl := Option.some.inj hk
      exact .inl ⟨hkne, ⟨c, (selectChampionSeed_some hc).1, hv⟩, hgreatest⟩
    · obtain rfl := hk v hv
      exact .inr ⟨rfl, ⟨c, hhead, hv⟩, hzero⟩

theorem SeedsAgree.unbeaten (h : SeedsAgree mode seeds) (hc : selectChampionSeed seeds = some c)
    {s : SeedRun} (hs : s ∈ completedSeeds seeds) :
    ¬ Beats mode s.objectiveValue c.objectiveValue := by
  have hcmem := (selectChampionSeed_some hc).1
  cases hv : s.objectiveValue with
  | none => exact not_beats_none _ _
  | some v =>
    obtain ⟨k, hk, hkne, hle⟩ | ⟨-, hhead, hzero⟩ := champion_cases hc
    · rw [hk, not_beats_some]
      have hdirected : ∀ t ∈ completedSeeds seeds, ∀ u, t.objectiveValue = some u → u ≠ 0 →
          robustnessScore u mode ≤ robustnessScore k mode := by
        intro t ht u hu hune
        by_cases hmode : mode = .minimizeDrawdown
        · rw [h.nonzero hmode t ht c hcmem u k hu hk hune hkne]
        · exact (robustnessScore_le hmode).mpr (hle t ht u hu hune)
      by_cases hvzero : v = 0
      · subst hvzero
        rw [robustnessScore_zero]
        obtain ⟨t, ht, u, hu, hpos⟩ | ⟨-, hnonneg⟩ := h.zero ⟨s, hs, hv⟩
        · refine hpos.le.trans (hdirected t ht u hu ?_)
          rintro rfl
          rw [robustnessScore_zero] at hpos
          exact lt_irrefl _ hpos
        · exact hnonneg c hcmem k hk
      · exact hdirected s hs v hv hvzero
    · obtain rfl := hzero s hs v hv
      obtain ⟨t, ht, u, hu, hpos⟩ | ⟨⟨first, hfirst, hfirst0⟩, -⟩ := h.zero ⟨s, hs, hv⟩
      · obtain rfl := hzero t ht u hu
        rw [robustnessScore_zero] at hpos
        exact absurd hpos (lt_irrefl _)
      · rw [Option.mem_def.mp hfirst] at hhead
        rw [← Option.some.inj hhead, hfirst0]
        exact lt_irrefl _

theorem SeedUnbeaten.agree (h : SeedUnbeaten mode seeds) : SeedsAgree mode seeds where
  nonzero := by
    rintro rfl s hs t ht v u hv hu hvne hune
    have hgreatest : ∀ r ∈ completedSeeds seeds, ∀ w, r.objectiveValue = some w → w ≠ 0 →
        ∃ c ∈ selectChampionSeed seeds, c.objectiveValue = some w := by
      intro r hr w hw hwne
      obtain ⟨c, hc, hbeats⟩ := h.unbeaten r hr
      refine ⟨c, hc, ?_⟩
      obtain ⟨k, hk, -, hle⟩ | ⟨-, -, hzero⟩ := champion_cases hc
      · rw [hw, hk, not_beats_some, robustnessScore_le_minimize] at hbeats
        rw [hk, le_antisymm hbeats (hle r hr w hw hwne)]
      · exact absurd (hzero r hr w hw) hwne
    obtain ⟨c, hc, hcv⟩ := hgreatest s hs v hv hvne
    obtain ⟨c', hc', hcu⟩ := hgreatest t ht u hu hune
    rw [Option.mem_def.mp hc] at hc'
    rw [← Option.some.inj hc', hcv] at hcu
    exact Option.some.inj hcu
  zero := by
    rintro ⟨s, hs, hzero⟩
    obtain ⟨c, hc, hbeats⟩ := h.unbeaten s hs
    rw [hzero] at hbeats
    obtain ⟨k, hk, hkne, -⟩ | ⟨-, hhead, hall⟩ := champion_cases hc
    · rw [hk, not_beats_some, robustnessScore_zero] at hbeats
      refine .inl ⟨c, (selectChampionSeed_some hc).1, k, hk, lt_of_le_of_ne hbeats ?_⟩
      intro heq
      refine hkne ?_
      unfold robustnessScore at heq
      split at heq
      · exact neg_eq_zero.mp heq.symm
      · exact heq.symm
    · refine .inr ⟨⟨c, hhead, ?_⟩, fun t ht u hu => ?_⟩
      · cases hk : c.objectiveValue with
        | none =>
          rw [hk] at hbeats
          exact absurd (beats_some_none mode 0) hbeats
        | some k => rw [hall c (selectChampionSeed_some hc).1 k hk]
      · rw [hall t ht u hu, robustnessScore_zero]

theorem seedUnbeaten_iff (mode : ObjectiveMode) (seeds : List SeedRun) :
    SeedUnbeaten mode seeds ↔ SeedsAgree mode seeds := by
  constructor
  · exact SeedUnbeaten.agree
  · intro h
    refine ⟨fun c hc => (selectChampionSeed_some hc).1, fun s hs => ?_⟩
    obtain ⟨c, hc⟩ := exists_champion hs
    exact ⟨c, hc, h.unbeaten hc hs⟩

/-! ## The candidate -/

/-- The frozen candidate comes with its champion, which no champion of another candidate beats. -/
structure CandidateUnbeaten (mode : ObjectiveMode)
    (acceptance : List (SearchCandidate × AcceptanceOutcome)) : Prop where
  chosen : ∀ f ∈ AlphaConfig.selectFrozenCandidate none acceptance,
    ∃ result, (f.1, result) ∈ acceptance ∧ selectChampionSeed result.seeds = some f.2
  unbeaten : ∀ entry ∈ acceptance, ∀ v, ChampionValue entry.2.seeds v →
    ∃ f ∈ AlphaConfig.selectFrozenCandidate none acceptance,
      ¬ Beats mode (some v) f.2.objectiveValue

/-- The objective is to be maximized, or all champions that have one have the same. -/
def CandidatesAgree (mode : ObjectiveMode)
    (acceptance : List (SearchCandidate × AcceptanceOutcome)) : Prop :=
  mode = .minimizeDrawdown → ∀ v u, (∃ e ∈ acceptance, ChampionValue e.2.seeds v) →
    (∃ e ∈ acceptance, ChampionValue e.2.seeds u) → v = u

/-- A step of the scan, from a candidate whose champion has an objective. -/
theorem selectFrozenCandidate_cons {best : Option (SearchCandidate × SeedRun)}
    (entry : SearchCandidate × AcceptanceOutcome)
    (rest : List (SearchCandidate × AcceptanceOutcome))
    (hbest : ∀ b ∈ best, ∃ k, b.2.objectiveValue = some k) :
    ((∀ v, ¬ ChampionValue entry.2.seeds v) ∧
        AlphaConfig.selectFrozenCandidate best (entry :: rest) =
          AlphaConfig.selectFrozenCandidate best rest) ∨
      ∃ c v, selectChampionSeed entry.2.seeds = some c ∧ c.objectiveValue = some v ∧
        (((∀ b ∈ best, ∀ k ∈ b.2.objectiveValue, k < v) ∧
            AlphaConfig.selectFrozenCandidate best (entry :: rest) =
              AlphaConfig.selectFrozenCandidate (some (entry.1, c)) rest) ∨
          (∃ b ∈ best, ∃ k, b.2.objectiveValue = some k ∧ v ≤ k) ∧
            AlphaConfig.selectFrozenCandidate best (entry :: rest) =
              AlphaConfig.selectFrozenCandidate best rest) := by
  obtain ⟨candidate, result⟩ := entry
  have hnone : (∀ c, selectChampionSeed result.seeds = some c → c.objectiveValue = none) →
      ∀ v, ¬ ChampionValue result.seeds v := by
    intro h v hv
    obtain ⟨c, hc, hcv⟩ := championValue_iff.mp hv
    rw [h c hc] at hcv
    cases hcv
  cases hchampion : selectChampionSeed result.seeds with
  | none =>
    refine .inl ⟨hnone fun c hc => ?_, ?_⟩
    · rw [hchampion] at hc
      cases hc
    · simp only [AlphaConfig.selectFrozenCandidate, hchampion]
  | some c =>
    cases hobjective : c.objectiveValue with
    | none =>
      refine .inl ⟨hnone fun c' hc' => ?_, ?_⟩
      · rw [hchampion] at hc'
        rw [← Option.some.inj hc', hobjective]
      · simp only [AlphaConfig.selectFrozenCandidate, hchampion, hobjective]
    | some v =>
      refine .inr ⟨c, v, rfl, hobjective, ?_⟩
      simp only [AlphaConfig.selectFrozenCandidate, hchampion, hobjective]
      split
      next hall =>
        refine .inl ⟨fun b hb k hk => ?_, rfl⟩
        rw [Option.mem_def.mp hb, Option.all_some, Option.mem_def.mp hk] at hall
        exact of_decide_eq_true hall
      next hall =>
        refine .inr ⟨?_, rfl⟩
        cases best with
        | none => exact absurd rfl hall
        | some b =>
          obtain ⟨k, hk⟩ := hbest b rfl
          refine ⟨b, rfl, k, hk, not_lt.mp fun hlt => hall ?_⟩
          rw [Option.all_some, hk]
          exact decide_eq_true hlt

theorem selectFrozenCandidate_spec (best : Option (SearchCandidate × SeedRun))
    (acceptance : List (SearchCandidate × AcceptanceOutcome))
    (hbest : ∀ b ∈ best, ∃ k, b.2.objectiveValue = some k) :
    (∀ f ∈ AlphaConfig.selectFrozenCandidate best acceptance, f ∈ best ∨
        ∃ result, (f.1, result) ∈ acceptance ∧ selectChampionSeed result.seeds = some f.2) ∧
      (∀ f ∈ AlphaConfig.selectFrozenCandidate best acceptance, ∃ k, f.2.objectiveValue = some k) ∧
      ∀ v, ((∃ b ∈ best, b.2.objectiveValue = some v) ∨
          ∃ e ∈ acceptance, ChampionValue e.2.seeds v) →
        ∃ f ∈ AlphaConfig.selectFrozenCandidate best acceptance,
          ∃ k, f.2.objectiveValue = some k ∧ v ≤ k := by
  induction acceptance generalizing best with
  | nil =>
    refine ⟨fun f hf => .inl hf, hbest, ?_⟩
    rintro v (⟨b, hb, hv⟩ | ⟨e, he, -⟩)
    · exact ⟨b, hb, v, hv, le_rfl⟩
    · cases he
  | cons entry rest ih =>
    obtain ⟨hnone, heq⟩ | ⟨c, v₀, hc, hv₀, ⟨hlt, heq⟩ | ⟨⟨b₀, hb₀, k₀, hk₀, hle₀⟩, heq⟩⟩ :=
      selectFrozenCandidate_cons entry rest hbest
    · obtain ⟨hmem, hvalued, hall⟩ := ih _ hbest
      rw [heq]
      refine ⟨fun f hf => ?_, hvalued, ?_⟩
      · exact (hmem f hf).imp id fun ⟨r, hr, hf⟩ => ⟨r, List.mem_cons_of_mem _ hr, hf⟩
      · rintro v (hb | ⟨e, he, hv⟩)
        · exact hall v (.inl hb)
        · obtain rfl | he := List.mem_cons.mp he
          · exact absurd hv (hnone v)
          · exact hall v (.inr ⟨e, he, hv⟩)
    · have hbest' : ∀ b ∈ some (entry.1, c), ∃ k, b.2.objectiveValue = some k := by
        intro b hb
        obtain rfl := Option.some.inj hb
        exact ⟨v₀, hv₀⟩
      obtain ⟨hmem, hvalued, hall⟩ := ih _ hbest'
      rw [heq]
      have hgreater : ∀ v, v ≤ v₀ →
          ∃ f ∈ AlphaConfig.selectFrozenCandidate (some (entry.1, c)) rest,
            ∃ k, f.2.objectiveValue = some k ∧ v ≤ k := by
        intro v hle
        obtain ⟨f, hf, k, hk, hv₀k⟩ := hall v₀ (.inl ⟨_, rfl, hv₀⟩)
        exact ⟨f, hf, k, hk, hle.trans hv₀k⟩
      refine ⟨fun f hf => .inr ?_, hvalued, ?_⟩
      · obtain hf | ⟨r, hr, hf⟩ := hmem f hf
        · obtain rfl := Option.some.inj hf
          exact ⟨entry.2, List.mem_cons_self, hc⟩
        · exact ⟨r, List.mem_cons_of_mem _ hr, hf⟩
      · rintro v (⟨b, hb, hv⟩ | ⟨e, he, hv⟩)
        · exact hgreater v (hlt b hb v hv).le
        · obtain rfl | he := List.mem_cons.mp he
          · obtain ⟨c', hc', hcv⟩ := championValue_iff.mp hv
            rw [hc] at hc'
            rw [← Option.some.inj hc', hv₀] at hcv
            exact hgreater v (Option.some.inj hcv).ge
          · exact hall v (.inr ⟨e, he, hv⟩)
    · obtain ⟨hmem, hvalued, hall⟩ := ih _ hbest
      rw [heq]
      refine ⟨fun f hf => ?_, hvalued, ?_⟩
      · exact (hmem f hf).imp id fun ⟨r, hr, hf⟩ => ⟨r, List.mem_cons_of_mem _ hr, hf⟩
      · rintro v (hb | ⟨e, he, hv⟩)
        · exact hall v (.inl hb)
        · obtain rfl | he := List.mem_cons.mp he
          · obtain ⟨c', hc', hcv⟩ := championValue_iff.mp hv
            rw [hc] at hc'
            rw [← Option.some.inj hc', hv₀] at hcv
            obtain rfl := Option.some.inj hcv
            obtain ⟨f, hf, k, hk, hle⟩ := hall k₀ (.inl ⟨b₀, hb₀, hk₀⟩)
            exact ⟨f, hf, k, hk, hle₀.trans hle⟩
          · exact hall v (.inr ⟨e, he, hv⟩)

theorem candidateUnbeaten_iff (mode : ObjectiveMode)
    (acceptance : List (SearchCandidate × AcceptanceOutcome)) :
    CandidateUnbeaten mode acceptance ↔ CandidatesAgree mode acceptance := by
  obtain ⟨hmem, hvalued, hall⟩ := selectFrozenCandidate_spec none acceptance (by simp)
  have hchosen : ∀ f ∈ AlphaConfig.selectFrozenCandidate none acceptance,
      ∃ result, (f.1, result) ∈ acceptance ∧ selectChampionSeed result.seeds = some f.2 := by
    intro f hf
    obtain hnone | hresult := hmem f hf
    · cases hnone
    · exact hresult
  cases hfrozen : AlphaConfig.selectFrozenCandidate none acceptance with
  | none =>
    have hnone : ∀ e ∈ acceptance, ∀ v, ¬ ChampionValue e.2.seeds v := by
      intro e he v hv
      obtain ⟨f, hf, -⟩ := hall v (.inr ⟨e, he, hv⟩)
      rw [hfrozen] at hf
      cases hf
    refine iff_of_true ⟨hchosen, fun e he v hv => absurd hv (hnone e he v)⟩ ?_
    rintro - v u ⟨e, he, hv⟩ -
    exact absurd hv (hnone e he v)
  | some f =>
    obtain ⟨k, hk⟩ := hvalued f hfrozen
    obtain ⟨result, hresult, hchampion⟩ := hchosen f hfrozen
    have hiff := greatest_unbeaten_iff mode
      (fun v => ∃ e ∈ acceptance, ChampionValue e.2.seeds v)
      ⟨_, hresult, championValue_iff.mpr ⟨f.2, hchampion, hk⟩⟩ (by
        intro v hv
        obtain ⟨f', hf', k', hk', hle⟩ := hall v (.inr hv)
        rw [hfrozen] at hf'
        rw [← Option.some.inj hf', hk] at hk'
        exact hle.trans (Option.some.inj hk').ge)
    refine Iff.trans ⟨fun hun => ?_, fun hun => ⟨hchosen, fun e he v hv => ?_⟩⟩ hiff
    · rintro v ⟨e, he, hv⟩
      obtain ⟨f', hf', hbeats⟩ := hun.unbeaten e he v hv
      rw [hfrozen] at hf'
      rwa [← Option.some.inj hf', hk] at hbeats
    · exact ⟨f, hfrozen, by rw [hk]; exact hun v ⟨e, he, hv⟩⟩

/-! ## The three choices -/

/-- The chosen window, seed and candidate are not beaten exactly where the objectives agree. -/
theorem champions_follow_objective_iff {seed : ℤ} {result : WalkForwardResult ℚ} {record : SeedRun}
    (hrun : evaluateSeedRun mode seed (.ok result) = .ok record)
    (hcompleted : record.status = .completed) (seeds : List SeedRun)
    (acceptance : List (SearchCandidate × AcceptanceOutcome)) :
    (∃ best, bestWindow mode none result.windows = .ok best ∧
        record.bestParams = best.map Prod.snd ∧
        (WindowUnbeaten mode result.windows best ↔ WindowsAgree mode result.windows)) ∧
      (SeedUnbeaten mode seeds ↔ SeedsAgree mode seeds) ∧
      (CandidateUnbeaten mode acceptance ↔ CandidatesAgree mode acceptance) := by
  obtain ⟨best, hbest, hparams⟩ := evaluateSeedRun_bestParams hrun hcompleted
  exact ⟨⟨best, hbest, hparams, windowUnbeaten_iff hbest⟩, seedUnbeaten_iff mode seeds,
    candidateUnbeaten_iff mode acceptance⟩

/-! ## The deeper drawdown and the losing seed -/

/-- A day of January 2020. -/
def januaryDay (day : ℕ) : IsoTimestamps.Timestamp where
  year := 2020
  month := 1
  day := day % 31 + 1
  hour := 0
  minute := 0
  second := 0
  microsecond := 0
  offset := none
  year_valid := by decide
  month_valid := IsoTimestamps.Timestamp.january_valid
  day_valid := ⟨by omega, show day % 31 + 1 ≤ 31 by omega⟩
  time_valid := IsoTimestamps.Timestamp.midnight_valid
  microsecond_valid := by decide

/-- A day that was tested with this drawdown, with the parameters found on the day before. -/
def drawdownWindow (index : ℕ) (drawdown : ℚ) : WindowResult ℚ where
  index
  trainStart := januaryDay index
  trainEnd := januaryDay (index + 1)
  testStart := januaryDay (index + 1)
  testEnd := januaryDay (index + 2)
  status := .completed
  bestParams := [("period", .int (10 * (index + 1)))]
  oosMetrics := some [("total_trades", .int 10), ("max_drawdown_pct", .float drawdown)]

def drawdownWindows (first second : ℚ) : WalkForwardResult ℚ where
  windows := [drawdownWindow 0 first, drawdownWindow 1 second]
  oosEquityCurve := []
  oosMetrics := [("total_trades", .int 20), ("max_drawdown_pct", .float second)]
  efficiency := none

def valuedSeed (seed : ℤ) (objective : ℚ) : SeedRun where
  seed
  status := .completed
  objectiveValue := some objective

theorem champions_follow_objective_iff_drawdown :
    ∃ record, evaluateSeedRun .minimizeDrawdown 42 (.ok (drawdownWindows (1 / 20) (1 / 20))) =
        .ok record ∧ record.status = .completed ∧
      (SeedUnbeaten .minimizeDrawdown [valuedSeed 42 1, valuedSeed 43 2] ↔
        SeedsAgree .minimizeDrawdown [valuedSeed 42 1, valuedSeed 43 2]) := by
  have hstatus : (evaluateSeedRun .minimizeDrawdown 42
      (.ok (drawdownWindows (1 / 20) (1 / 20)))).toOption.map (fun record => record.status) =
      some .completed := by decide +kernel
  obtain ⟨record, hrecord, hcompleted⟩ := Option.map_eq_some_iff.mp hstatus
  have hrun := eq_ok_of_toOption hrecord
  exact ⟨record, hrun, hcompleted, (champions_follow_objective_iff hrun hcompleted _ []).2.1⟩

/-- With the drawdown to be minimized the window with the deeper one is chosen, and a seed that lost
is chosen before one that broke even. -/
theorem worse_champions_chosen :
    (∃ params, bestWindow .minimizeDrawdown none (drawdownWindows (1 / 20) (1 / 5)).windows =
        .ok (some (1 / 5, params)) ∧
      ¬ WindowUnbeaten .minimizeDrawdown (drawdownWindows (1 / 20) (1 / 5)).windows
        (some (1 / 5, params))) ∧
    selectChampionSeed [valuedSeed 42 (-1), valuedSeed 43 0] = some (valuedSeed 42 (-1)) ∧
      ¬ SeedUnbeaten .maximizeSharpe [valuedSeed 42 (-1), valuedSeed 43 0] := by
  have hobjective : (bestWindow .minimizeDrawdown none
      (drawdownWindows (1 / 20) (1 / 5)).windows).toOption.map (Option.map Prod.fst) =
      some (some (1 / 5)) := by decide +kernel
  obtain ⟨best, hbest, hfst⟩ := Option.map_eq_some_iff.mp hobjective
  obtain ⟨⟨score, params⟩, rfl, rfl⟩ := Option.map_eq_some_iff.mp hfst
  refine ⟨⟨params, eq_ok_of_toOption hbest, fun h => ?_⟩, rfl, fun h => ?_⟩
  · refine h.unbeaten (drawdownWindow 0 (1 / 20)) List.mem_cons_self (1 / 20)
      ⟨_, rfl, rfl, rfl⟩ (WithBot.coe_lt_coe.mpr ?_)
    norm_num [robustnessScore]
  · obtain ⟨c, hc, hbeats⟩ := h.unbeaten (valuedSeed 43 0) (by simp [completedSeeds, valuedSeed])
    obtain rfl : valuedSeed 42 (-1) = c := Option.some.inj hc
    refine hbeats (WithBot.coe_lt_coe.mpr ?_)
    decide

end QBackend.Research
