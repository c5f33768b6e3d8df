import QBackend.LatentCache
import QBackend.OrderedSeries
import Mathlib.Data.Int.ModEq
import Mathlib.Data.List.Dedup
import Mathlib.Tactic.Linarith

/-!
# Exogenous context

`exogenous_context.py`: the closes of another instrument attached to the rows of a primary frame. A
source is a series of bars by their open times. It may be resampled to a coarser timeframe, whose
bars carry the end of their bucket as their time. The join takes, for each row, the last bar whose
time, moved by the duration of a bar and by the lag, is not after the row. The columns that the
recipes compute from these closes are left out.
-/

namespace QBackend.Exogenous

open Execution (Time)
open FallibleSteps NeuralFeatures OrderedSeries

/-! ## Configuration -/

inductive ExogenousRecipe where
  | close | return | returnZscore | rollingCorr | relativeStrength | volRegime | directionRegime
  deriving DecidableEq, Repr

inductive ResamplingRule where
  | none | lastCompleted
  deriving DecidableEq, Repr

structure ExogenousSeriesConfig (F : Type) where
  symbol : String
  sourceTimeframe : String
  resamplingRule : ResamplingRule
  targetTimeframe : Option String
  availabilityLagBars : ℤ
  recipes : List ExogenousRecipe
  lookbackBars : ℤ
  corrWindow : ℤ
  volWindow : ℤ
  volPercentileWindow : ℤ
  volRegimeThreshold : F
  deriving DecidableEq, Repr

inductive ExogenousError where
  | unsupportedTimeframe (timeframe : String)
  | cannotResample (source target : String)
  | noData (symbol timeframe : String)
  | gap (symbol timeframe : String)
  | noOverlap (symbol : String)
  | noObservations (symbol : String)
  | negativeLag
  | noTargetTimeframe
  | load (text : String)
  deriving DecidableEq, Repr

/-! ## Series -/

/-- Bars by their times; no two have the same. -/
structure Series (F : Type) where
  bars : List (Bar F)
  ordered : Ordered Bar.time bars

def tfMinutes : String → Option ℤ
  | "M1" => some 1
  | "M5" => some 5
  | "M15" => some 15
  | "H1" => some 60
  | "D1" => some 1440
  | _ => none

/-- The duration of a bar in microseconds. -/
def duration (timeframe : String) : ℤ := (tfMinutes timeframe.toUpper).getD 0 * 60000000

def barDuration (timeframe : String) : Except ExogenousError ℤ :=
  match tfMinutes timeframe.toUpper with
  | some _ => .ok (duration timeframe)
  | none => .error (.unsupportedTimeframe timeframe)

theorem barDuration_ok {timeframe : String} {d : ℤ} (h : barDuration timeframe = .ok d) :
    d = duration timeframe ∧ 0 < d := by
  unfold barDuration at h
  split at h
  next minutes hminutes =>
    cases h
    refine ⟨rfl, ?_⟩
    have hpos : 0 < minutes := by
      unfold tfMinutes at hminutes
      split at hminutes <;> cases hminutes <;> decide
    rw [duration, hminutes, Option.getD_some]
    omega
  next => cases h

/-! ## Resampling -/

/-- The end of the bucket of a close time: the first whole multiple not before it. -/
def bucketEnd (target closeTime : ℤ) : ℤ := closeTime + -closeTime % target

section Buckets

variable {target c c' : ℤ} (hpos : 0 < target)

theorem dvd_bucketEnd (target c : ℤ) : target ∣ bucketEnd target c := by
  have h := Int.emod_add_mul_ediv (-c) target
  refine ⟨-(-c / target), ?_⟩
  unfold bucketEnd
  linarith

include hpos

theorem le_bucketEnd (c : ℤ) : c ≤ bucketEnd target c := by
  have h := Int.emod_nonneg (-c) hpos.ne'
  unfold bucketEnd
  omega

theorem bucketEnd_lt (c : ℤ) : bucketEnd target c < c + target := by
  have h := Int.emod_lt_of_pos (-c) hpos
  unfold bucketEnd
  omega

omit hpos in
/-- Multiples of the target that lie less than a bar apart are equal. -/
theorem eq_of_dvd_of_near (hc : target ∣ c) (hc' : target ∣ c') (hlt : c < c' + target)
    (hlt' : c' < c + target) : c = c' := by
  have hdvd : target ∣ c - c' := Int.dvd_sub hc hc'
  have habs : |c - c'| < target := abs_lt.mpr ⟨by omega, by omega⟩
  have hzero := Int.eq_zero_of_abs_lt_dvd hdvd habs
  omega

theorem bucketEnd_mono (h : c ≤ c') : bucketEnd target c ≤ bucketEnd target c' := by
  by_contra hlt
  push Not at hlt
  have hle := le_bucketEnd hpos c'
  have hlt' := bucketEnd_lt hpos c
  have heq := eq_of_dvd_of_near (dvd_bucketEnd target c) (dvd_bucketEnd target c')
    (by omega) (by omega)
  omega

end Buckets

section Resample

variable {F : Type} [Max F] [Min F] [Add F] [Zero F]

/-- The bar of a bucket with the end of the bucket as its time; an empty bucket has none. -/
def aggregate (label : Time) : List (Bar F) → Option (Bar F)
  | [] => none
  | first :: rest =>
    some {
      time := label
      openPrice := first.openPrice
      high := rest.foldl (fun high b => max high b.high) first.high
      low := rest.foldl (fun low b => min low b.low) first.low
      close := (rest.getLastD first).close
      volume := ((first :: rest).map Bar.volume).sum }

/-- The ends of the buckets that have bars, in order. -/
def bucketEnds (source target : ℤ) (bars : List (Bar F)) : List Time :=
  (bars.map fun b => bucketEnd target (b.time + source)).dedup

def bucket (source target : ℤ) (bars : List (Bar F)) (label : Time) : List (Bar F) :=
  bars.filter fun b => bucketEnd target (b.time + source) = label

def resampleBars (source target : ℤ) (bars : List (Bar F)) : List (Bar F) :=
  (bucketEnds source target bars).filterMap fun label =>
    aggregate label (bucket source target bars label)

variable {source target : ℤ} {bars bars' : List (Bar F)} {label limit : Time} {b : Bar F}

theorem aggregate_time (h : aggregate label bars = some b) : b.time = label := by
  cases bars with
  | nil => cases h
  | cons first rest => exact (Option.some.inj h) ▸ rfl

theorem mem_resampleBars :
    b ∈ resampleBars source target bars ↔
      aggregate b.time (bucket source target bars b.time) = some b := by
  unfold resampleBars
  rw [List.mem_filterMap]
  constructor
  · rintro ⟨label, -, hbar⟩
    rw [aggregate_time hbar]
    exact hbar
  · intro hbar
    refine ⟨b.time, ?_, hbar⟩
    obtain ⟨first, hfirst⟩ : ∃ first, first ∈ bucket source target bars b.time := by
      cases hbucket : bucket source target bars b.time with
      | nil =>
        rw [hbucket] at hbar
        cases hbar
      | cons first rest => exact ⟨first, List.mem_cons_self⟩
    obtain ⟨hmem, hlabel⟩ := List.mem_filter.mp hfirst
    rw [bucketEnds, List.mem_dedup]
    exact List.mem_map.mpr ⟨first, hmem, of_decide_eq_true hlabel⟩

theorem dvd_resampleBars (h : b ∈ resampleBars source target bars) : target ∣ b.time := by
  obtain ⟨label, hlabel, hbar⟩ := List.mem_filterMap.mp h
  rw [bucketEnds, List.mem_dedup] at hlabel
  obtain ⟨first, -, hend⟩ := List.mem_map.mp hlabel
  rw [aggregate_time hbar, ← hend]
  exact dvd_bucketEnd target _

theorem resampleBars_ordered (hpos : 0 < target) (h : Ordered Bar.time bars) :
    Ordered Bar.time (resampleBars source target bars) := by
  have hends : (bucketEnds source target bars).Pairwise (· < ·) := by
    have hle : (bars.map fun b => bucketEnd target (b.time + source)).Pairwise (· ≤ ·) := by
      rw [List.pairwise_map]
      exact h.imp fun hlt => bucketEnd_mono hpos (Int.add_le_add_right hlt.le source)
    have hnodup : (bucketEnds source target bars).Nodup := List.nodup_dedup _
    refine ((hle.sublist (List.dedup_sublist _)).and hnodup).imp ?_
    rintro a c ⟨hac, hne⟩
    exact lt_of_le_of_ne hac hne
  unfold resampleBars Ordered
  rw [List.pairwise_filterMap]
  apply hends.imp
  intro a c hac b hb b' hb'
  rw [aggregate_time hb, aggregate_time hb']
  exact hac

theorem resampleBars_upTo (hpos : 0 < target) (h : Ordered Bar.time bars)
    (h' : Ordered Bar.time bars')
    (hsame : (bars.filter fun b => b.time + source ≤ limit) =
      bars'.filter fun b => b.time + source ≤ limit) :
    ((resampleBars source target bars).filter fun b => b.time ≤ limit) =
      (resampleBars source target bars').filter fun b => b.time ≤ limit := by
  have hbucket : ∀ (bars : List (Bar F)) (label : Time), label ≤ limit →
      bucket source target bars label =
        bucket source target (bars.filter fun b => b.time + source ≤ limit) label := by
    intro bars label hlabel
    unfold bucket
    rw [List.filter_filter]
    apply List.filter_congr
    intro b _
    have hle := le_bucketEnd hpos (b.time + source)
    by_cases hend : bucketEnd target (b.time + source) = label
    · have hclose : b.time + source ≤ limit := hle.trans (hend.le.trans hlabel)
      simp [hend, hclose]
    · simp [hend]
  apply ((resampleBars_ordered hpos h).filter _).eq_of_mem_iff
    ((resampleBars_ordered hpos h').filter _)
  intro b
  simp only [List.mem_filter, decide_eq_true_eq, mem_resampleBars]
  refine and_congr_left fun hb => ?_
  rw [hbucket bars b.time hb, hbucket bars' b.time hb, hsame]

end Resample

/-! ## The join -/

section Align

variable {F : Type} [Max F] [Min F] [Add F] [Zero F]

def resampleCompletedBars (frame : Series F) (sourceTimeframe targetTimeframe : String) :
    Except ExogenousError (Series F) :=
  if sourceTimeframe.toUpper = targetTimeframe.toUpper then .ok frame
  else
    match barDuration sourceTimeframe, h : barDuration targetTimeframe with
    | .error e, _ => .error e
    | .ok _, .error e => .error e
    | .ok source, .ok target =>
      if source ≥ target then .error (.cannotResample sourceTimeframe targetTimeframe)
      else .ok ⟨resampleBars source target frame.bars,
        resampleBars_ordered (barDuration_ok h).2 frame.ordered⟩

/-- `merge_asof` backward: the value of the last row that is not after the time. -/
def mergeAsof (right : List (Time × F)) (t : Time) : Option F :=
  (right.filter fun row => row.1 ≤ t).getLast?.map Prod.snd

def sortedIndex (index : List Time) : List Time := index.mergeSort fun s t => decide (s ≤ t)

def alignExogenousClose (primaryIndex : List Time) (exog : Series F)
    (alignedTimeframe primaryTimeframe : String) (availabilityLagBars : ℤ) :
    Except ExogenousError (List (Option F)) := do
  ensure (0 ≤ availabilityLagBars) .negativeLag
  let bar ← barDuration alignedTimeframe
  let primaryBar ← barDuration primaryTimeframe
  let right := exog.bars.map fun b => (b.time + bar + availabilityLagBars * primaryBar, b.close)
  return (sortedIndex primaryIndex).map (mergeAsof right)

/-- No data, or a gap of more than 31 days. -/
def preflightSourceContinuity (frame : Series F) (config : ExogenousSeriesConfig F) :
    Except ExogenousError Unit := do
  ensure (frame.bars ≠ []) (.noData config.symbol config.sourceTimeframe)
  ensure (∀ pair ∈ frame.bars.zip frame.bars.tail, pair.2.time - pair.1.time ≤ 31 * 86400000000)
    (.gap config.symbol config.sourceTimeframe)

def preflightOverlap (primaryIndex : List Time) (source : Series F) (aligned : List (Option F))
    (config : ExogenousSeriesConfig F) : Except ExogenousError Unit := do
  let bar ← barDuration config.sourceTimeframe
  ensure (∀ first ∈ (sortedIndex primaryIndex).head?, ∀ last ∈ source.bars.getLast?,
    first ≤ last.time + bar) (.noOverlap config.symbol)
  ensure (∀ last ∈ (sortedIndex primaryIndex).getLast?, ∀ first ∈ source.bars.head?,
    first.time ≤ last) (.noOverlap config.symbol)
  ensure (aligned.any Option.isSome) (.noObservations config.symbol)

/-- The frame that is joined, with its timeframe. -/
def alignedFrame (source : Series F) (config : ExogenousSeriesConfig F) :
    Except ExogenousError (Series F × String) :=
  match config.resamplingRule with
  | .none => .ok (source, config.sourceTimeframe)
  | .lastCompleted =>
    match config.targetTimeframe with
    | none => .error .noTargetTimeframe
    | some target => do
      let working ← resampleCompletedBars source config.sourceTimeframe target
      return (working, target)

/-- One series of `attach_exogenous_context`: the closes for the rows of the sorted frame. -/
def attachClose (primaryIndex : List Time) (primaryTimeframe : String) (source : Series F)
    (config : ExogenousSeriesConfig F) : Except ExogenousError (List (Option F)) := do
  preflightSourceContinuity source config
  let (working, alignedTimeframe) ← alignedFrame source config
  let aligned ← alignExogenousClose primaryIndex working alignedTimeframe primaryTimeframe
    config.availabilityLagBars
  preflightOverlap primaryIndex source aligned config
  return aligned

/-! ## What the closes should be -/

/-- The timeframe to which bars are resampled, where it is another one. -/
def coarserTimeframe (config : ExogenousSeriesConfig F) : Option String :=
  match config.resamplingRule, config.targetTimeframe with
  | .lastCompleted, some target =>
    if config.sourceTimeframe.toUpper = target.toUpper then none else some target
  | _, _ => none

/-- The bars of the aligned timeframe: when they close, and at what. -/
def closedBars (config : ExogenousSeriesConfig F) (source : Series F) : List (Time × F) :=
  match coarserTimeframe config with
  | none => source.bars.map fun b => (b.time + duration config.sourceTimeframe, b.close)
  | some target =>
    (resampleBars (duration config.sourceTimeframe) (duration target) source.bars).map fun b =>
      (b.time, b.close)

/-- How long after its close a bar is available. -/
def lag (config : ExogenousSeriesConfig F) (primaryTimeframe : String) : ℤ :=
  config.availabilityLagBars * duration primaryTimeframe

/-- Each row has the close of the latest bar that is available at its open time. -/
def Exact (primaryIndex : List Time) (primaryTimeframe : String) (source : Series F)
    (config : ExogenousSeriesConfig F) (aligned : List (Option F)) : Prop :=
  aligned = (sortedIndex primaryIndex).map fun t =>
    ((closedBars config source).filter fun bar =>
      bar.1 + lag config primaryTimeframe ≤ t).getLast?.map Prod.snd

/-- A source with the same bars up to those that are available at the open time of a row gives the
row the same close. -/
def Causal (primaryIndex : List Time) (primaryTimeframe : String) (source : Series F)
    (config : ExogenousSeriesConfig F) (aligned : List (Option F)) : Prop :=
  ∀ (source' : Series F) (aligned' : List (Option F)),
    attachClose primaryIndex primaryTimeframe source' config = .ok aligned' →
    ∀ (i : ℕ) (t : Time), (sortedIndex primaryIndex)[i]? = some t →
    (source.bars.filter fun b =>
      b.time + duration config.sourceTimeframe + lag config primaryTimeframe ≤ t) =
    (source'.bars.filter fun b =>
      b.time + duration config.sourceTimeframe + lag config primaryTimeframe ≤ t) →
    aligned[i]? = aligned'[i]?

/-! ## The join is causal, and late by a bar where bars are resampled -/

section Join

variable {closed : List (ℤ × F)} {row : ℤ × F} {t u : ℤ}

omit [Max F] [Min F] [Add F] [Zero F]

theorem mergeAsof_shift (closed : List (ℤ × F)) (k t : ℤ) :
    mergeAsof (closed.map fun bar => (bar.1 + k, bar.2)) t = mergeAsof closed (t - k) := by
  unfold mergeAsof
  rw [List.filter_map, List.getLast?_map, Option.map_map]
  have hsame : (closed.filter fun bar => bar.1 + k ≤ t) =
      closed.filter fun bar => bar.1 ≤ t - k := by
    apply List.filter_congr
    intro bar _
    exact decide_eq_decide.mpr (le_sub_iff_add_le).symm
  exact congrArg (fun bars => Option.map Prod.snd (List.getLast? bars)) hsame

/-- The latest of the rows that are not after a time. -/
theorem mergeAsof_eq (h : Ordered Prod.fst closed) (hrow : row ∈ closed) (hle : row.1 ≤ t)
    (hlatest : ∀ r ∈ closed, r.1 ≤ t → r.1 ≤ row.1) : mergeAsof closed t = some row.2 := by
  have hmem : row ∈ closed.filter fun r => r.1 ≤ t :=
    List.mem_filter.mpr ⟨hrow, decide_eq_true hle⟩
  obtain ⟨last, hlast⟩ : ∃ last, (closed.filter fun r => r.1 ≤ t).getLast? = some last := by
    cases hnone : (closed.filter fun r => r.1 ≤ t).getLast? with
    | none =>
      rw [List.getLast?_eq_none_iff] at hnone
      rw [hnone] at hmem
      cases hmem
    | some last => exact ⟨last, rfl⟩
  obtain ⟨before, hsplit⟩ := List.getLast?_eq_some_iff.mp hlast
  have hlastMem : last ∈ closed.filter fun r => r.1 ≤ t := List.mem_of_getLast? hlast
  obtain ⟨hlastIn, hlastLe⟩ := List.mem_filter.mp hlastMem
  have hordered := h.filter fun r => r.1 ≤ t
  have hge : row.1 ≤ last.1 := by
    rw [hsplit] at hmem hordered
    obtain hbefore | hself := List.mem_append.mp hmem
    · exact ((List.pairwise_append.mp hordered).2.2 row hbefore last List.mem_cons_self).le
    · rw [List.mem_singleton.mp hself]
  have heq : last = row := h.eq_of_key hlastIn hrow
    (le_antisymm (hlatest last hlastIn (of_decide_eq_true hlastLe)) hge)
  unfold mergeAsof
  rw [hlast, heq]
  rfl

/-- Where times are multiples of a bar, the join a bar earlier gives the same exactly where the bar
that closes in between has the close of the one before. -/
theorem mergeAsof_sub_eq_iff (h : Ordered Prod.fst closed) {target : ℤ} (hpos : 0 < target)
    (hdvd : ∀ r ∈ closed, target ∣ r.1) :
    mergeAsof closed (u - target) = mergeAsof closed u ↔
      ∀ r ∈ closed, u - target < r.1 → r.1 ≤ u → mergeAsof closed (u - target) = some r.2 := by
  have hfresh : ∀ r ∈ closed, u - target < r.1 → r.1 ≤ u → mergeAsof closed u = some r.2 := by
    intro r hr hlo hhi
    refine mergeAsof_eq h hr hhi fun s hs hsu => ?_
    by_contra hlt
    have heq := eq_of_dvd_of_near (hdvd s hs) (hdvd r hr) (by omega) (by omega)
    omega
  constructor
  · intro heq r hr hlo hhi
    rw [heq, hfresh r hr hlo hhi]
  · intro hall
    by_cases hsome : ∃ r ∈ closed, u - target < r.1 ∧ r.1 ≤ u
    · obtain ⟨r, hr, hlo, hhi⟩ := hsome
      rw [hall r hr hlo hhi, hfresh r hr hlo hhi]
    · push Not at hsome
      unfold mergeAsof
      congr 2
      apply List.filter_congr
      intro r hr
      refine decide_eq_decide.mpr ⟨fun hle => hle.trans (sub_le_self u hpos.le), fun hle => ?_⟩
      by_contra hlt
      exact absurd hle (not_le.mpr (hsome r hr (not_le.mp hlt)))

end Join

section Attach

variable {primaryIndex : List Time} {primaryTimeframe : String} {source : Series F}
  {config : ExogenousSeriesConfig F} {aligned : List (Option F)}

/-- What the join finds: the closed bars, one bar later where they are resampled. -/
def joined (config : ExogenousSeriesConfig F) (primaryTimeframe : String) (source : Series F)
    (t : Time) : Option F :=
  match coarserTimeframe config with
  | none => mergeAsof (closedBars config source) (t - lag config primaryTimeframe)
  | some target =>
    mergeAsof (closedBars config source) (t - lag config primaryTimeframe - duration target)

omit [Max F] [Min F] [Add F] [Zero F] in
theorem alignExogenousClose_ok {exog : Series F} {timeframe : String} {lagBars : ℤ}
    (h : alignExogenousClose primaryIndex exog timeframe primaryTimeframe lagBars = .ok aligned) :
    aligned = (sortedIndex primaryIndex).map
      (mergeAsof (exog.bars.map fun b =>
        (b.time + duration timeframe + lagBars * duration primaryTimeframe, b.close))) := by
  obtain ⟨_, -, h⟩ := bind_eq_ok.mp h
  obtain ⟨bar, hbar, h⟩ := bind_eq_ok.mp h
  obtain ⟨primaryBar, hprimary, h⟩ := bind_eq_ok.mp h
  rw [(barDuration_ok hbar).1, (barDuration_ok hprimary).1] at h
  exact (pure_eq_ok.mp h).symm

theorem resampleCompletedBars_ok {working : Series F} {target : String}
    (hne : config.sourceTimeframe.toUpper ≠ target.toUpper)
    (h : resampleCompletedBars source config.sourceTimeframe target = .ok working) :
    0 < duration target ∧
      working.bars =
        resampleBars (duration config.sourceTimeframe) (duration target) source.bars := by
  unfold resampleCompletedBars at h
  rw [if_neg hne] at h
  split at h
  · cases h
  · cases h
  next sourceBar targetBar hsource htarget =>
    split at h
    · cases h
    · cases h
      obtain ⟨hs, -⟩ := barDuration_ok hsource
      obtain ⟨ht, hpos⟩ := barDuration_ok htarget
      refine ⟨ht ▸ hpos, ?_⟩
      show resampleBars sourceBar targetBar source.bars = _
      rw [hs, ht]

omit [Max F] [Min F] [Add F] [Zero F] in
theorem mergeAsof_bars (bars : List (Bar F)) (d l : ℤ) (t : Time) :
    mergeAsof (bars.map fun b => (b.time + d + l, b.close)) t =
      mergeAsof (bars.map fun b => (b.time + d, b.close)) (t - l) := by
  rw [← mergeAsof_shift, List.map_map]
  rfl

omit [Max F] [Min F] [Add F] [Zero F] in
theorem mergeAsof_labels (bars : List (Bar F)) (d l : ℤ) (t : Time) :
    mergeAsof (bars.map fun b => (b.time + d + l, b.close)) t =
      mergeAsof (bars.map fun b => (b.time, b.close)) (t - l - d) := by
  have hshift := mergeAsof_shift (bars.map fun b => (b.time, b.close)) d (t - l)
  rw [List.map_map] at hshift
  rw [mergeAsof_bars]
  exact hshift

theorem alignedFrame_ok {working : Series F} {timeframe : String}
    (h : alignedFrame source config = .ok (working, timeframe)) (l : ℤ) (t : Time) :
    (∀ target ∈ coarserTimeframe config, 0 < duration target) ∧
      mergeAsof (working.bars.map fun b => (b.time + duration timeframe + l, b.close)) t =
        match coarserTimeframe config with
        | none => mergeAsof (closedBars config source) (t - l)
        | some target => mergeAsof (closedBars config source) (t - l - duration target) := by
  unfold alignedFrame at h
  unfold closedBars
  split at h
  next hrule =>
    cases h
    have hcoarser : coarserTimeframe config = none := by
      unfold coarserTimeframe
      rw [hrule]
    rw [hcoarser]
    exact ⟨by simp, mergeAsof_bars _ _ _ _⟩
  next hrule =>
    split at h
    · cases h
    next target htarget =>
      obtain ⟨resampled, hresampled, h⟩ := bind_eq_ok.mp h
      cases pure_eq_ok.mp h
      by_cases hsame : config.sourceTimeframe.toUpper = timeframe.toUpper
      · have hcoarser : coarserTimeframe config = none := by
          unfold coarserTimeframe
          rw [hrule, htarget]
          exact if_pos hsame
        have hsource : working = source := by
          unfold resampleCompletedBars at hresampled
          rw [if_pos hsame] at hresampled
          exact (Except.ok.inj hresampled).symm
        have hduration : duration timeframe = duration config.sourceTimeframe := by
          rw [duration, duration, hsame]
        rw [hcoarser, hsource, hduration]
        exact ⟨by simp, mergeAsof_bars _ _ _ _⟩
      · have hcoarser : coarserTimeframe config = some timeframe := by
          unfold coarserTimeframe
          rw [hrule, htarget]
          exact if_neg hsame
        obtain ⟨hpos, hbars⟩ := resampleCompletedBars_ok hsame hresampled
        rw [hcoarser, hbars]
        refine ⟨fun other hother => ?_, mergeAsof_labels _ _ _ _⟩
        cases hother
        exact hpos

theorem attachClose_ok
    (h : attachClose primaryIndex primaryTimeframe source config = .ok aligned) :
    (∀ target ∈ coarserTimeframe config, 0 < duration target) ∧
      aligned = (sortedIndex primaryIndex).map (joined config primaryTimeframe source) := by
  obtain ⟨_, -, h⟩ := bind_eq_ok.mp h
  obtain ⟨⟨working, timeframe⟩, hframe, h⟩ := bind_eq_ok.mp h
  obtain ⟨closes, hcloses, h⟩ := bind_eq_ok.mp h
  obtain ⟨_, -, h⟩ := bind_eq_ok.mp h
  cases pure_eq_ok.mp h
  refine ⟨(alignedFrame_ok hframe 0 0).1, ?_⟩
  rw [alignExogenousClose_ok hcloses]
  apply List.map_congr_left
  intro t _
  exact (alignedFrame_ok hframe (lag config primaryTimeframe) t).2

omit [Max F] [Min F] [Add F] [Zero F] in
theorem mergeAsof_map (bars : List (Bar F)) (f : Bar F → Time × F) (u : Time) :
    mergeAsof (bars.map f) u = (bars.filter fun b => (f b).1 ≤ u).getLast?.map fun b => (f b).2 := by
  unfold mergeAsof
  rw [List.filter_map, List.getLast?_map, Option.map_map]
  rfl

omit [Max F] [Min F] [Add F] [Zero F] in
theorem filter_eq_of_le {bars bars' : List (Bar F)} {d limit limit' : ℤ} (hle : limit' ≤ limit)
    (h : (bars.filter fun b => b.time + d ≤ limit) = bars'.filter fun b => b.time + d ≤ limit) :
    (bars.filter fun b => b.time + d ≤ limit') = bars'.filter fun b => b.time + d ≤ limit' := by
  have htwice : ∀ bars : List (Bar F), (bars.filter fun b => b.time + d ≤ limit') =
      (bars.filter fun b => b.time + d ≤ limit).filter fun b => b.time + d ≤ limit' := by
    intro bars
    rw [List.filter_filter]
    apply List.filter_congr
    intro b _
    by_cases hb : b.time + d ≤ limit'
    · simp [hb, hb.trans hle]
    · simp [hb]
  rw [htwice bars, htwice bars', h]

theorem joined_congr {source' : Series F} {t : Time}
    (hpos : ∀ target ∈ coarserTimeframe config, 0 < duration target)
    (h : (source.bars.filter fun b =>
        b.time + duration config.sourceTimeframe + lag config primaryTimeframe ≤ t) =
      source'.bars.filter fun b =>
        b.time + duration config.sourceTimeframe + lag config primaryTimeframe ≤ t) :
    joined config primaryTimeframe source t = joined config primaryTimeframe source' t := by
  have havailable : (source.bars.filter fun b =>
        b.time + duration config.sourceTimeframe ≤ t - lag config primaryTimeframe) =
      source'.bars.filter fun b =>
        b.time + duration config.sourceTimeframe ≤ t - lag config primaryTimeframe := by
    simpa only [le_sub_iff_add_le] using h
  unfold joined closedBars
  cases hcoarser : coarserTimeframe config with
  | none =>
    simp only [mergeAsof_map]
    rw [havailable]
  | some target =>
    have htarget := hpos target (by rw [hcoarser]; rfl)
    simp only [mergeAsof_map]
    rw [resampleBars_upTo htarget source.ordered source'.ordered
      (filter_eq_of_le (sub_le_self _ htarget.le) havailable)]

theorem attachClose_causal
    (h : attachClose primaryIndex primaryTimeframe source config = .ok aligned) :
    Causal primaryIndex primaryTimeframe source config aligned := by
  obtain ⟨hpos, rfl⟩ := attachClose_ok h
  intro source' aligned' h' i t ht hsame
  obtain ⟨-, rfl⟩ := attachClose_ok h'
  rw [List.getElem?_map, List.getElem?_map, ht, Option.map_some, Option.map_some,
    joined_congr hpos hsame]

theorem closedBars_ordered (source : Series F) {target : String}
    (hcoarser : coarserTimeframe config = some target)
    (hpos : 0 < duration target) : Ordered Prod.fst (closedBars config source) := by
  unfold closedBars Ordered
  rw [hcoarser, List.pairwise_map]
  exact resampleBars_ordered hpos source.ordered

theorem dvd_closedBars {target : String} (hcoarser : coarserTimeframe config = some target)
    {bar : Time × F} (h : bar ∈ closedBars config source) : duration target ∣ bar.1 := by
  unfold closedBars at h
  rw [hcoarser] at h
  obtain ⟨b, hb, rfl⟩ := List.mem_map.mp h
  exact dvd_resampleBars hb

/-- No bar to which the source is resampled closes in the last bar before a row is due, unless with
the close of the bar before. -/
def NothingFresh (primaryIndex : List Time) (primaryTimeframe : String) (source : Series F)
    (config : ExogenousSeriesConfig F) (target : String) : Prop :=
  ∀ t ∈ primaryIndex, ∀ bar ∈ closedBars config source,
    t - lag config primaryTimeframe - duration target < bar.1 →
    bar.1 ≤ t - lag config primaryTimeframe →
    mergeAsof (closedBars config source)
      (t - lag config primaryTimeframe - duration target) = some bar.2

theorem exact_iff (h : attachClose primaryIndex primaryTimeframe source config = .ok aligned) :
    Exact primaryIndex primaryTimeframe source config aligned ↔
      ∀ target ∈ coarserTimeframe config,
        NothingFresh primaryIndex primaryTimeframe source config target := by
  obtain ⟨hpos, rfl⟩ := attachClose_ok h
  have hspec : ∀ t : Time, ((closedBars config source).filter fun bar =>
      bar.1 + lag config primaryTimeframe ≤ t).getLast?.map Prod.snd =
        mergeAsof (closedBars config source) (t - lag config primaryTimeframe) := by
    intro t
    unfold mergeAsof
    simp only [le_sub_iff_add_le]
  unfold Exact
  simp only [hspec, List.map_inj_left]
  have hmem : ∀ t, t ∈ sortedIndex primaryIndex ↔ t ∈ primaryIndex := fun t =>
    List.mem_mergeSort
  simp only [hmem]
  unfold joined
  cases hcoarser : coarserTimeframe config with
  | none => simp
  | some target =>
    have htarget := hpos target (by rw [hcoarser]; rfl)
    have hiff := fun t : Time => mergeAsof_sub_eq_iff (u := t - lag config primaryTimeframe)
      (closedBars_ordered source hcoarser htarget) htarget
      fun _ hr => dvd_closedBars hcoarser hr
    simp only [Option.mem_def, Option.some.injEq, forall_eq', NothingFresh]
    exact forall_congr' fun t => imp_congr_right fun _ => hiff t

/-- What is attached is always causal, and it is the close of the latest available bar exactly where
bars are not resampled, or no bar with a new close is missed because it comes a bar late. -/
theorem attached_exact_causal_iff
    (h : attachClose primaryIndex primaryTimeframe source config = .ok aligned) :
    (Exact primaryIndex primaryTimeframe source config aligned ∧
        Causal primaryIndex primaryTimeframe source config aligned) ↔
      ∀ target ∈ coarserTimeframe config,
        NothingFresh primaryIndex primaryTimeframe source config target := by
  rw [and_iff_left (attachClose_causal h)]
  exact exact_iff h

end Attach

end Align

/-! ## Quarters of an hour in hours -/

def hour : ℤ := 3600000000

/-- Eight bars of a quarter of an hour that close at 1 to 8. -/
def quarters : Series ℕ where
  bars := (List.range 8).map fun (i : ℕ) => ⟨(i : ℤ) * 900000000, i + 1, i + 1, i + 1, i + 1, 1⟩
  ordered := by
    unfold Ordered
    decide +kernel

def quartersConfig (rule : ResamplingRule) (target : Option String) : ExogenousSeriesConfig ℕ where
  symbol := "WDO$"
  sourceTimeframe := "M15"
  resamplingRule := rule
  targetTimeframe := target
  availabilityLagBars := 0
  recipes := [.close]
  lookbackBars := 8
  corrWindow := 20
  volWindow := 20
  volPercentileWindow := 60
  volRegimeThreshold := 1

def hourIndex : List Time := [0, hour, 2 * hour]

theorem sortedIndex_hourIndex : sortedIndex hourIndex = hourIndex :=
  List.mergeSort_of_pairwise (by decide)

theorem attachClose_quarters :
    attachClose hourIndex "H1" quarters (quartersConfig .none none) =
      .ok [none, some 4, some 8] := by
  apply eq_ok_of_toOption
  unfold attachClose alignExogenousClose preflightOverlap
  rw [sortedIndex_hourIndex]
  decide +kernel

/-- Without resampling the rows have the close of the quarter before them. -/
theorem quarters_exact_causal :
    attachClose hourIndex "H1" quarters (quartersConfig .none none) =
        .ok [none, some 4, some 8] ∧
      Exact hourIndex "H1" quarters (quartersConfig .none none) [none, some 4, some 8] ∧
      Causal hourIndex "H1" quarters (quartersConfig .none none) [none, some 4, some 8] :=
  ⟨attachClose_quarters, (attached_exact_causal_iff attachClose_quarters).mpr fun _ htarget => by
    cases htarget⟩

/-- Resampled to hours, the bar that closes at two o'clock is not there at two o'clock. -/
theorem quarters_resampled_late :
    attachClose hourIndex "H1" quarters (quartersConfig .lastCompleted (some "H1")) =
        .ok [none, none, some 4] ∧
      ¬ (Exact hourIndex "H1" quarters (quartersConfig .lastCompleted (some "H1"))
            [none, none, some 4] ∧
          Causal hourIndex "H1" quarters (quartersConfig .lastCompleted (some "H1"))
            [none, none, some 4]) := by
  constructor
  · apply eq_ok_of_toOption
    unfold attachClose alignExogenousClose preflightOverlap
    rw [sortedIndex_hourIndex]
    decide +kernel
  · rintro ⟨hexact, -⟩
    unfold Exact at hexact
    rw [sortedIndex_hourIndex] at hexact
    revert hexact
    decide +kernel

end QBackend.Exogenous
