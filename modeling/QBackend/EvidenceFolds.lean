import QBackend.ExecutionDomain
import QBackend.FallibleSteps
import Mathlib.Data.List.Nodup
import Mathlib.Data.List.Infix
import Mathlib.Tactic.Linarith

/-!
# The folds of feature evidence

`_purged_fold_metrics` of `evidence.py` with `_time_windows`, `align_feature_target` and
`purge_embargo`. The rows of the evidence segment that have a feature and a label are cut into
windows by position; each window with two rows or more is a fold, and its metrics are computed from
the rows selected for it. The label of a row is computed from the bar of the row and the bar a
horizon later.
-/

namespace QBackend.Evidence

open Execution (Time)
open FallibleSteps

variable {F : Type}

/-! ## Rows -/

/-- A bar of the segment with the values of the feature and of the target; `NaN` is `none`. -/
structure EvidenceRow (F : Type) where
  time : Time
  feature : Option F
  target : Option F

/-- A row that has both values, with the position of its bar in the segment. -/
structure AlignedRow (F : Type) where
  bar : ℕ
  time : Time
  feature : F
  target : F

def alignRow (row : EvidenceRow F) (bar : ℕ) : Option (AlignedRow F) :=
  match row.feature, row.target with
  | some feature, some target => some ⟨bar, row.time, feature, target⟩
  | _, _ => none

def alignFeatureTarget (rows : List (EvidenceRow F)) : List (AlignedRow F) :=
  rows.zipIdx.filterMap fun (row, bar) => alignRow row bar

/-- `np.linspace(0, stop, count + 1, dtype=int)`: evenly spaced edges, rounded down; exact, where
numpy rounds doubles. -/
def linspace (stop count i : ℕ) : ℕ := i * stop / count

def timeWindows (rows : List (AlignedRow F)) (nWindows : ℤ) : List (List (AlignedRow F)) :=
  if rows = [] ∨ nWindows ≤ 0 then []
  else
    let edge := linspace rows.length nWindows.toNat
    ((List.range nWindows.toNat).filter fun i => edge i < edge (i + 1)).map fun i =>
      (rows.drop (edge i)).take (edge (i + 1) - edge i)

/-! ## Folds -/

inductive FoldError where
  | negativeEmbargo (embargo : ℤ)
  | splitPointOutOfRange (splitPoint : ℤ) (length : ℕ)
  | duplicateTimes
  | negativeSamples (count : ℤ)
  deriving DecidableEq, Repr

/-- The times before and after a split, without those near it. -/
def purgeEmbargo (index : List Time) (splitPoint embargo : ℤ) :
    Except FoldError (List Time × List Time) := do
  ensure (0 ≤ embargo) (.negativeEmbargo embargo)
  ensure (0 ≤ splitPoint ∧ splitPoint ≤ index.length)
    (.splitPointOutOfRange splitPoint index.length)
  let trainEnd := max 0 (splitPoint - embargo)
  let testStart := min (index.length : ℤ) (splitPoint + embargo)
  return (index.take trainEnd.toNat, index.drop testStart.toNat)

/-- A fold: its window and the rows from which its metrics are computed. -/
structure Fold (F : Type) where
  foldIndex : ℕ
  window : List (AlignedRow F)
  rows : List (AlignedRow F)

/-- The rows selected for a window. `get_indexer` refuses times that are not distinct; the times
that `purge_embargo` returns are not used. -/
def foldRows (aligned : List (AlignedRow F)) (window : List (AlignedRow F))
    (splitPoint embargo : ℤ) : Except FoldError (List (AlignedRow F)) := do
  let index := aligned.map AlignedRow.time
  ensure index.Nodup .duplicateTimes
  let _ ← purgeEmbargo index splitPoint embargo
  let testWindow := index.filter (· ∈ window.map AlignedRow.time)
  return aligned.filter fun row => row.time ∈ testWindow

def scoreWindows (aligned : List (AlignedRow F)) (splitPoint : ℕ → ℤ) (embargo : ℤ) :
    List (List (AlignedRow F) × ℕ) → Except FoldError (List (Fold F))
  | [] => .ok []
  | (window, foldIndex) :: rest =>
    if window.length < 2 then scoreWindows aligned splitPoint embargo rest
    else do
      let rows ← foldRows aligned window (splitPoint (foldIndex + 1)) embargo
      let folds ← scoreWindows aligned splitPoint embargo rest
      return if rows.length < 2 then folds else ⟨foldIndex, window, rows⟩ :: folds

/-- The folds that are scored. -/
def purgedFolds (rows : List (EvidenceRow F)) (nFolds embargo : ℤ) :
    Except FoldError (List (Fold F)) := do
  let aligned := alignFeatureTarget rows
  let windows := timeWindows aligned nFolds
  ensure (0 ≤ nFolds + 1) (.negativeSamples (nFolds + 1))
  scoreWindows aligned (fun i => linspace aligned.length nFolds.toNat i) embargo windows.zipIdx

/-! ## Metrics -/

/-- The statistics of `pandas` that the metrics use. -/
structure Statistics (F : Type) where
  std : List F → F
  pearson : List F → List F → F
  spearman : List F → List F → F

structure FoldDiagnostic (F : Type) where
  foldIndex : ℕ
  ic : Option F
  rankIc : Option F
  nObs : ℕ

section Metrics

variable [Zero F] [DecidableEq F] (stats : Statistics F)

/-- A correlation of two samples; `NaN` for short or constant ones. -/
def informationCoefficient (corr : List F → List F → F) (feature target : List F) : Option F :=
  if feature.length < 2 then none
  else if stats.std feature = 0 ∨ stats.std target = 0 then none
  else some (corr feature target)

def pearsonIc (feature target : List F) : Option F :=
  informationCoefficient stats stats.pearson feature target

def rankIc (feature target : List F) : Option F :=
  informationCoefficient stats stats.spearman feature target

def Fold.diagnostic (fold : Fold F) : FoldDiagnostic F :=
  let feature := fold.rows.map AlignedRow.feature
  let target := fold.rows.map AlignedRow.target
  { foldIndex := fold.foldIndex, ic := pearsonIc stats feature target
    rankIc := rankIc stats feature target, nObs := feature.length }

def purgedFoldMetrics (rows : List (EvidenceRow F)) (nFolds embargo : ℤ) :
    Except FoldError (List (FoldDiagnostic F)) :=
  return (← purgedFolds rows nFolds embargo).map (Fold.diagnostic stats)

/-- The embargo that `evaluate_feature_evidence` asks for. -/
def evidenceEmbargo (horizon : ℤ) : ℤ := max horizon 1

end Metrics

/-- Every row of a fold that is scored lies the embargo after the first row of its window, and the
larger of horizon and embargo before the last. -/
def Purged (horizon embargo : ℤ) (result : Except FoldError (List (Fold F))) : Prop :=
  ∀ folds, result = .ok folds → ∀ fold ∈ folds, ∀ row ∈ fold.rows,
    (∀ first ∈ fold.window.head?, (first.bar : ℤ) + embargo ≤ row.bar) ∧
      ∀ last ∈ fold.window.getLast?, (row.bar : ℤ) + max horizon embargo ≤ last.bar

/-! ## Windows -/

theorem linspace_last (stop : ℕ) {count : ℕ} (h : 0 < count) : linspace stop count count = stop :=
  Nat.mul_div_cancel_left stop h

theorem linspace_le {stop count i : ℕ} (h : i ≤ count) : linspace stop count i ≤ stop := by
  obtain rfl | hcount := Nat.eq_zero_or_pos count
  · simp [linspace]
  · exact Nat.div_le_of_le_mul (Nat.mul_le_mul_right stop h)

/-- No more rows than windows: each window has one row at most. -/
theorem linspace_succ_le {stop count : ℕ} (h : stop ≤ count) (hcount : 0 < count) (i : ℕ) :
    linspace stop count (i + 1) ≤ linspace stop count i + 1 := by
  unfold linspace
  calc (i + 1) * stop / count ≤ (i * stop + count) / count := by
        apply Nat.div_le_div_right
        linarith [Nat.succ_mul i stop]
    _ = i * stop / count + 1 := Nat.add_div_right _ hcount

theorem exists_long_window {stop count : ℕ} (h : count < stop) (hcount : 0 < count) :
    ∃ i < count, linspace stop count i + 2 ≤ linspace stop count (i + 1) := by
  by_contra hnone
  push Not at hnone
  have hle : ∀ i ≤ count, linspace stop count i ≤ i := by
    intro i hi
    induction i with
    | zero => simp [linspace]
    | succ i ih =>
      have hstep := hnone i hi
      have hprev := ih (Nat.le_of_succ_le hi)
      omega
  have hlast := hle count le_rfl
  rw [linspace_last stop hcount] at hlast
  omega

section Windows

variable {rows window : List (AlignedRow F)} {nFolds : ℤ}

theorem mem_timeWindows (h : window ∈ timeWindows rows nFolds) :
    0 < nFolds ∧ ∃ i < nFolds.toNat,
      window = (rows.drop (linspace rows.length nFolds.toNat i)).take
        (linspace rows.length nFolds.toNat (i + 1) - linspace rows.length nFolds.toNat i) := by
  unfold timeWindows at h
  split at h
  · cases h
  next hempty =>
    obtain ⟨i, hi, rfl⟩ := List.mem_map.mp h
    have hrange := List.mem_range.mp (List.mem_filter.mp hi).1
    exact ⟨by omega, i, hrange, rfl⟩

theorem timeWindows_sublist (h : window ∈ timeWindows rows nFolds) : window.Sublist rows := by
  obtain ⟨-, i, -, rfl⟩ := mem_timeWindows h
  exact (List.take_sublist _ _).trans (List.drop_sublist _ _)

theorem length_timeWindows_le (rows : List (AlignedRow F)) (nFolds : ℤ) :
    (timeWindows rows nFolds).length ≤ nFolds.toNat := by
  unfold timeWindows
  split
  · exact Nat.zero_le _
  · rw [List.length_map]
    exact (List.length_filter_le _ _).trans List.length_range.le

theorem lt_length_of_long (h : window ∈ timeWindows rows nFolds) (hlong : ¬ window.length < 2) :
    0 < nFolds ∧ nFolds < rows.length := by
  obtain ⟨hpos, i, -, rfl⟩ := mem_timeWindows h
  refine ⟨hpos, ?_⟩
  by_contra hle
  have hfew : rows.length ≤ nFolds.toNat := by omega
  have hstep := linspace_succ_le hfew (by omega) i
  rw [List.length_take] at hlong
  omega

theorem exists_long (hpos : 0 < nFolds) (hmore : nFolds < rows.length) :
    ∃ window ∈ timeWindows rows nFolds, ¬ window.length < 2 := by
  have hmany : nFolds.toNat < rows.length := by omega
  obtain ⟨i, hi, hgap⟩ := exists_long_window hmany (by omega)
  have hempty : ¬ (rows = [] ∨ nFolds ≤ 0) := by
    rintro (rfl | hle)
    · simp only [List.length_nil, Nat.cast_zero] at hmore
      omega
    · omega
  have hbound : linspace rows.length nFolds.toNat (i + 1) ≤ rows.length := linspace_le hi
  refine ⟨(rows.drop (linspace rows.length nFolds.toNat i)).take
    (linspace rows.length nFolds.toNat (i + 1) - linspace rows.length nFolds.toNat i), ?_, ?_⟩
  · unfold timeWindows
    rw [if_neg hempty]
    refine List.mem_map.mpr ⟨i, List.mem_filter.mpr ⟨List.mem_range.mpr hi, ?_⟩, rfl⟩
    exact decide_eq_true (by omega)
  · rw [List.length_take, List.length_drop]
    omega

end Windows

/-! ## The rows of a fold -/

section Selection

variable {aligned window : List (AlignedRow F)} {splitPoint : ℕ → ℤ} {embargo : ℤ}

theorem filter_time_eq (hsub : window.Sublist aligned)
    (hnodup : (aligned.map AlignedRow.time).Nodup) :
    (aligned.filter fun row => row.time ∈ window.map AlignedRow.time) = window := by
  induction hsub with
  | slnil => rfl
  | @cons window aligned row hsub ih =>
    obtain ⟨hrow, hrest⟩ := List.nodup_cons.mp hnodup
    have hnot : row.time ∉ window.map AlignedRow.time := fun hmem =>
      hrow ((hsub.map AlignedRow.time).subset hmem)
    rw [List.filter_cons_of_neg (by simpa using hnot)]
    exact ih hrest
  | @cons_cons window aligned row hsub ih =>
    obtain ⟨hrow, hrest⟩ := List.nodup_cons.mp hnodup
    rw [List.filter_cons_of_pos (by simp)]
    congr 1
    refine (List.filter_congr fun other hother => ?_).trans (ih hrest)
    have hne : other.time ≠ row.time := fun heq =>
      hrow (heq ▸ List.mem_map_of_mem hother)
    simp [hne]

theorem foldRows_eq (hsub : window.Sublist aligned) {split : ℤ}
    (hnodup : (aligned.map AlignedRow.time).Nodup) (hembargo : 0 ≤ embargo)
    (hsplit : 0 ≤ split ∧ split ≤ aligned.length) :
    foldRows aligned window split embargo = .ok window := by
  have hrange : 0 ≤ split ∧ split ≤ (aligned.map AlignedRow.time).length := by
    simpa using hsplit
  obtain ⟨parts, hpurge⟩ :
      ∃ parts, purgeEmbargo (aligned.map AlignedRow.time) split embargo = .ok parts := by
    unfold purgeEmbargo ensure
    rw [if_pos hembargo, if_pos hrange]
    exact ⟨_, rfl⟩
  have hindex : ensure (aligned.map AlignedRow.time).Nodup FoldError.duplicateTimes = .ok () :=
    ensure_eq_ok.mpr hnodup
  refine bind_of_ok hindex (bind_of_ok hpurge ?_)
  refine congrArg Except.ok (Eq.trans (List.filter_congr fun row hrow => ?_)
    (filter_time_eq hsub hnodup))
  have htime : row.time ∈ aligned.map AlignedRow.time := List.mem_map_of_mem hrow
  simp [htime]

theorem foldRows_ok {split : ℤ} {rows : List (AlignedRow F)}
    (h : foldRows aligned window split embargo = .ok rows) :
    (aligned.map AlignedRow.time).Nodup ∧ 0 ≤ embargo := by
  obtain ⟨_, hnodup, h⟩ := bind_eq_ok.mp h
  obtain ⟨_, hpurge, -⟩ := bind_eq_ok.mp h
  obtain ⟨_, hembargo, -⟩ := bind_eq_ok.mp hpurge
  exact ⟨ensure_eq_ok.mp hnodup, ensure_eq_ok.mp hembargo⟩

theorem scoreWindows_eq {windows : List (List (AlignedRow F) × ℕ)}
    (hsub : ∀ w ∈ windows, w.1.Sublist aligned)
    (hsplit : ∀ w ∈ windows, 0 ≤ splitPoint (w.2 + 1) ∧ splitPoint (w.2 + 1) ≤ aligned.length)
    (hnodup : (aligned.map AlignedRow.time).Nodup) (hembargo : 0 ≤ embargo) :
    scoreWindows aligned splitPoint embargo windows =
      .ok ((windows.filter fun w => ¬ w.1.length < 2).map fun w => ⟨w.2, w.1, w.1⟩) := by
  induction windows with
  | nil => rfl
  | cons w windows ih =>
    have hrest := ih (fun w hw => hsub w (List.mem_cons_of_mem _ hw))
      (fun w hw => hsplit w (List.mem_cons_of_mem _ hw))
    unfold scoreWindows
    split
    next hshort =>
      rw [List.filter_cons_of_neg (by simpa using hshort)]
      exact hrest
    next hlong =>
      rw [List.filter_cons_of_pos (by simpa using hlong), List.map_cons]
      refine bind_of_ok (foldRows_eq (hsub w List.mem_cons_self) hnodup hembargo
        (hsplit w List.mem_cons_self)) (bind_of_ok hrest ?_)
      rw [if_neg hlong]
      rfl

theorem scoreWindows_ok {windows : List (List (AlignedRow F) × ℕ)} {folds : List (Fold F)}
    (h : scoreWindows aligned splitPoint embargo windows = .ok folds) (hne : folds ≠ []) :
    (aligned.map AlignedRow.time).Nodup ∧ 0 ≤ embargo := by
  induction windows generalizing folds with
  | nil =>
    cases h
    exact absurd rfl hne
  | cons w windows ih =>
    unfold scoreWindows at h
    split at h
    · exact ih h hne
    · obtain ⟨_, hrows, -⟩ := bind_eq_ok.mp h
      exact foldRows_ok hrows

end Selection

/-! ## What is scored -/

section Scored

variable {rows : List (EvidenceRow F)} {nFolds embargo horizon : ℤ}

theorem alignRow_bar {row : EvidenceRow F} {bar : ℕ} {a : AlignedRow F}
    (h : alignRow row bar = some a) : a.bar = bar := by
  unfold alignRow at h
  split at h
  · exact (Option.some.inj h) ▸ rfl
  · cases h

theorem pairwise_bar (rows : List (EvidenceRow F)) :
    (alignFeatureTarget rows).Pairwise fun a b => a.bar < b.bar := by
  have hindex : rows.zipIdx.Pairwise fun a b => a.2 < b.2 := by
    rw [← List.pairwise_map (f := Prod.snd), List.zipIdx_map_snd]
    exact List.pairwise_lt_range'
  unfold alignFeatureTarget
  rw [List.pairwise_filterMap]
  apply hindex.imp
  intro a b hlt a' ha' b' hb'
  rw [alignRow_bar ha', alignRow_bar hb']
  exact hlt

section Ends

variable {window : List (AlignedRow F)} {row other : AlignedRow F}
  (h : window.Pairwise fun a b => a.bar < b.bar)

include h

theorem head_le (hhead : other ∈ window.head?) (hrow : row ∈ window) : other.bar ≤ row.bar := by
  obtain ⟨rest, rfl⟩ := List.head?_eq_some_iff.mp hhead
  obtain rfl | hrow := List.mem_cons.mp hrow
  · exact le_rfl
  · exact ((List.pairwise_cons.mp h).1 row hrow).le

theorem le_last (hlast : other ∈ window.getLast?) (hrow : row ∈ window) : row.bar ≤ other.bar := by
  obtain ⟨before, rfl⟩ := List.getLast?_eq_some_iff.mp hlast
  obtain hrow | hrow := List.mem_append.mp hrow
  · exact ((List.pairwise_append.mp h).2.2 row hrow other List.mem_cons_self).le
  · rw [List.mem_singleton.mp hrow]

end Ends

theorem purgedFolds_eq (hsamples : 0 ≤ nFolds + 1)
    (hnodup : ((alignFeatureTarget rows).map AlignedRow.time).Nodup) (hembargo : 0 ≤ embargo) :
    purgedFolds rows nFolds embargo =
      .ok (((timeWindows (alignFeatureTarget rows) nFolds).zipIdx.filter fun w =>
        ¬ w.1.length < 2).map fun w => ⟨w.2, w.1, w.1⟩) := by
  have hcount : ensure (0 ≤ nFolds + 1) (FoldError.negativeSamples (nFolds + 1)) = .ok () :=
    ensure_eq_ok.mpr hsamples
  refine bind_of_ok hcount (scoreWindows_eq ?_ ?_ hnodup hembargo)
  · intro w hw
    exact timeWindows_sublist (List.fst_mem_of_mem_zipIdx hw)
  · intro w hw
    have hindex : w.2 < (timeWindows (alignFeatureTarget rows) nFolds).length :=
      List.snd_lt_of_mem_zipIdx hw
    have hle : w.2 + 1 ≤ nFolds.toNat := hindex.trans_le (length_timeWindows_le _ _)
    exact ⟨Int.natCast_nonneg _, Int.ofNat_le.mpr (linspace_le hle)⟩

theorem of_mem_purgedFolds {folds : List (Fold F)} {fold : Fold F}
    (h : purgedFolds rows nFolds embargo = .ok folds) (hfold : fold ∈ folds) :
    ((alignFeatureTarget rows).map AlignedRow.time).Nodup ∧ 0 ≤ embargo ∧ 0 < nFolds ∧
      nFolds < (alignFeatureTarget rows).length ∧ fold.rows = fold.window ∧
      fold.window.Sublist (alignFeatureTarget rows) := by
  obtain ⟨_, hsamples, hscore⟩ := bind_eq_ok.mp h
  obtain ⟨hnodup, hembargo⟩ := scoreWindows_ok hscore (List.ne_nil_of_mem hfold)
  rw [purgedFolds_eq (ensure_eq_ok.mp hsamples) hnodup hembargo] at h
  cases h
  obtain ⟨w, hw, rfl⟩ := List.mem_map.mp hfold
  obtain ⟨hmem, hlong⟩ := List.mem_filter.mp hw
  have hwindow := List.fst_mem_of_mem_zipIdx hmem
  obtain ⟨hpos, hmore⟩ := lt_length_of_long hwindow (of_decide_eq_true hlong)
  exact ⟨hnodup, hembargo, hpos, hmore, rfl, timeWindows_sublist hwindow⟩

theorem exists_scored (hnodup : ((alignFeatureTarget rows).map AlignedRow.time).Nodup)
    (hembargo : 0 ≤ embargo) (hpos : 0 < nFolds)
    (hmore : nFolds < (alignFeatureTarget rows).length) :
    ∃ folds, purgedFolds rows nFolds embargo = .ok folds ∧
      ∃ fold ∈ folds, fold.rows = fold.window ∧ fold.window ≠ [] := by
  refine ⟨_, purgedFolds_eq (by omega) hnodup hembargo, ?_⟩
  obtain ⟨window, hwindow, hlong⟩ := exists_long hpos hmore
  obtain ⟨i, hi, heq⟩ := List.mem_iff_getElem.mp hwindow
  refine ⟨⟨i, window, window⟩, List.mem_map.mpr ⟨(window, i), ?_, rfl⟩, rfl, ?_⟩
  · refine List.mem_filter.mpr ⟨?_, decide_eq_true hlong⟩
    rw [List.mk_mem_zipIdx_iff_getElem?, List.getElem?_eq_getElem hi, heq]
  · rintro rfl
    exact hlong (by simp)

theorem not_purged (hsome : 0 < max horizon embargo)
    (hnodup : ((alignFeatureTarget rows).map AlignedRow.time).Nodup)
    (hembargo : 0 ≤ embargo) (hpos : 0 < nFolds)
    (hmore : nFolds < (alignFeatureTarget rows).length) :
    ¬ Purged horizon embargo (purgedFolds rows nFolds embargo) := by
  obtain ⟨folds, hfolds, fold, hfold, hrows, hne⟩ := exists_scored hnodup hembargo hpos hmore
  intro h
  have hlast : fold.window.getLast hne ∈ fold.rows := by
    rw [hrows]
    exact List.getLast_mem hne
  have hlate := (h folds hfolds fold hfold _ hlast).2 _ (List.getLast?_eq_some_getLast hne)
  omega

theorem purged_of
    (h : ((alignFeatureTarget rows).map AlignedRow.time).Nodup → 0 ≤ embargo → 0 < nFolds →
      nFolds < (alignFeatureTarget rows).length → max horizon embargo ≤ 0) :
    Purged horizon embargo (purgedFolds rows nFolds embargo) := by
  intro folds hfolds fold hfold row hrow
  obtain ⟨hnodup, hembargo, hpos, hmore, hrows, hsub⟩ := of_mem_purgedFolds hfolds hfold
  have hnone := h hnodup hembargo hpos hmore
  have hbars := (pairwise_bar rows).sublist hsub
  rw [hrows] at hrow
  constructor
  · intro first hfirst
    have hle := head_le hbars hfirst hrow
    omega
  · intro last hlast
    have hle := le_last hbars hlast hrow
    omega

/-- Every fold is purged exactly where none is scored (there are no more rows than folds, or the
call is refused) or nothing is to be purged. -/
theorem purged_iff (rows : List (EvidenceRow F)) (nFolds horizon embargo : ℤ) :
    Purged horizon embargo (purgedFolds rows nFolds embargo) ↔
      nFolds ≤ 0 ∨ (alignFeatureTarget rows).length ≤ nFolds ∨ embargo < 0 ∨
        ¬ ((alignFeatureTarget rows).map AlignedRow.time).Nodup ∨ max horizon embargo ≤ 0 := by
  constructor
  · intro h
    by_contra hnone
    push Not at hnone
    obtain ⟨hpos, hmore, hembargo, hnodup, hsome⟩ := hnone
    exact not_purged hsome hnodup hembargo hpos hmore h
  · intro h
    apply purged_of
    intro hnodup hembargo hpos hmore
    obtain h | h | h | h | h := h
    · omega
    · omega
    · omega
    · exact absurd hnodup h
    · exact h

end Scored

/-- Four bars with a feature and a label, for two folds. -/
def fourRows : List (EvidenceRow ℕ) :=
  [⟨0, some 1, some 2⟩, ⟨1, some 2, some 4⟩, ⟨2, some 3, some 3⟩, ⟨3, some 5, some 1⟩]

/-- The last row of each fold has the label of a bar of the next. -/
theorem fourRows_not_purged : ¬ Purged 1 1 (purgedFolds fourRows 2 1) :=
  not_purged (by decide) (by decide) (by decide) (by decide) (by decide)

end QBackend.Evidence
