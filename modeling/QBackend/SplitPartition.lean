import QBackend.AlphaResearch

/-!
# The segments of a split partition the bars

The manifest keeps the times of the first and the last bar of each segment, and `slice_segment`
takes the bars between them. On bars with distinct times these are the bars between the positions at which
the split was made.
-/

namespace QBackend.Research

open Execution (Time Bar)
open FallibleSteps Optimization

/-! ## Bars in any order -/

/-- `sort_values("time")`. -/
def sortBars (bars : List Bar) : List Bar :=
  bars.mergeSort fun a b => decide (a.openTime ≤ b.openTime)

theorem sortBars_perm (bars : List Bar) : (sortBars bars).Perm bars := List.mergeSort_perm _ _

theorem pairwise_sortBars (bars : List Bar) :
    (sortBars bars).Pairwise fun a b => a.openTime ≤ b.openTime := by
  have hsorted : (sortBars bars).Pairwise fun a b => decide (a.openTime ≤ b.openTime) = true := by
    refine List.pairwise_mergeSort ?_ ?_ bars
    · intro a b c hab hbc
      simp only [decide_eq_true_eq] at hab hbc ⊢
      exact le_trans hab hbc
    · intro a b
      simp only [Bool.or_eq_true, decide_eq_true_eq]
      exact le_total a.openTime b.openTime
  exact hsorted.imp fun hab => of_decide_eq_true hab

/-- Bars with distinct times, sorted. -/
def History.ofBars (bars : List Bar) (hdistinct : (bars.map Bar.openTime).Nodup) : History where
  bars := sortBars bars
  sorted := pairwise_sortBars bars
  increasing := by
    have hne : (sortBars bars).Pairwise fun a b => a.openTime ≠ b.openTime :=
      List.pairwise_map.mp (((sortBars_perm bars).map Bar.openTime).nodup_iff.mpr hdistinct)
    exact (pairwise_sortBars bars).imp₂ (fun a b hle hne => lt_of_le_of_ne hle hne) hne

/-! ## Slices by time and by position -/

/-- The bars from one position up to another. -/
def History.between (history : History) (i j : ℕ) : List Bar := (history.bars.drop i).take (j - i)

theorem getOhlcv_between (history : History) {i j : ℕ} (hi : i < j)
    (hj : j ≤ history.bars.length) (hfirst : i < history.bars.length)
    (hlast : j - 1 < history.bars.length) :
    history.getOhlcv history.bars[i].openTime history.bars[j - 1].openTime =
      history.between i j := by
  have hsplit : history.bars =
      history.bars.take i ++ (history.between i j ++ history.bars.drop j) := by
    unfold History.between
    have hdrop : history.bars.drop j = (history.bars.drop i).drop (j - i) := by
      rw [List.drop_drop]
      congr 1
      omega
    rw [hdrop, List.take_append_drop, List.take_append_drop]
  have hbefore : ∀ bar ∈ history.bars.take i, ¬ history.bars[i].openTime ≤ bar.openTime := by
    intro bar hbar
    obtain ⟨k, hk, rfl⟩ := List.mem_take_iff_getElem.mp hbar
    exact not_le.mpr (history.openTime_lt _ _ (by omega))
  have hafter : ∀ bar ∈ history.bars.drop j, ¬ bar.openTime ≤ history.bars[j - 1].openTime := by
    intro bar hbar
    obtain ⟨k, hk, rfl⟩ := List.mem_drop_iff_getElem.mp hbar
    exact not_le.mpr (history.openTime_lt _ _ (by omega))
  have hinside : ∀ bar ∈ history.between i j, history.bars[i].openTime ≤ bar.openTime ∧
      bar.openTime ≤ history.bars[j - 1].openTime := by
    intro bar hbar
    obtain ⟨k, hk, rfl⟩ := List.mem_take_iff_getElem.mp hbar
    rw [List.length_drop] at hk
    rw [List.getElem_drop]
    exact ⟨history.openTime_le _ _ (by omega), history.openTime_le _ _ (by omega)⟩
  unfold History.getOhlcv
  generalize history.bars[i].openTime = start at *
  generalize history.bars[j - 1].openTime = stop at *
  rw [hsplit, List.filter_append, List.filter_append,
    List.filter_eq_nil_iff.mpr fun bar hbar h => hbefore bar hbar (of_decide_eq_true h).1,
    List.filter_eq_nil_iff.mpr fun bar hbar h => hafter bar hbar (of_decide_eq_true h).2,
    List.nil_append, List.append_nil]
  exact List.filter_eq_self.mpr fun bar hbar => decide_eq_true (hinside bar hbar)

theorem sliceSegment_segment (history : History) {i j : ℕ} (hi : i < j)
    (hj : j ≤ history.bars.length) :
    sliceSegment history (history.segment i j hi hj) = history.between i j :=
  getOhlcv_between history hi hj (by omega) (by omega)

theorem length_between (history : History) {i j : ℕ} (hj : j ≤ history.bars.length) :
    (history.between i j).length = j - i := by
  unfold History.between
  rw [List.length_take, List.length_drop]
  omega

theorem between_append (history : History) {i j k : ℕ} (hij : i ≤ j) (hjk : j ≤ k) :
    history.between i j ++ history.between j k = history.between i k := by
  unfold History.between
  have hdrop : history.bars.drop j = (history.bars.drop i).drop (j - i) := by
    rw [List.drop_drop]
    congr 1
    omega
  rw [hdrop, ← List.take_add]
  congr 1
  omega

theorem between_all (history : History) :
    history.between 0 history.bars.length = history.bars := by
  unfold History.between
  rw [List.drop_zero, Nat.sub_zero, List.take_length]

theorem between_lt (history : History) {i j k l : ℕ} (hjk : j ≤ k) :
    ∀ a ∈ history.between i j, ∀ b ∈ history.between k l, a.openTime < b.openTime := by
  intro a ha b hb
  obtain ⟨m, hm, rfl⟩ := List.mem_take_iff_getElem.mp ha
  obtain ⟨n, hn, rfl⟩ := List.mem_take_iff_getElem.mp hb
  rw [List.length_drop] at hm hn
  rw [List.getElem_drop, List.getElem_drop]
  exact history.openTime_lt _ _ (by omega)

/-! ## The check of the manifest -/

def SplitManifest.segments (manifest : SplitManifest) : List (String × SplitSegment) :=
  [("evidence", manifest.evidence), ("walkforward", manifest.walkforward),
    ("lockbox", manifest.lockbox)]

/-- Segments of different names share no date. -/
def checkDisjoint (left right : String × SplitSegment) : Except String Unit :=
  if left.1 = right.1 then .ok ()
  else if right.2.start ≤ left.2.stop ∧ left.2.start ≤ right.2.stop then
    .error ("Split segments '" ++ left.1 ++ "' and '" ++ right.1 ++ "' overlap.")
  else .ok ()

def assertSegmentsDisjoint (manifest : SplitManifest) : Except String Unit :=
  manifest.segments.forM fun left => manifest.segments.forM fun right => checkDisjoint left right

theorem checkDisjoint_self (segment : String × SplitSegment) :
    checkDisjoint segment segment = .ok () :=
  if_pos rfl

/-- Two segments, one of which ends before the other starts, pass both ways. -/
theorem checkDisjoint_of_lt (left right : String × SplitSegment)
    (h : left.2.stop < right.2.start) :
    checkDisjoint left right = .ok () ∧ checkDisjoint right left = .ok () := by
  unfold checkDisjoint
  constructor
  · split
    · rfl
    · exact if_neg fun hover => absurd hover.1 (not_le.mpr h)
  · split
    · rfl
    · exact if_neg fun hover => absurd hover.2 (not_le.mpr h)

theorem assertSegmentsDisjoint_ok (manifest : SplitManifest) :
    assertSegmentsDisjoint manifest = .ok () := by
  have hew := checkDisjoint_of_lt ("evidence", manifest.evidence)
    ("walkforward", manifest.walkforward) manifest.evidence_lt_walkforward
  have hwl := checkDisjoint_of_lt ("walkforward", manifest.walkforward)
    ("lockbox", manifest.lockbox) manifest.walkforward_lt_lockbox
  have hel := checkDisjoint_of_lt ("evidence", manifest.evidence) ("lockbox", manifest.lockbox)
    (manifest.evidence_lt_walkforward.trans_le
      (manifest.walkforward_start_le.trans manifest.walkforward_lt_lockbox.le))
  unfold assertSegmentsDisjoint
  simp only [SplitManifest.segments, forM_eq_ok, List.mem_cons, List.not_mem_nil, or_false]
  rintro left (rfl | rfl | rfl) right (rfl | rfl | rfl)
  · exact checkDisjoint_self _
  · exact hew.1
  · exact hel.1
  · exact hew.2
  · exact checkDisjoint_self _
  · exact hwl.1
  · exact hel.2
  · exact hwl.2
  · exact checkDisjoint_self _

/-! ## Every history of three bars -/

theorem buildSplitManifest_ok {history : History} {fractions : ℚ × ℚ × ℚ}
    (hcount : 3 ≤ history.bars.length)
    (hsum : |fractions.1 + fractions.2.1 + fractions.2.2 - 1| ≤ 1 / 1000000) :
    ∃ manifest i j, ∃ (hi : 0 < i) (hij : i < j) (hj : j < history.bars.length),
      buildSplitManifest history fractions = .ok manifest ∧
        manifest.evidence = history.segment 0 i hi (by omega) ∧
        manifest.walkforward = history.segment i j hij hj.le ∧
        manifest.lockbox = history.segment j history.bars.length hj le_rfl := by
  have hedges := splitEdges_bounds hcount fractions
  have hne : history.bars ≠ [] := by
    rintro hnil
    rw [hnil] at hcount
    exact absurd hcount (by decide)
  obtain ⟨manifest, hbuild, hsegments⟩ : ∃ manifest, buildSplitManifest history fractions =
      .ok manifest ∧ manifest.evidence = history.segment 0
        (splitEdges history.bars.length fractions).1.toNat (by omega) (by omega) ∧
      manifest.walkforward = history.segment (splitEdges history.bars.length fractions).1.toNat
        (splitEdges history.bars.length fractions).2.toNat (by omega) (by omega) ∧
      manifest.lockbox = history.segment (splitEdges history.bars.length fractions).2.toNat
        history.bars.length (by omega) le_rfl := by
    unfold buildSplitManifest
    rw [if_neg hne, if_neg (not_lt.mpr hsum), dif_pos hcount]
    exact ⟨_, rfl, rfl, rfl, rfl⟩
  exact ⟨manifest, _, _, by omega, by omega, by omega, hbuild, hsegments⟩

/-- The slices of the segments partition the bars. -/
theorem split_manifest_partitions (bars : List Bar) (hdistinct : (bars.map Bar.openTime).Nodup)
    (hcount : 3 ≤ bars.length) (fractions : ℚ × ℚ × ℚ)
    (hsum : |fractions.1 + fractions.2.1 + fractions.2.2 - 1| ≤ 1 / 1000000) :
    ∃ manifest evidence walkforward lockbox,
      buildSplitManifest (History.ofBars bars hdistinct) fractions = .ok manifest ∧
        evidence = sliceSegment (History.ofBars bars hdistinct) manifest.evidence ∧
        walkforward = sliceSegment (History.ofBars bars hdistinct) manifest.walkforward ∧
        lockbox = sliceSegment (History.ofBars bars hdistinct) manifest.lockbox ∧
        (evidence ≠ [] ∧ walkforward ≠ [] ∧ lockbox ≠ []) ∧
        (∀ a ∈ evidence, ∀ b ∈ walkforward, a.openTime < b.openTime) ∧
        (∀ a ∈ walkforward, ∀ b ∈ lockbox, a.openTime < b.openTime) ∧
        (∀ a ∈ evidence, ∀ b ∈ lockbox, a.openTime < b.openTime) ∧
        (evidence ++ walkforward ++ lockbox).Perm bars ∧
        (evidence.length = manifest.evidence.barCount ∧
          walkforward.length = manifest.walkforward.barCount ∧
          lockbox.length = manifest.lockbox.barCount) ∧
        assertSegmentsDisjoint manifest = .ok () := by
  have hlength : (History.ofBars bars hdistinct).bars.length = bars.length :=
    (sortBars_perm bars).length_eq
  generalize hhistory : History.ofBars bars hdistinct = history at hlength
  have hperm : history.bars.Perm bars := by
    rw [← hhistory]
    exact sortBars_perm bars
  rw [← hlength] at hcount
  obtain ⟨manifest, i, j, hi, hij, hj, hbuild, hevidence, hwalkforward, hlockbox⟩ :=
    buildSplitManifest_ok hcount hsum
  refine ⟨manifest, history.between 0 i, history.between i j,
    history.between j history.bars.length, hbuild, ?_, ?_, ?_, ⟨?_, ?_, ?_⟩, ?_, ?_, ?_, ?_,
    ⟨?_, ?_, ?_⟩, ?_⟩
  · rw [hevidence, sliceSegment_segment]
  · rw [hwalkforward, sliceSegment_segment]
  · rw [hlockbox, sliceSegment_segment]
  · exact List.ne_nil_of_length_pos (by rw [length_between history (by omega)]; omega)
  · exact List.ne_nil_of_length_pos (by rw [length_between history hj.le]; omega)
  · exact List.ne_nil_of_length_pos (by rw [length_between history le_rfl]; omega)
  · exact between_lt history le_rfl
  · exact between_lt history le_rfl
  · exact between_lt history hij.le
  · rw [between_append history (Nat.zero_le i) hij.le, between_append history (Nat.zero_le j) hj.le,
      between_all]
    exact hperm
  · rw [hevidence]
    exact length_between history (by omega)
  · rw [hwalkforward]
    exact length_between history hj.le
  · rw [hlockbox]
    exact length_between history le_rfl
  · exact assertSegmentsDisjoint_ok manifest

def unorderedBars : List Bar :=
  [2, 0, 1].map fun d : ℤ =>
    { openTime := d * oneDay, open_ := 100, high := 110, low := 90, close := 105, volume := 1 }

theorem unorderedBars_nodup : (unorderedBars.map Bar.openTime).Nodup := by decide

theorem unordered_bars_partitioned :
    ∃ manifest, buildSplitManifest (History.ofBars unorderedBars unorderedBars_nodup)
        splitFractions = .ok manifest ∧
      (sliceSegment (History.ofBars unorderedBars unorderedBars_nodup) manifest.evidence ++
        sliceSegment (History.ofBars unorderedBars unorderedBars_nodup) manifest.walkforward ++
        sliceSegment (History.ofBars unorderedBars unorderedBars_nodup) manifest.lockbox).Perm
          unorderedBars := by
  obtain ⟨manifest, evidence, walkforward, lockbox, hbuild, rfl, rfl, rfl, -, -, -, -, hperm, -⟩ :=
    split_manifest_partitions unorderedBars unorderedBars_nodup (by decide) splitFractions
      (by norm_num [splitFractions])
  exact ⟨manifest, hbuild, hperm⟩

end QBackend.Research
