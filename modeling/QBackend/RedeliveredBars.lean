import QBackend.RollingWindow
import QBackend.RunInvariants

/-!
# Bars that are delivered again

A frame may hold bars that the evaluator saw before. A bar that closes before the watermark is
passed over, and it leaves no trace in the rolling window. A bar that closes at the watermark is
evaluated once more, and the exit rules count it again.
-/

namespace QBackend.Execution

open RunInvariants

/-! ## What a window knows -/

/-- The bar that was last delivered for an open time. -/
def latest (bars : List Bar) (t : Time) : Option Bar :=
  (bars.filter (fun b => b.openTime = t)).getLast?

theorem latest_append (xs ys : List Bar) (t : Time) :
    latest (xs ++ ys) t = (latest ys t).or (latest xs t) := by
  rw [latest, List.filter_append, List.getLast?_append]
  rfl

theorem latest_cons (bar : Bar) (rest : List Bar) (t : Time) :
    latest (bar :: rest) t = (latest rest t).or (if bar.openTime = t then some bar else none) := by
  have h := latest_append [bar] rest t
  rw [List.singleton_append] at h
  rw [h]
  congr 1
  by_cases ht : bar.openTime = t
  · simp [latest, ht]
  · simp [latest, ht]

theorem latest_eq_some {bars : List Bar} {t : Time} {bar : Bar} (h : latest bars t = some bar) :
    bar ∈ bars ∧ bar.openTime = t := by
  have hmem := List.mem_of_getLast? h
  simpa using List.mem_filter.mp hmem

theorem latest_eq_none {bars : List Bar} {t : Time} :
    latest bars t = none ↔ t ∉ bars.map Bar.openTime := by
  simp [latest]

theorem mem_keepLast {bars : List Bar} {bar : Bar} :
    bar ∈ keepLast bars ↔ latest bars bar.openTime = some bar := by
  induction bars with
  | nil => simp [keepLast, latest]
  | cons first rest ih =>
    rw [keepLast, latest_cons]
    by_cases hagain : first.openTime ∈ rest.map Bar.openTime
    · rw [if_pos hagain, ih]
      cases hrest : latest rest bar.openTime with
      | some b => simp
      | none =>
        have hne : first.openTime ≠ bar.openTime := by
          intro heq
          exact latest_eq_none.mp hrest (heq ▸ hagain)
        simp [hne]
    · rw [if_neg hagain, List.mem_cons, ih]
      by_cases heq : first.openTime = bar.openTime
      · have hnone : latest rest bar.openTime = none := latest_eq_none.mpr (heq ▸ hagain)
        simp [hnone, heq, eq_comm]
      · have hne : bar ≠ first := fun h => heq (h ▸ rfl)
        simp [heq, hne]

theorem nodup_keepLast (bars : List Bar) : ((keepLast bars).map Bar.openTime).Nodup := by
  induction bars with
  | nil => exact List.nodup_nil
  | cons bar rest ih =>
    rw [keepLast]
    split
    · exact ih
    next hnew =>
      refine List.nodup_cons.mpr ⟨fun hmem => ?_, ih⟩
      obtain ⟨b, hb, hopen⟩ := List.mem_map.mp hmem
      exact hnew (List.mem_map.mpr ⟨b, (latest_eq_some (mem_keepLast.mp hb)).1, hopen⟩)

/-- The rows of a merged frame before it is trimmed. -/
theorem ordered_sortIndex_keepLast (bars : List Bar) : Ordered (sortIndex (keepLast bars)) := by
  have hsorted : (sortIndex (keepLast bars)).Pairwise (fun a b => a.openTime ≤ b.openTime) :=
    List.pairwise_insertionSort _ _
  have hnodup : ((sortIndex (keepLast bars)).map Bar.openTime).Nodup :=
    ((List.perm_insertionSort _ _).map _).nodup_iff.mpr (nodup_keepLast bars)
  exact (hsorted.and (List.pairwise_map.mp hnodup)).imp fun h => lt_of_le_of_ne h.1 h.2

theorem Ordered.eq_of_mem_iff {xs ys : List Bar} (hx : Ordered xs) (hy : Ordered ys)
    (h : ∀ b, b ∈ xs ↔ b ∈ ys) : xs = ys := by
  have hperm : xs.Perm ys := (List.perm_ext_iff_of_nodup (List.Nodup.of_map _ hx.nodup)
    (List.Nodup.of_map _ hy.nodup)).mpr h
  exact hperm.eq_of_pairwise (fun a b _ _ hab hba => absurd hab (lt_asymm hba)) hx hy

theorem sortIndex_keepLast_congr {xs ys : List Bar} (h : ∀ t, latest xs t = latest ys t) :
    sortIndex (keepLast xs) = sortIndex (keepLast ys) := by
  refine (ordered_sortIndex_keepLast xs).eq_of_mem_iff (ordered_sortIndex_keepLast ys) fun b => ?_
  rw [mem_sortIndex, mem_sortIndex, mem_keepLast, mem_keepLast, h]

theorem Ordered.latest_eq_some_iff {bars : List Bar} (h : Ordered bars) {t : Time} {bar : Bar} :
    latest bars t = some bar ↔ bar ∈ bars ∧ bar.openTime = t := by
  refine ⟨latest_eq_some, ?_⟩
  rintro ⟨hmem, rfl⟩
  cases hlatest : latest bars bar.openTime with
  | none => exact absurd (List.mem_map_of_mem hmem) (latest_eq_none.mp hlatest)
  | some b =>
    obtain ⟨hb, hopen⟩ := latest_eq_some hlatest
    rw [List.inj_on_of_nodup_map h.nodup hb hmem hopen]

theorem latest_sortIndex_keepLast (bars : List Bar) (t : Time) :
    latest (sortIndex (keepLast bars)) t = latest bars t := by
  refine Option.ext fun b => ?_
  rw [(ordered_sortIndex_keepLast bars).latest_eq_some_iff, mem_sortIndex, mem_keepLast]
  refine ⟨?_, fun h => ?_⟩
  · rintro ⟨h, rfl⟩
    exact h
  · obtain ⟨-, rfl⟩ := latest_eq_some h
    exact ⟨h, rfl⟩

/-! ## Merging in two steps -/

theorem Ordered.filter_suffix {bars : List Bar} (h : Ordered bars) (t : Time) :
    bars.filter (fun b => t ≤ b.openTime) <:+ bars := by
  induction bars with
  | nil => exact List.suffix_refl _
  | cons bar rest ih =>
    obtain ⟨hfirst, hrest⟩ := List.pairwise_cons.mp h
    by_cases hbar : t ≤ bar.openTime
    · have hall : ∀ b ∈ bar :: rest, t ≤ b.openTime := by
        intro b hb
        rcases List.mem_cons.mp hb with rfl | hb
        · exact hbar
        · exact hbar.trans (hfirst b hb).le
      exact ⟨[], List.filter_eq_self.mpr (by simpa using hall)⟩
    · rw [List.filter_cons_of_neg (by simpa using hbar)]
      exact (ih hrest).trans (List.suffix_cons bar rest)

theorem mergeWindow_congr {xs ys : List Bar} (h : ∀ t, latest xs t = latest ys t) (r : List Bar)
    (maxBars : ℕ) : mergeWindow r xs maxBars = mergeWindow r ys maxBars := by
  have hlatest : ∀ t, latest (r ++ xs) t = latest (r ++ ys) t := by
    intro t
    rw [latest_append, latest_append, h]
  rw [mergeWindow, sortIndex_keepLast_congr hlatest, mergeWindow]

/-- The rows of a merge from an open time on. -/
def lateRows (t : Time) (bars : List Bar) : List Bar :=
  (sortIndex (keepLast bars)).filter (fun b => t ≤ b.openTime)

theorem lateRows_suffix (t : Time) (bars : List Bar) :
    lateRows t bars <:+ sortIndex (keepLast bars) :=
  (ordered_sortIndex_keepLast bars).filter_suffix t

theorem mem_lateRows {t : Time} {bars : List Bar} {b : Bar} :
    b ∈ lateRows t bars ↔ latest bars b.openTime = some b ∧ t ≤ b.openTime := by
  rw [lateRows, List.mem_filter, mem_sortIndex, mem_keepLast, decide_eq_true_eq]

theorem lateRows_append {front rest : List Bar} {t : Time} (h : ∀ b ∈ front, b.openTime < t) :
    lateRows t (front ++ rest) = lateRows t rest := by
  refine Ordered.eq_of_mem_iff ((ordered_sortIndex_keepLast _).filter _)
    ((ordered_sortIndex_keepLast _).filter _) fun b => ?_
  show b ∈ lateRows t (front ++ rest) ↔ b ∈ lateRows t rest
  rw [mem_lateRows, mem_lateRows]
  refine and_congr_left fun hb => ?_
  have hnone : latest front b.openTime = none := by
    rw [latest_eq_none]
    intro hmem
    obtain ⟨old, hold, hopen⟩ := List.mem_map.mp hmem
    exact absurd (hopen ▸ h old hold) (not_lt.mpr hb)
  rw [latest_append, hnone, Option.or_none]

theorem length_le_lateRows {rows ys : List Bar} {t : Time} (hordered : Ordered rows)
    (h : ∀ b ∈ rows, t ≤ b.openTime) : rows.length ≤ (lateRows t (rows ++ ys)).length := by
  have hsub : rows.map Bar.openTime ⊆ (lateRows t (rows ++ ys)).map Bar.openTime := by
    intro u hu
    have hknown : latest (rows ++ ys) u ≠ none := by
      rw [ne_eq, latest_eq_none, not_not, List.map_append]
      exact List.mem_append_left _ hu
    obtain ⟨b, hb⟩ := Option.ne_none_iff_exists'.mp hknown
    obtain ⟨-, rfl⟩ := latest_eq_some hb
    obtain ⟨row, hrow, hopen⟩ := List.mem_map.mp hu
    refine List.mem_map.mpr ⟨b, mem_lateRows.mpr ⟨hb, ?_⟩, rfl⟩
    rw [← hopen]
    exact h row hrow
  have hle := (List.subperm_of_subset hordered.nodup hsub).length_le
  rwa [List.length_map, List.length_map] at hle

theorem mergeWindow_mergeWindow (r xs ys : List Bar) (maxBars : ℕ) :
    mergeWindow (mergeWindow r xs maxBars) ys maxBars = mergeWindow r (xs ++ ys) maxBars := by
  have hwhole : ∀ t, latest (sortIndex (keepLast (r ++ xs)) ++ ys) t =
      latest (r ++ (xs ++ ys)) t := by
    intro t
    rw [latest_append, latest_sortIndex_keepLast, ← List.append_assoc, latest_append (r ++ xs)]
  have hgoal : mergeWindow r (xs ++ ys) maxBars = trimRollingWindow
      (sortIndex (keepLast (sortIndex (keepLast (r ++ xs)) ++ ys))) maxBars := by
    rw [mergeWindow, sortIndex_keepLast_congr hwhole]
  rw [hgoal, mergeWindow, mergeWindow]
  have hordered := ordered_sortIndex_keepLast (r ++ xs)
  generalize sortIndex (keepLast (r ++ xs)) = rows at hordered
  rcases length_trimRollingWindow rows maxBars with hall | ⟨hpos, hlen⟩
  · rw [hall]
  · obtain ⟨front, hfront⟩ := trimRollingWindow_suffix rows maxBars
    generalize trimRollingWindow rows maxBars = tail at hlen hfront
    subst hfront
    cases tail with
    | nil => simp at hlen; omega
    | cons first later =>
      -- From the first kept bar on, both merges hold the same rows, and these fill the window.
      obtain ⟨-, htail, hfront⟩ := List.pairwise_append.mp hordered
      have hsame : lateRows first.openTime (front ++ first :: later ++ ys) =
          lateRows first.openTime (first :: later ++ ys) := by
        rw [List.append_assoc]
        exact lateRows_append fun b hb => hfront b hb first (by simp)
      have hlong : maxBars ≤ (lateRows first.openTime (first :: later ++ ys)).length := by
        rw [← hlen]
        refine length_le_lateRows htail fun b hb => ?_
        rcases List.mem_cons.mp hb with rfl | hb
        · exact le_rfl
        · exact ((List.pairwise_cons.mp htail).1 b hb).le
      rw [← trimRollingWindow_of_suffix (lateRows_suffix first.openTime _) (.inr ⟨hpos, hlong⟩),
        ← hsame]
      exact trimRollingWindow_of_suffix (lateRows_suffix _ _) (.inr ⟨hpos, hsame ▸ hlong⟩)

/-! ## Bars below the watermark -/

section Loop

variable {S : Type} {strategy : TradingStrategy S} {ev ev' : Evaluator S} {duration : Time}

/-- The evaluator is past the bar: it closed before the last evaluated one. -/
def Evaluator.Past (ev : Evaluator S) (duration : Time) (bar : Bar) : Prop :=
  ev.lastEvaluatedClose.any (bar.closeTime duration < ·) = true

instance (ev : Evaluator S) (duration : Time) : DecidablePred (ev.Past duration) := fun _ =>
  inferInstanceAs (Decidable (_ = true))

theorem Evaluator.past_iff {bar : Bar} :
    ev.Past duration bar ↔ ∃ w ∈ ev.lastEvaluatedClose, bar.closeTime duration < w := by
  simp [Past, Option.any_eq_true]

/-- A watermark that never moves back. -/
def Evaluator.Reached (ev ev' : Evaluator S) : Prop :=
  ∀ w ∈ ev.lastEvaluatedClose, ∃ w' ∈ ev'.lastEvaluatedClose, w ≤ w'

theorem Evaluator.Reached.refl (ev : Evaluator S) : ev.Reached ev := fun w hw => ⟨w, hw, le_rfl⟩

theorem Evaluator.Reached.trans {ev'' : Evaluator S} (h : ev.Reached ev') (h' : ev'.Reached ev'') :
    ev.Reached ev'' := by
  intro w hw
  obtain ⟨w', hw', hle⟩ := h w hw
  obtain ⟨w'', hw'', hle'⟩ := h' w' hw'
  exact ⟨w'', hw'', hle.trans hle'⟩

theorem Evaluator.Past.reached {bar : Bar} (hpast : ev.Past duration bar) (h : ev.Reached ev') :
    ev'.Past duration bar := by
  obtain ⟨w, hw, hlt⟩ := past_iff.mp hpast
  obtain ⟨w', hw', hle⟩ := h w hw
  exact past_iff.mpr ⟨w', hw', lt_of_lt_of_le hlt hle⟩

/-- The row of a bar that the evaluator is not past moves the watermark to it or leaves it. -/
theorem Evaluator.evaluateRow_reached (strategy : TradingStrategy S) (ev : Evaluator S)
    (row : BarRow) {bar : Bar} (hnew : ¬ ev.Past duration bar) :
    ev.Reached (ev.evaluateRow strategy row (bar.closeTime duration)).1 := by
  unfold evaluateRow
  dsimp only
  split
  · exact Reached.refl ev
  · split
    · intro w hw
      refine ⟨_, rfl, ?_⟩
      exact not_lt.mp fun hlt => hnew (past_iff.mpr ⟨w, hw, hlt⟩)
    · exact Reached.refl ev

theorem Evaluator.evaluateBars_filter (keep : Bar → Bool) {bars : List Bar}
    (h : ∀ b ∈ bars, keep b = false → ev.Past duration b) :
    ev.evaluateBars strategy duration none bars =
      ev.evaluateBars strategy duration none (bars.filter keep) := by
  induction bars generalizing ev with
  | nil => rfl
  | cons bar rest ih =>
    have hrest : ∀ b ∈ rest, keep b = false → ev.Past duration b := fun b hb =>
      h b (List.mem_cons_of_mem bar hb)
    by_cases hpast : ev.Past duration bar
    · have hskip : ∀ others, ev.evaluateBars strategy duration none (bar :: others) =
          ev.evaluateBars strategy duration none others := by
        intro others
        rw [evaluateBars]
        simp only [Option.any_none, Bool.false_eq_true, if_false]
        exact if_pos hpast
      rw [hskip]
      cases hkeep : keep bar with
      | false => rw [List.filter_cons_of_neg (by simp [hkeep]), ih hrest]
      | true => rw [List.filter_cons_of_pos hkeep, hskip, ih hrest]
    · have hkeep : keep bar = true := by
        by_contra hdrop
        exact hpast (h bar (by simp) (by simpa using hdrop))
      have hnew : ev.lastEvaluatedClose.any (bar.closeTime duration < ·) = false := by
        simpa [Past] using hpast
      rw [List.filter_cons_of_pos hkeep, evaluateBars, evaluateBars]
      simp only [Option.any_none, Bool.false_eq_true, if_false, hnew]
      split
      · rfl
      next frame _ =>
        split
        · exact ih hrest
        next row _ =>
          have hreached : ev.Reached (evaluateRow strategy { ev with
              strategy := (augmentIndicatorFrame strategy ev.strategy ev.rolling).1 } row
                (bar.closeTime duration)).1 := evaluateRow_reached strategy { ev with
              strategy := (augmentIndicatorFrame strategy ev.strategy ev.rolling).1 } row hpast
          split
          · rfl
          next ev' result heq =>
            rw [heq] at hreached
            rw [ih fun b hb hdrop => (hrest b hb hdrop).reached hreached]

theorem Evaluator.evaluateBars_reached {bars : List Bar} (hmode : ev.replayMode = false) :
    ev.Reached (ev.evaluateBars strategy duration none bars).1 ∧
      ∀ results, (ev.evaluateBars strategy duration none bars).2 = .ok results →
        ∀ r ∈ results, ∃ w ∈ (ev.evaluateBars strategy duration none bars).1.lastEvaluatedClose,
          r.barCloseTime ≤ w := by
  induction bars generalizing ev with
  | nil =>
    refine ⟨Reached.refl ev, fun results h => ?_⟩
    cases h
    exact fun r hr => absurd hr List.not_mem_nil
  | cons bar rest ih =>
    by_cases hpast : ev.lastEvaluatedClose.any (bar.closeTime duration < ·) = true
    · rw [evaluateBars]
      simp only [Option.any_none, Bool.false_eq_true, if_false, hpast, if_true]
      exact ih hmode
    · rw [evaluateBars]
      simp only [Option.any_none, Bool.false_eq_true, if_false, hpast]
      cases haugment : (augmentIndicatorFrame strategy ev.strategy ev.rolling).2 with
      | error e => exact ⟨Reached.refl ev, fun results h => by cases h⟩
      | ok frame =>
        dsimp only
        cases hloc : frame.loc bar.openTime with
        | none => exact @ih { ev with
            strategy := (augmentIndicatorFrame strategy ev.strategy ev.rolling).1 } hmode
        | some row =>
          dsimp only
          have hreached := evaluateRow_reached strategy { ev with
            strategy := (augmentIndicatorFrame strategy ev.strategy ev.rolling).1 } row hpast
          have hsetting := evaluateRow_setting strategy { ev with
            strategy := (augmentIndicatorFrame strategy ev.strategy ev.rolling).1 } row
            (bar.closeTime duration)
          cases heval : evaluateRow strategy { ev with
              strategy := (augmentIndicatorFrame strategy ev.strategy ev.rolling).1 } row
              (bar.closeTime duration) with
          | mk ev₁ result =>
            rw [heval] at hreached hsetting
            cases result with
            | error e => exact ⟨hreached, fun results h => by cases h⟩
            | ok result =>
              have hmode₁ : ev₁.replayMode = false := by
                simp only [setting, Prod.mk.injEq] at hsetting
                exact hsetting.2.2.2.2.2.trans hmode
              obtain ⟨hclose, hwatermark, -⟩ := evaluateRow_ok (by exact hmode) heval
              obtain ⟨hrest, hresults⟩ := ih hmode₁
              refine ⟨hreached.trans hrest, fun results h r hr => ?_⟩
              dsimp only at h
              cases hlater : (ev₁.evaluateBars strategy duration none rest).2 with
              | error e =>
                rw [hlater] at h
                cases h
              | ok later =>
                rw [hlater] at h
                cases h
                rcases List.mem_cons.mp hr with rfl | hr
                · rw [hclose]
                  exact hrest _ hwatermark
                · exact hresults later hlater r hr

end Loop

/-! ## First deliveries -/

section FirstDeliveries

variable {S : Type} {ev : Evaluator S} {duration : Time} {known : List Bar}

/-- A frame without the bars that it repeats. A bar is left out when it stands as it was last
delivered, and the evaluator has reached its close or the frame holds it already. -/
def firstDeliveries (ev : Evaluator S) (duration : Time) (known : List Bar) :
    List Bar → List Bar → List Bar
  | _, [] => []
  | kept, bar :: rest =>
    if latest (known ++ kept) bar.openTime = some bar ∧
        (ev.lastEvaluatedClose.any (bar.closeTime duration ≤ ·) = true ∨ bar ∈ kept) then
      firstDeliveries ev duration known kept rest
    else bar :: firstDeliveries ev duration known (kept ++ [bar]) rest

theorem firstDeliveries_sublist (kept bars : List Bar) :
    (firstDeliveries ev duration known kept bars).Sublist bars := by
  induction bars generalizing kept with
  | nil => exact List.Sublist.refl _
  | cons bar rest ih =>
    rw [firstDeliveries]
    split
    · exact (ih kept).cons bar
    · exact (ih _).cons_cons bar

theorem latest_repeated {bars rest : List Bar} {bar : Bar}
    (h : latest bars bar.openTime = some bar) (t : Time) :
    latest (bars ++ bar :: rest) t = latest (bars ++ rest) t := by
  rw [latest_append, latest_append, latest_cons, Option.or_assoc]
  congr 1
  by_cases ht : bar.openTime = t
  · subst ht
    simp [h]
  · simp [ht]

theorem latest_firstDeliveries (kept bars : List Bar) (t : Time) :
    latest (known ++ (kept ++ firstDeliveries ev duration known kept bars)) t =
      latest (known ++ (kept ++ bars)) t := by
  induction bars generalizing kept with
  | nil => rfl
  | cons bar rest ih =>
    rw [firstDeliveries]
    split
    next hrepeated =>
      rw [ih kept, ← List.append_assoc, ← List.append_assoc, latest_repeated hrepeated.1]
    · have hnext := ih (kept ++ [bar])
      simpa only [List.append_assoc, List.singleton_append] using hnext

/-- No bar of the frame that was delivered before closes at the watermark, and the frame repeats
only bars that the evaluator is past. -/
structure Clear (ev : Evaluator S) (duration : Time) (known frame : List Bar) : Prop where
  watermark : ∀ bar ∈ frame, latest known bar.openTime = some bar →
    ev.lastEvaluatedClose ≠ some (bar.closeTime duration)
  nodup : (frame.filter (fun b => ¬ ev.Past duration b)).Nodup

/-- Only bars that the evaluator is past are left out of a clear frame. -/
theorem Clear.filter_firstDeliveries {kept bars : List Bar}
    (h : Clear ev duration known (kept ++ bars)) :
    (firstDeliveries ev duration known kept bars).filter (fun b => ¬ ev.Past duration b) =
      bars.filter (fun b => ¬ ev.Past duration b) := by
  induction bars generalizing kept with
  | nil => rfl
  | cons bar rest ih =>
    rw [firstDeliveries]
    split
    next hrepeated =>
      have hpast : ev.Past duration bar := by
        by_contra hnew
        have hkept : bar ∉ kept := by
          intro hmem
          have hnodup := h.nodup
          rw [List.filter_append, List.filter_cons_of_pos (by simpa using hnew)] at hnodup
          exact (List.nodup_append.mp hnodup).2.2 bar
            (List.mem_filter.mpr ⟨hmem, by simpa using hnew⟩) bar (by simp) rfl
        obtain ⟨hlatest, hreached⟩ := hrepeated
        have hknown : latest known bar.openTime = some bar := by
          rw [latest_append] at hlatest
          cases hlast : latest kept bar.openTime with
          | none => simpa [hlast] using hlatest
          | some b =>
            rw [hlast] at hlatest
            obtain rfl : b = bar := Option.some.inj hlatest
            exact absurd (latest_eq_some hlast).1 hkept
        obtain ⟨w, hw, hle⟩ := (Option.any_eq_true _ _).mp (hreached.resolve_right hkept)
        rcases (of_decide_eq_true hle).lt_or_eq with hlt | heq
        · exact hnew (Evaluator.past_iff.mpr ⟨w, hw, hlt⟩)
        · exact h.watermark bar (by simp) hknown (heq ▸ hw)
      rw [List.filter_cons_of_neg (by simpa using hpast)]
      refine ih ⟨fun b hb => h.watermark b ?_, h.nodup.sublist ?_⟩
      · rcases List.mem_append.mp hb with hb | hb
        · exact List.mem_append_left _ hb
        · exact List.mem_append_right _ (List.mem_cons_of_mem _ hb)
      · exact ((List.sublist_cons_self bar rest).append_left kept).filter _
    · rw [List.filter_cons, List.filter_cons, ih]
      rw [List.append_assoc]
      exact h

end FirstDeliveries

/-! ## Runs -/

section Runs

variable {S : Type}

/-- What an evaluator is told between two evaluations. -/
inductive EvaluatorCall where
  | ingest (frame : List Bar)
  | setOpenTrade (trade : Option Trade)

/-- An evaluator with the bars it was given so far and the outcomes of its calls. -/
structure Feed (S : Type) where
  evaluator : Evaluator S
  known : List Bar
  outcomes : List (Except ExecutionError (List ForwardDecisionResult)) := []

namespace Feed

/-- The bars of the window are known at the start. -/
def start (ev : Evaluator S) : Feed S := { evaluator := ev, known := ev.rolling }

def step (strategy : TradingStrategy S) (feed : Feed S) : EvaluatorCall → Feed S
  | .ingest frame =>
    { evaluator := (feed.evaluator.ingestCompletedBars strategy frame).1
      known := feed.known ++ sortIndex frame
      outcomes := feed.outcomes ++ [(feed.evaluator.ingestCompletedBars strategy frame).2] }
  | .setOpenTrade trade => { feed with evaluator := feed.evaluator.setOpenTrade trade }

/-- The bars of a frame that were not delivered and passed before. -/
def newBars (feed : Feed S) (frame : List Bar) : List Bar :=
  match barDuration feed.evaluator.timeframe with
  | .error _ => frame
  | .ok duration => firstDeliveries feed.evaluator duration feed.known [] (sortIndex frame)

/-- The same call with every completed bar delivered once. -/
def stepOnce (strategy : TradingStrategy S) (feed : Feed S) : EvaluatorCall → Feed S
  | .ingest frame => feed.step strategy (.ingest (feed.newBars frame))
  | .setOpenTrade trade => feed.step strategy (.setOpenTrade trade)

/-- The frame of the call is clear. -/
def ClearCall (feed : Feed S) : EvaluatorCall → Prop
  | .ingest frame => ∀ duration, barDuration feed.evaluator.timeframe = .ok duration →
    Clear feed.evaluator duration feed.known (sortIndex frame)
  | .setOpenTrade _ => True

/-- The window is what a merge of all known bars leaves of them. -/
def Windowed (feed : Feed S) : Prop :=
  ∀ ys, mergeWindow feed.evaluator.rolling ys feed.evaluator.windowBound =
    mergeWindow [] (feed.known ++ ys) feed.evaluator.windowBound

theorem windowed_start (ev : Evaluator S) : (start ev).Windowed := fun _ => rfl

end Feed

theorem Evaluator.ingestCompletedBars_rolling (strategy : TradingStrategy S) (ev : Evaluator S)
    {frame : List Bar} (hne : frame ≠ []) :
    (ev.ingestCompletedBars strategy frame).1.rolling =
        mergeWindow ev.rolling (sortIndex frame) ev.windowBound ∧
      (ev.ingestCompletedBars strategy frame).1.windowBound = ev.windowBound := by
  cases hduration : barDuration ev.timeframe with
  | error e => simp [ingestCompletedBars, hne, hduration]
  | ok duration =>
    rw [ingestCompletedBars_eq strategy hne hduration]
    have hsetting := evaluateBars_setting strategy { ev with
      rolling := mergeWindow ev.rolling (sortIndex frame) ev.windowBound } duration none
      (sortIndex frame)
    simp only [setting, Prod.mk.injEq] at hsetting
    exact ⟨hsetting.2.2.2.1, hsetting.2.2.1⟩

theorem Feed.Windowed.step (strategy : TradingStrategy S) {feed : Feed S} (h : feed.Windowed)
    (call : EvaluatorCall) : (feed.step strategy call).Windowed := by
  cases call with
  | setOpenTrade trade => exact h
  | ingest frame =>
    intro ys
    by_cases hne : frame = []
    · subst hne
      simpa [Feed.step, Evaluator.ingestCompletedBars, sortIndex] using h ys
    · obtain ⟨hrolling, hbound⟩ := feed.evaluator.ingestCompletedBars_rolling strategy hne
      simp only [Feed.step]
      rw [hrolling, hbound, mergeWindow_mergeWindow, h, List.append_assoc]

/-- Two feeds whose evaluators differ at most in how the window was merged. -/
structure Feed.Alike (feed feed' : Feed S) : Prop where
  evaluator : ∀ rolling, { feed'.evaluator with rolling } = { feed.evaluator with rolling }
  told : ∀ t, latest feed'.known t = latest feed.known t
  outcomes : feed'.outcomes = feed.outcomes
  windowed : feed.Windowed
  windowed' : feed'.Windowed

theorem Feed.Alike.start (ev : Evaluator S) : (Feed.start ev).Alike (Feed.start ev) :=
  ⟨fun _ => rfl, fun _ => rfl, rfl, windowed_start ev, windowed_start ev⟩

section Alike

variable {strategy : TradingStrategy S} {feed feed' : Feed S} {duration : Time} {frame : List Bar}

theorem Feed.Alike.windowBound (h : feed.Alike feed') :
    feed'.evaluator.windowBound = feed.evaluator.windowBound := by
  have heq := congrArg Evaluator.windowBound (h.evaluator [])
  exact heq

theorem Feed.Alike.lastEvaluatedClose (h : feed.Alike feed') :
    feed'.evaluator.lastEvaluatedClose = feed.evaluator.lastEvaluatedClose := by
  have heq := congrArg Evaluator.lastEvaluatedClose (h.evaluator [])
  exact heq

theorem Feed.Alike.timeframe (h : feed.Alike feed') :
    feed'.evaluator.timeframe = feed.evaluator.timeframe := by
  have heq := congrArg Evaluator.timeframe (h.evaluator [])
  exact heq

/-- Frames that tell the same are merged into the same window. -/
theorem Feed.Alike.merge (h : feed.Alike feed') {xs ys : List Bar}
    (hlatest : ∀ t, latest (feed'.known ++ xs) t = latest (feed.known ++ ys) t) :
    mergeWindow feed'.evaluator.rolling xs feed'.evaluator.windowBound =
      mergeWindow feed.evaluator.rolling ys feed.evaluator.windowBound := by
  rw [h.windowed', h.windowed, h.windowBound]
  exact mergeWindow_congr hlatest [] _

theorem Feed.Alike.clear (h : feed.Alike feed') {bars : List Bar}
    (hclear : Clear feed.evaluator duration feed.known bars) :
    Clear feed'.evaluator duration feed'.known bars := by
  refine ⟨fun bar hbar hknown => ?_, ?_⟩
  · rw [h.lastEvaluatedClose]
    exact hclear.watermark bar hbar (by rw [← h.told]; exact hknown)
  · have hpast : feed'.evaluator.Past duration = feed.evaluator.Past duration := by
      funext b
      rw [Evaluator.Past, h.lastEvaluatedClose, Evaluator.Past]
    simp only [hpast]
    exact hclear.nodup

theorem Evaluator.evaluateBars_firstDeliveries {ev : Evaluator S} {known bars : List Bar}
    (h : Clear ev duration known bars) (rolling : List Bar) :
    evaluateBars strategy duration none (firstDeliveries ev duration known [] bars)
        { ev with rolling } =
      evaluateBars strategy duration none bars { ev with rolling } := by
  have hdrop : ∀ b : Bar, decide (¬ ev.Past duration b) = false →
      Past { ev with rolling } duration b := fun b hb => not_not.mp (of_decide_eq_false hb)
  rw [evaluateBars_filter (fun b => ¬ ev.Past duration b) fun b _ => hdrop b,
    Clear.filter_firstDeliveries (by simpa using h),
    ← evaluateBars_filter (fun b => ¬ ev.Past duration b) fun b _ => hdrop b]

theorem sortIndex_firstDeliveries (ev : Evaluator S) (known : List Bar) :
    sortIndex (firstDeliveries ev duration known [] (sortIndex frame)) =
      firstDeliveries ev duration known [] (sortIndex frame) := by
  have hsorted : (sortIndex frame).Pairwise (fun a b => a.openTime ≤ b.openTime) :=
    List.pairwise_insertionSort _ _
  exact (hsorted.sublist (firstDeliveries_sublist _ _)).insertionSort_eq

theorem Feed.Alike.step (h : feed.Alike feed') {call : EvaluatorCall}
    (hclear : feed.ClearCall call) :
    (feed.step strategy call).Alike (feed'.stepOnce strategy call) := by
  cases call with
  | setOpenTrade trade =>
    refine ⟨fun rolling => ?_, h.told, h.outcomes, h.windowed, h.windowed'⟩
    exact congrArg (fun ev => Evaluator.setOpenTrade ev trade) (h.evaluator rolling)
  | ingest frame =>
    have hwindowed := h.windowed.step strategy (.ingest frame)
    have hwindowed' := h.windowed'.step strategy (.ingest (feed'.newBars frame))
    by_cases hframe : frame = []
    · subst hframe
      have hnone : feed'.newBars [] = [] := by
        unfold newBars
        split <;> rfl
      refine ⟨?_, ?_, ?_, hwindowed, hwindowed'⟩
      · rw [stepOnce, hnone]
        exact h.evaluator
      · rw [stepOnce, hnone]
        simpa [Feed.step, sortIndex] using h.told
      · rw [stepOnce, hnone]
        simp [Feed.step, Evaluator.ingestCompletedBars, h.outcomes]
    · cases hduration : barDuration feed.evaluator.timeframe with
      | error e =>
        have hduration' : barDuration feed'.evaluator.timeframe = .error e := by
          rw [h.timeframe, hduration]
        have hall : feed'.newBars frame = frame := by rw [newBars, hduration']
        refine ⟨fun rolling => ?_, fun t => ?_, ?_, hwindowed, hwindowed'⟩
        · simpa [stepOnce, hall, Feed.step, Evaluator.ingestCompletedBars, hframe, hduration,
            hduration'] using h.evaluator rolling
        · simp [stepOnce, hall, Feed.step, latest_append, h.told]
        · simp [stepOnce, hall, Feed.step, Evaluator.ingestCompletedBars, hframe, hduration,
            hduration', h.outcomes]
      | ok duration =>
        have hduration' : barDuration feed'.evaluator.timeframe = .ok duration := by
          rw [h.timeframe, hduration]
        have hnew : feed'.newBars frame =
            firstDeliveries feed'.evaluator duration feed'.known [] (sortIndex frame) := by
          rw [newBars, hduration']
        have hclear' := h.clear (hclear duration hduration)
        have htold : ∀ t, latest (feed'.known ++ feed'.newBars frame) t =
            latest (feed.known ++ sortIndex frame) t := by
          intro t
          have hsame : latest (feed'.known ++ ([] ++ feed'.newBars frame)) t =
              latest (feed'.known ++ ([] ++ sortIndex frame)) t := by
            rw [hnew]
            exact latest_firstDeliveries [] (sortIndex frame) t
          rw [List.nil_append, List.nil_append] at hsame
          rw [hsame, latest_append, latest_append, h.told]
        have hsorted : sortIndex (feed'.newBars frame) = feed'.newBars frame := by
          rw [hnew]
          exact sortIndex_firstDeliveries _ _
        -- What the loop does to an evaluator with the merged window.
        have hloop : ∀ rolling, Evaluator.evaluateBars strategy duration none (feed'.newBars frame)
              { feed'.evaluator with rolling } =
            Evaluator.evaluateBars strategy duration none (sortIndex frame)
              { feed.evaluator with rolling } := by
          intro rolling
          rw [hnew, Evaluator.evaluateBars_firstDeliveries hclear' rolling, h.evaluator rolling]
        have hwhole := Evaluator.ingestCompletedBars_eq strategy hframe hduration
        by_cases hempty : feed'.newBars frame = []
        · have hstay := hloop (mergeWindow feed.evaluator.rolling (sortIndex frame)
            feed.evaluator.windowBound)
          rw [hempty] at hstay
          rw [← hstay] at hwhole
          refine ⟨fun rolling => ?_, fun t => ?_, ?_, hwindowed, hwindowed'⟩
          · rw [stepOnce, hempty]
            simp only [Feed.step, hwhole]
            rfl
          · rw [stepOnce]
            simp only [Feed.step, hsorted]
            exact htold t
          · rw [stepOnce, hempty]
            simp only [Feed.step, hwhole, h.outcomes]
            rfl
        · have hsame : feed'.evaluator.ingestCompletedBars strategy (feed'.newBars frame) =
              feed.evaluator.ingestCompletedBars strategy frame := by
            rw [Evaluator.ingestCompletedBars_eq strategy hempty hduration', hsorted, hloop,
              h.merge htold, hwhole]
          refine ⟨fun rolling => ?_, fun t => ?_, ?_, hwindowed, hwindowed'⟩
          · rw [stepOnce]
            simp only [Feed.step, hsame]
          · rw [stepOnce]
            simp only [Feed.step, hsorted]
            exact htold t
          · rw [stepOnce]
            simp only [Feed.step, hsame, h.outcomes]

end Alike

/-- What a live evaluator returned is up to its watermark. -/
structure Feed.Live (feed : Feed S) : Prop where
  replayMode : feed.evaluator.replayMode = false
  reached : ∀ results, .ok results ∈ feed.outcomes → ∀ r ∈ results,
    ∃ w ∈ feed.evaluator.lastEvaluatedClose, r.barCloseTime ≤ w

theorem Evaluator.ingestCompletedBars_reached (strategy : TradingStrategy S) {ev : Evaluator S}
    (hmode : ev.replayMode = false) (frame : List Bar) :
    ev.Reached (ev.ingestCompletedBars strategy frame).1 ∧
      ∀ results, (ev.ingestCompletedBars strategy frame).2 = .ok results → ∀ r ∈ results,
        ∃ w ∈ (ev.ingestCompletedBars strategy frame).1.lastEvaluatedClose, r.barCloseTime ≤ w := by
  by_cases hframe : frame = []
  · subst hframe
    refine ⟨Reached.refl ev, fun results h => ?_⟩
    cases h
    exact fun r hr => absurd hr List.not_mem_nil
  · cases hduration : barDuration ev.timeframe with
    | error e =>
      simp only [ingestCompletedBars, hframe, if_false, hduration]
      exact ⟨Reached.refl ev, fun results h => by cases h⟩
    | ok duration =>
      rw [ingestCompletedBars_eq strategy hframe hduration]
      exact @evaluateBars_reached _ _ { ev with
        rolling := mergeWindow ev.rolling (sortIndex frame) ev.windowBound } _ _ hmode

theorem Feed.Live.step (strategy : TradingStrategy S) {feed : Feed S} (h : feed.Live)
    (call : EvaluatorCall) : (feed.step strategy call).Live := by
  cases call with
  | setOpenTrade trade => exact ⟨h.replayMode, h.reached⟩
  | ingest frame =>
    obtain ⟨hreached, hresults⟩ :=
      Evaluator.ingestCompletedBars_reached strategy h.replayMode frame
    have hidentity := feed.evaluator.ingestCompletedBars_identity strategy frame none
    simp only [Evaluator.identity, Prod.mk.injEq] at hidentity
    refine ⟨hidentity.2.2.2.2.trans h.replayMode, fun results hmem r hr => ?_⟩
    rcases List.mem_append.mp hmem with hmem | hmem
    · obtain ⟨w, hw, hle⟩ := h.reached results hmem r hr
      obtain ⟨w', hw', hle'⟩ := hreached w hw
      exact ⟨w', hw', hle.trans hle'⟩
    · exact hresults results (List.mem_singleton.mp hmem).symm r hr

/-- In a run of clear frames, redelivered bars change no exit rule and no outcome. A bar that was
evaluated closes at the watermark or before, so that `newBars` leaves it out. -/
theorem redelivered_bars_harmless (strategy : TradingStrategy S) (ev : Evaluator S)
    (hmode : ev.replayMode = false) (calls : List EvaluatorCall)
    (h : Admissible (Feed.step strategy) Feed.ClearCall (.start ev) calls) :
    (run (Feed.stepOnce strategy) (.start ev) calls).evaluator.exitState =
        (run (Feed.step strategy) (.start ev) calls).evaluator.exitState ∧
      (run (Feed.stepOnce strategy) (.start ev) calls).outcomes =
        (run (Feed.step strategy) (.start ev) calls).outcomes ∧
      (run (Feed.step strategy) (.start ev) calls).Live := by
  have halike : (run (Feed.step strategy) (.start ev) calls).Alike
      (run (Feed.stepOnce strategy) (.start ev) calls) :=
    related_of_admissible Feed.Alike h (Feed.Alike.start ev) fun _ _ _ hclear halike =>
      halike.step hclear
  have hlive : (run (Feed.step strategy) (.start ev) calls).Live := by
    refine invariant_of_admissible Feed.Live h ⟨hmode, ?_⟩ fun feed call _ hfeed =>
      hfeed.step strategy call
    exact fun results hmem => absurd hmem List.not_mem_nil
  refine ⟨?_, halike.outcomes, hlive⟩
  have hstate := congrArg Evaluator.exitState (halike.evaluator [])
  exact hstate

end Runs

/-! ## A time stop that counts a bar twice -/

/-- Only a time stop of three bars acts. -/
def threeBarStrategy : TradingStrategy Unit where
  computeIndicators s bars := (s, .ok { bars })
  checkEntryConditions _ _ := .ok []
  checkExitConditions _ _ _ := .ok []
  exitParams := { maxBarsInTrade := 3 }
  sizeSignal _ _ := .ok none

def countedTrade : Trade :=
  { id := "exec-7", symbol := "WIN", action := .buy, quantity := 1, entryTime := 0
    entryPrice := 100, pointValue := 1 }

def countedEvaluator : Evaluator Unit :=
  { symbol := "WIN", timeframe := "M1", windowBound := 20, strategy := ()
    openTrade := some countedTrade }

/-- The bar that opens at a minute. -/
def quietBar (minute : ℤ) : Bar :=
  { openTime := minute * 60000000, open_ := 100, high := 101, low := 99, close := 100 }

/-- The second poll brings back the bar before the watermark and skips the watermark's own. -/
def spacedPolls : List EvaluatorCall :=
  [.ingest [quietBar 0, quietBar 1], .ingest [quietBar 0, quietBar 2]]

theorem redelivered_bars_harmless_spaced :
    (run (Feed.stepOnce threeBarStrategy) (.start countedEvaluator)
        spacedPolls).evaluator.exitState =
      (run (Feed.step threeBarStrategy) (.start countedEvaluator)
        spacedPolls).evaluator.exitState := by
  have hclear : Admissible (Feed.step threeBarStrategy) Feed.ClearCall (.start countedEvaluator)
      spacedPolls := by
    have hminute : barDuration "M1" = .ok 60000000 :=
      FallibleSteps.eq_ok_of_toOption (by decide +kernel)
    refine ⟨fun duration h => ?_, fun duration h => ?_, trivial⟩
    · obtain rfl := Except.ok.inj (hminute.symm.trans h)
      exact ⟨by decide +kernel, by decide +kernel⟩
    · have htimeframe : (Feed.step threeBarStrategy (.start countedEvaluator)
          (.ingest [quietBar 0, quietBar 1])).evaluator.timeframe = "M1" := by decide +kernel
      rw [htimeframe] at h
      obtain rfl := Except.ok.inj (hminute.symm.trans h)
      exact ⟨by decide +kernel, by decide +kernel⟩
  exact (redelivered_bars_harmless threeBarStrategy countedEvaluator rfl spacedPolls hclear).1

/-- The second poll repeats the first one, so that it holds the watermark's own bar. -/
def repeatedPolls : List EvaluatorCall :=
  [.ingest [quietBar 0, quietBar 1], .ingest [quietBar 0, quietBar 1]]

theorem watermark_bar_counted_twice :
    countedEvaluator.replayMode = false ∧
    ¬ (run (Feed.stepOnce threeBarStrategy) (.start countedEvaluator)
        repeatedPolls).evaluator.exitState =
      (run (Feed.step threeBarStrategy) (.start countedEvaluator)
        repeatedPolls).evaluator.exitState := by
  refine ⟨rfl, fun h => ?_⟩
  have honce : ((run (Feed.stepOnce threeBarStrategy) (.start countedEvaluator)
      repeatedPolls).evaluator.exitState "exec-7" .timeStop).bars = 2 := by decide +kernel
  have htwice : ((run (Feed.step threeBarStrategy) (.start countedEvaluator)
      repeatedPolls).evaluator.exitState "exec-7" .timeStop).bars = 3 := by decide +kernel
  rw [h, htwice] at honce
  exact absurd honce (by decide)

end QBackend.Execution
