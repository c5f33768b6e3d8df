import QBackend.CausalSessions
import Mathlib.Algebra.Order.Ring.Rat
import Mathlib.Tactic.Linarith

/-!
# Session context on any frame

`compute_session_context_bundle` and `compute_opening_range_levels` where the times of the bars only
increase: bars may be shorter than a minute, and opens need not be numbers. The gap of a session
needs its first open that is a number, and the opening range is shown from its last minute on, in which
there may be more bars.
-/

namespace QBackend.GenomeDsl

open CausalSeries PriceFloat FallibleSteps OrderedSeries
open Execution (Time)

/-- Rows with strictly increasing times. -/
structure BarFrame (F : Type) where
  rows : List (Row F)
  increasing : rows.Pairwise fun a b => a.time < b.time

/-- The lookbacks of `SessionContextConfig`, which the bundle reads. -/
structure SessionContextConfig where
  d1TrendLookback : ℤ := 5
  d1VolWindow : ℤ := 21

/-! ## Columns -/

section Columns

variable {F : Type} [PriceFloat F] (rows : List (Row F))

def computeSessionContextBundle (config : SessionContextConfig) :
    Except Failure (List (String × List F)) := do
  let volatility ← d1Volatility rows config.d1VolWindow
  pure [("_ctx_prev_session_high", previousSessionValues rows sessionHigh),
    ("_ctx_prev_session_low", previousSessionValues rows sessionLow),
    ("_ctx_prev_session_close", previousSessionValues rows sessionClose),
    ("_ctx_session_gap", sessionGap rows),
    ("_ctx_d1_prev_high", previousSessionValues rows sessionHigh),
    ("_ctx_d1_prev_low", previousSessionValues rows sessionLow),
    ("_ctx_d1_prev_close", previousSessionValues rows sessionClose),
    ("_ctx_d1_trend", d1Trend rows config.d1TrendLookback),
    ("_ctx_d1_volatility", volatility)]

/-- The values of all columns and of the two levels at a row. -/
def contextAt (config : SessionContextConfig) (sessionOpen : String) (rangeMinutes : ℤ) (t : ℕ) :
    Except Failure (List (String × Option F) × Option F × Option F) := do
  let columns ← computeSessionContextBundle rows config
  let levels ← openingRangeLevels rows sessionOpen rangeMinutes
  pure (columns.map fun column => (column.1, column.2[t]?), levels.1[t]?, levels.2[t]?)

end Columns

/-- Frames that agree up to the row agree on the values at the row. -/
def CausalAt {F : Type} [PriceFloat F] (config : SessionContextConfig) (sessionOpen : String)
    (rangeMinutes : ℤ) (frame : BarFrame F) (t : ℕ) : Prop :=
  ∀ frame' : BarFrame F, frame'.rows.take (t + 1) = frame.rows.take (t + 1) →
    contextAt frame'.rows config sessionOpen rangeMinutes t =
      contextAt frame.rows config sessionOpen rangeMinutes t

/-! ## When a row settles its values -/

section Settled

variable {F : Type} [PriceFloat F]

/-- The session of the row has a number among its opens so far, or the day ends with the row. -/
def OpenSettled (rows : List (Row F)) (r : Row F) : Prop :=
  (∃ s ∈ rows, s.date = r.date ∧ isNaN s.opn = false) ∨ r.time % day = day - 1

/-- The row is not in the last minute of the opening range, or that minute ends with the row. -/
def RangeSettled (openMinutes rangeMinutes : ℤ) (r : Row F) : Prop :=
  minutesFromOpen openMinutes r ≠ some rangeMinutes ∨ r.time % minute = minute - 1

/-- The close of the session before that of the row. -/
def previousClose (rows : List (Row F)) (r : Row F) : F :=
  match ((sessionDates rows).filter fun d => d < r.date).getLast? with
  | some d => sessionClose (sessionRows rows d)
  | none => nan

end Settled

/-! ## Times -/

section Times

variable {F : Type} {rows : List (Row F)} {r s : Row F}

theorem date_le_of_lt (h : r.time < s.time) : r.date ≤ s.date :=
  Int.ediv_le_ediv (by decide) h.le

theorem minutes_le_of_lt {x y : ℤ} (h : x < y) (hday : x / 86400000000 = y / 86400000000) :
    x % 86400000000 / 60000000 ≤ y % 86400000000 / 60000000 := by
  omega

theorem minutesOfDay_le_of_lt (h : r.time < s.time) (hdate : r.date = s.date) :
    r.minutesOfDay ≤ s.minutesOfDay :=
  minutes_le_of_lt h hdate

theorem date_lt_of_day_end {x y : ℤ} (h : x < y) (hend : x % 86400000000 = 86400000000 - 1) :
    x / 86400000000 < y / 86400000000 := by
  omega

theorem minutes_lt_of_minute_end {x y : ℤ} (h : x < y)
    (hday : x / 86400000000 = y / 86400000000) (hend : x % 60000000 = 60000000 - 1) :
    x % 86400000000 / 60000000 < y % 86400000000 / 60000000 := by
  omega

theorem next_in_day {x : ℤ} (h : x % 86400000000 ≠ 86400000000 - 1) :
    (x + 1) / 86400000000 = x / 86400000000 := by
  omega

theorem next_in_minute {x : ℤ} (h : x % 60000000 ≠ 60000000 - 1) :
    (x + 1) / 86400000000 = x / 86400000000 ∧
      (x + 1) % 86400000000 / 60000000 = x % 86400000000 / 60000000 := by
  omega

theorem BarFrame.dates_sorted (frame : BarFrame F) :
    frame.rows.Pairwise fun a b => a.date ≤ b.date :=
  frame.increasing.imp date_le_of_lt

theorem BarFrame.later (frame : BarFrame F) {t : ℕ} (hr : frame.rows[t]? = some r)
    (hs : s ∈ frame.rows.drop (t + 1)) : r.time < s.time := by
  have hincreasing := frame.increasing
  rw [← List.take_append_drop (t + 1) frame.rows, List.pairwise_append] at hincreasing
  refine hincreasing.2.2 r ?_ s hs
  obtain ⟨ht, rfl⟩ := List.getElem?_eq_some_iff.mp hr
  exact List.mem_take_iff_getElem.mpr ⟨t, by omega, rfl⟩

end Times

/-! ## The gap at a row -/

section Gap

variable {F : Type} [PriceFloat F] {rows : List (Row F)} {r : Row F} {t : ℕ}

theorem mapSessions_getElem? (hr : rows[t]? = some r) (values : List F) :
    (mapSessions rows values)[t]? =
      some ((((sessionDates rows).zip values).lookup r.date).getD nan) := by
  unfold mapSessions
  rw [List.getElem?_map, hr]
  rfl

omit [PriceFloat F] in
theorem lookup_zip_zipWith {dates : List ℤ} (f : F → F → F) (a : ℤ → F) {values : List F}
    (hlen : values.length = dates.length) (d : ℤ) :
    (dates.zip (List.zipWith f (dates.map a) values)).lookup d =
      ((dates.zip values).lookup d).map (f (a d)) := by
  induction dates generalizing values with
  | nil => rfl
  | cons e dates ih =>
    cases values with
    | nil => cases hlen
    | cons v values =>
      rw [List.map_cons, List.zipWith_cons_cons, List.zip_cons_cons, List.zip_cons_cons]
      by_cases heq : d = e
      · subst heq
        rw [List.lookup_cons_self, List.lookup_cons_self]
        rfl
      · rw [List.lookup_cons, List.lookup_cons, beq_eq_false_iff_ne.mpr heq]
        exact ih (Nat.succ.inj hlen)

omit [PriceFloat F] in
theorem lookup_zip_cons {dates : List ℤ} (hsorted : Ordered id dates) (a : ℤ → F) (first : F)
    {d : ℤ} (hd : d ∈ dates) :
    (dates.zip (first :: dates.map a)).lookup d =
      some (((dates.filter fun e => e < d).getLast?.map a).getD first) := by
  induction dates generalizing first with
  | nil => cases hd
  | cons e dates ih =>
    obtain ⟨hlt, hsorted⟩ := List.pairwise_cons.mp hsorted
    rw [List.zip_cons_cons, List.map_cons]
    by_cases heq : d = e
    · subst heq
      have hnone : (d :: dates).filter (fun e => decide (e < d)) = [] := by
        rw [List.filter_eq_nil_iff]
        intro x hx hxd
        have hxd := of_decide_eq_true hxd
        obtain rfl | hx := List.mem_cons.mp hx
        · exact lt_irrefl _ hxd
        · exact lt_irrefl _ ((hlt x hx).trans hxd)
      rw [List.lookup_cons_self, hnone]
      rfl
    · have hd' : d ∈ dates := (List.mem_cons.mp hd).resolve_left heq
      have hed : e < d := hlt d hd'
      rw [List.lookup_cons, beq_eq_false_iff_ne.mpr heq,
        List.filter_cons_of_pos (by simpa using hed)]
      show (dates.zip (a e :: dates.map a)).lookup d = _
      rw [ih hsorted (a e) hd', List.getLast?_cons, Option.map_some, Option.getD_some]
      cases (dates.filter fun e => decide (e < d)).getLast? <;> rfl

omit [PriceFloat F] in
theorem zip_previous [PriceFloat F] (dates : List ℤ) (a : ℤ → F) :
    dates.zip (previous (dates.map a)) = dates.zip (nan :: dates.map a) := by
  cases dates with
  | nil => rfl
  | cons e dates =>
    have hprevious : previous ((e :: dates).map a) =
        (nan :: (e :: dates).map a).take (e :: dates).length := by
      simp [previous, shift]
    have htake := zip_take (e :: dates).length (e :: dates) (nan :: (e :: dates).map a)
    rw [List.take_length] at htake
    rw [hprevious, htake, List.take_of_length_le (by simp)]

theorem previousClose_eq (hr : rows[t]? = some r) :
    (previousSessionValues rows sessionClose)[t]? = some (previousClose rows r) := by
  have hmem : r.date ∈ sessionDates rows := mem_sessionDates.mpr ⟨r, List.mem_of_getElem? hr, rfl⟩
  unfold previousSessionValues previousClose sessionSeries
  rw [mapSessions_getElem? hr, zip_previous, lookup_zip_cons (sessionDates_ordered rows) _ _ hmem]
  cases ((sessionDates rows).filter fun e => decide (e < r.date)).getLast? <;> rfl

theorem sessionGap_getElem? (hr : rows[t]? = some r) :
    (sessionGap rows)[t]? =
      some (sub (div (sessionOpen (sessionRows rows r.date)) (previousClose rows r)) one) := by
  have hmem : r.date ∈ sessionDates rows := mem_sessionDates.mpr ⟨r, List.mem_of_getElem? hr, rfl⟩
  unfold sessionGap sessionSeries previousClose
  rw [mapSessions_getElem? hr, lookup_zip_zipWith _ _ (by simp [previous]), zip_previous,
    lookup_zip_cons (sessionDates_ordered rows) _ _ hmem]
  cases ((sessionDates rows).filter fun e => decide (e < r.date)).getLast? <;> rfl

end Gap

/-! ## The values at a row -/

section Values

variable {F : Type} [PriceFloat F] (rows : List (Row F)) (config : SessionContextConfig)

/-- The volatility of a window that is not negative. -/
def volatilityColumn (window : ℤ) : List F :=
  mapSessions rows (previous ((rolling window.toNat (fun w =>
    let obs := observed w
    if max window.toNat 1 ≤ obs.length then std obs else nan)
    (logReturns (sessionSeries rows sessionClose))).map fun s => mul s (sqrt (ofRat 252))))

theorem d1Volatility_eq (window : ℤ) : d1Volatility rows window =
    if window < 0 then .error (.valueError "window must be an integer 0 or greater")
    else .ok (volatilityColumn rows window) := by
  unfold d1Volatility computeRealizedVol rollingValue
  split <;> rfl

/-- The values of the columns at a row. -/
def columnsAt (t : ℕ) : List (String × Option F) :=
  [("_ctx_prev_session_high", (previousSessionValues rows sessionHigh)[t]?),
    ("_ctx_prev_session_low", (previousSessionValues rows sessionLow)[t]?),
    ("_ctx_prev_session_close", (previousSessionValues rows sessionClose)[t]?),
    ("_ctx_session_gap", (sessionGap rows)[t]?),
    ("_ctx_d1_prev_high", (previousSessionValues rows sessionHigh)[t]?),
    ("_ctx_d1_prev_low", (previousSessionValues rows sessionLow)[t]?),
    ("_ctx_d1_prev_close", (previousSessionValues rows sessionClose)[t]?),
    ("_ctx_d1_trend", (d1Trend rows config.d1TrendLookback)[t]?),
    ("_ctx_d1_volatility", (volatilityColumn rows config.d1VolWindow)[t]?)]

/-- Only the window and the text of the open of the session raise exceptions. -/
theorem contextAt_eq (sessionOpen : String) (rangeMinutes : ℤ) (t : ℕ) :
    contextAt rows config sessionOpen rangeMinutes t =
      if config.d1VolWindow < 0 then
        .error (.valueError "window must be an integer 0 or greater")
      else (hhmmToMinutes sessionOpen).map fun openMinutes => (columnsAt rows config t,
        (openingLevel rows openMinutes rangeMinutes sessionHigh)[t]?,
        (openingLevel rows openMinutes rangeMinutes sessionLow)[t]?) := by
  unfold contextAt computeSessionContextBundle openingRangeLevels
  rw [d1Volatility_eq]
  split
  · rfl
  · cases hhmmToMinutes sessionOpen <;> rfl

end Values

/-! ## Values that are settled -/

section Prefix

variable {F : Type} [PriceFloat F] (frame : BarFrame F) {r : Row F} {t : ℕ}

theorem previousSessionValues_take (n : ℕ) (agg : List (Row F) → F) :
    previousSessionValues (frame.rows.take n) agg = (previousSessionValues frame.rows agg).take n :=
  mapSessions_previous_take frame.dates_sorted n agg (fun _ _ => rfl) (fun _ => rfl)

theorem d1Trend_take {lookback : ℤ} (hlookback : 0 ≤ lookback) (n : ℕ) :
    d1Trend (frame.rows.take n) lookback = (d1Trend frame.rows lookback).take n := by
  refine mapSessions_previous_take frame.dates_sorted n sessionClose
    (g := fun xs => (relativeChange lookback xs).map sign) ?_ ?_
  · intro k xs
    show (relativeChange lookback (xs.take k)).map sign =
      ((relativeChange lookback xs).map sign).take k
    rw [relativeChange_take hlookback, List.map_take]
  · intro xs
    simp [relativeChange]

theorem volatilityColumn_take (window : ℤ) (n : ℕ) :
    volatilityColumn (frame.rows.take n) window = (volatilityColumn frame.rows window).take n := by
  refine mapSessions_previous_take frame.dates_sorted n sessionClose
    (g := fun xs => (rolling window.toNat (fun w =>
        let obs := observed w
        if max window.toNat 1 ≤ obs.length then std obs else nan) (logReturns xs)).map
          fun s => mul s (sqrt (ofRat 252))) ?_ ?_
  · intro k xs
    beta_reduce
    rw [logReturns_take, rolling_causal, List.map_take]
  · intro xs
    simp [logReturns, previous]

theorem getElem?_take_succ {α : Type} (xs : List α) (t : ℕ) : (xs.take (t + 1))[t]? = xs[t]? :=
  List.getElem?_take_of_lt (Nat.lt_succ_self t)

variable (hr : frame.rows[t]? = some r)

include hr

theorem previousClose_take :
    previousClose frame.rows r = previousClose (frame.rows.take (t + 1)) r := by
  have hprefix : (frame.rows.take (t + 1))[t]? = some r := by rw [getElem?_take_succ, hr]
  have hclose := previousClose_eq hprefix
  rw [previousSessionValues_take, getElem?_take_succ, previousClose_eq hr] at hclose
  exact Option.some.inj hclose

theorem sessionOpen_settled (h : OpenSettled (frame.rows.take (t + 1)) r) :
    sessionOpen (sessionRows frame.rows r.date) =
      sessionOpen (sessionRows (frame.rows.take (t + 1)) r.date) := by
  obtain hknown | hend := h
  · exact sessionOpen_take_of_known (t + 1) hknown
  · have hnil : sessionRows (frame.rows.drop (t + 1)) r.date = [] := by
      refine List.filter_eq_nil_iff.mpr fun s hs hdate => ?_
      have hlt := date_lt_of_day_end (frame.later hr hs) hend
      exact hlt.ne' (of_decide_eq_true hdate)
    have hsplit : sessionRows frame.rows r.date =
        sessionRows (frame.rows.take (t + 1)) r.date ++
          sessionRows (frame.rows.drop (t + 1)) r.date := by
      unfold sessionRows
      rw [← List.filter_append, List.take_append_drop]
    rw [hsplit, hnil, List.append_nil]

theorem sessionGap_settled (h : OpenSettled (frame.rows.take (t + 1)) r) :
    (sessionGap frame.rows)[t]? = (sessionGap (frame.rows.take (t + 1)))[t]? := by
  have hprefix : (frame.rows.take (t + 1))[t]? = some r := by rw [getElem?_take_succ, hr]
  rw [sessionGap_getElem? hr, sessionGap_getElem? hprefix, sessionOpen_settled frame hr h,
    previousClose_take frame hr]

omit [PriceFloat F] in
theorem openingRange_settled {openMinutes rangeMinutes : ℤ}
    (h : RangeSettled openMinutes rangeMinutes r)
    (hshown : (minutesFromOpen openMinutes r).any fun m => decide (rangeMinutes ≤ m)) :
    openingRange frame.rows openMinutes rangeMinutes r.date =
      openingRange (frame.rows.take (t + 1)) openMinutes rangeMinutes r.date := by
  have hnil : openingRange (frame.rows.drop (t + 1)) openMinutes rangeMinutes r.date = [] := by
    refine List.filter_eq_nil_iff.mpr fun s hs hin => ?_
    have hlater := frame.later hr hs
    simp only [Bool.and_eq_true, decide_eq_true_eq, Option.any_eq_true] at hin hshown
    obtain ⟨hdate, k, hk, hkle⟩ := hin
    obtain ⟨m, hm, hmle⟩ := hshown
    have hminutes := minutesOfDay_le_of_lt hlater hdate.symm
    unfold minutesFromOpen at hk hm
    split at hk
    next hsopen =>
      split at hm
      next hropen =>
        have hk' := Option.some.inj hk
        have hm' := Option.some.inj hm
        obtain hne | hend := h
        · refine hne ?_
          unfold minutesFromOpen
          rw [if_pos hropen]
          congr 1
          omega
        · have hlt : r.minutesOfDay < s.minutesOfDay :=
            minutes_lt_of_minute_end hlater hdate.symm hend
          omega
      next => cases hm
    next => cases hk
  have hsplit : openingRange frame.rows openMinutes rangeMinutes r.date =
      openingRange (frame.rows.take (t + 1)) openMinutes rangeMinutes r.date ++
        openingRange (frame.rows.drop (t + 1)) openMinutes rangeMinutes r.date := by
    unfold openingRange
    rw [← List.filter_append, List.take_append_drop]
  rw [hsplit, hnil, List.append_nil]

omit hr in
theorem openingLevel_getElem? {rows : List (Row F)} (hr : rows[t]? = some r)
    (openMinutes rangeMinutes : ℤ) (extreme : List (Row F) → F) :
    (openingLevel rows openMinutes rangeMinutes extreme)[t]? =
      some (if (minutesFromOpen openMinutes r).any fun m => decide (rangeMinutes ≤ m) then
        extreme (openingRange rows openMinutes rangeMinutes r.date) else nan) := by
  unfold openingLevel
  rw [List.getElem?_map, hr]
  rfl

theorem openingLevel_settled {openMinutes rangeMinutes : ℤ}
    (h : RangeSettled openMinutes rangeMinutes r) (extreme : List (Row F) → F) :
    (openingLevel frame.rows openMinutes rangeMinutes extreme)[t]? =
      (openingLevel (frame.rows.take (t + 1)) openMinutes rangeMinutes extreme)[t]? := by
  have hprefix : (frame.rows.take (t + 1))[t]? = some r := by rw [getElem?_take_succ, hr]
  rw [openingLevel_getElem? hr, openingLevel_getElem? hprefix]
  split
  next hshown => rw [openingRange_settled frame hr h hshown]
  next => rfl

omit hr in
theorem columnsAt_take {config : SessionContextConfig} (hlookback : 0 ≤ config.d1TrendLookback)
    (hgap : (sessionGap frame.rows)[t]? = (sessionGap (frame.rows.take (t + 1)))[t]?) :
    columnsAt frame.rows config t = columnsAt (frame.rows.take (t + 1)) config t := by
  unfold columnsAt
  rw [hgap, previousSessionValues_take, previousSessionValues_take, previousSessionValues_take,
    d1Trend_take frame hlookback, volatilityColumn_take]
  simp only [getElem?_take_succ]

theorem contextAt_settled {config : SessionContextConfig} (hlookback : 0 ≤ config.d1TrendLookback)
    {sessionOpen : String} {rangeMinutes : ℤ}
    (hgap : (sessionGap frame.rows)[t]? = (sessionGap (frame.rows.take (t + 1)))[t]?)
    (hrange : ∀ openMinutes, hhmmToMinutes sessionOpen = .ok openMinutes →
      RangeSettled openMinutes rangeMinutes r) :
    contextAt frame.rows config sessionOpen rangeMinutes t =
      contextAt (frame.rows.take (t + 1)) config sessionOpen rangeMinutes t := by
  rw [contextAt_eq, contextAt_eq, columnsAt_take frame hlookback hgap]
  split
  · rfl
  · cases hopen : hhmmToMinutes sessionOpen with
    | error e => rfl
    | ok openMinutes =>
      simp only [Except.map]
      rw [openingLevel_settled frame hr (hrange openMinutes hopen),
        openingLevel_settled frame hr (hrange openMinutes hopen)]

end Prefix

section Agreement

variable {F : Type} [PriceFloat F] {frame frame' : BarFrame F} {r : Row F} {t : ℕ}

omit [PriceFloat F] in
theorem getElem?_of_agree (hr : frame.rows[t]? = some r)
    (hagree : frame'.rows.take (t + 1) = frame.rows.take (t + 1)) : frame'.rows[t]? = some r := by
  rw [← getElem?_take_succ, hagree, getElem?_take_succ, hr]

theorem causalAt_of_settled {config : SessionContextConfig} (hlookback : 0 ≤ config.d1TrendLookback)
    {sessionOpen : String} {rangeMinutes : ℤ} (hr : frame.rows[t]? = some r)
    (hopen : OpenSettled (frame.rows.take (t + 1)) r)
    (hrange : ∀ openMinutes, hhmmToMinutes sessionOpen = .ok openMinutes →
      RangeSettled openMinutes rangeMinutes r) :
    CausalAt config sessionOpen rangeMinutes frame t := by
  intro frame' hagree
  have hr' := getElem?_of_agree hr hagree
  rw [contextAt_settled frame hr hlookback (sessionGap_settled frame hr hopen) hrange,
    contextAt_settled frame' hr' hlookback (sessionGap_settled frame' hr' (hagree ▸ hopen)) hrange,
    hagree]

end Agreement

/-! ## Rows that do not settle their values -/

section Next

variable {F : Type} {frame : BarFrame F} {r : Row F} {t : ℕ}

theorem time_le_of_take (hr : frame.rows[t]? = some r) :
    ∀ a ∈ frame.rows.take (t + 1), a.time ≤ r.time := by
  intro a ha
  obtain ⟨ht, rfl⟩ := List.getElem?_eq_some_iff.mp hr
  obtain ⟨i, hi, rfl⟩ := List.mem_take_iff_getElem.mp ha
  obtain rfl | hlt := Nat.eq_or_lt_of_le (show i ≤ t by omega)
  · exact le_rfl
  · exact (List.pairwise_iff_getElem.mp frame.increasing i t (by omega) ht hlt).le

/-- The row an instant later, with these prices. -/
def nextRow (r : Row F) (opn high low : F) : Row F :=
  { r with time := r.time + 1, opn, high, low }

/-- The rows up to a row, and another one an instant later. -/
def BarFrame.withNext (frame : BarFrame F) (hr : frame.rows[t]? = some r) (opn high low : F) :
    BarFrame F where
  rows := frame.rows.take (t + 1) ++ [nextRow r opn high low]
  increasing := by
    refine List.pairwise_append.mpr ⟨frame.increasing.sublist (List.take_sublist _ _),
      List.pairwise_singleton _ _, fun a ha b hb => ?_⟩
    obtain rfl := List.mem_singleton.mp hb
    exact Int.lt_add_one_of_le (time_le_of_take hr a ha)

theorem withNext_agree (hr : frame.rows[t]? = some r) (opn high low : F) :
    (frame.withNext hr opn high low).rows.take (t + 1) = frame.rows.take (t + 1) := by
  obtain ⟨ht, -⟩ := List.getElem?_eq_some_iff.mp hr
  exact List.take_left' (by rw [List.length_take]; omega)

end Next

section Exact

theorem observed_some {xs : List (Option ℚ)} {x : Option ℚ} (h : x ∈ observed xs) :
    ∃ q, x = some q := by
  have hnumber := (List.mem_filter.mp h).2
  cases x with
  | none => cases hnumber
  | some q => exact ⟨q, rfl⟩

theorem exists_greater (xs : List (Option ℚ)) : ∃ b : ℚ, ∀ x ∈ xs, ∀ q, x = some q → q < b := by
  induction xs with
  | nil => exact ⟨0, by simp⟩
  | cons x xs ih =>
    obtain ⟨b, hb⟩ := ih
    cases x with
    | none =>
      refine ⟨b, fun x hx q hq => ?_⟩
      obtain rfl | hx := List.mem_cons.mp hx
      · cases hq
      · exact hb x hx q hq
    | some p =>
      refine ⟨max b (p + 1), fun x hx q hq => ?_⟩
      obtain rfl | hx := List.mem_cons.mp hx
      · obtain rfl := Option.some.inj hq
        exact lt_max_of_lt_right (lt_add_one p)
      · exact lt_max_of_lt_left (hb x hx q hq)

theorem foldl_max_mem (xs : List (Option ℚ)) (x : Option ℚ) :
    xs.foldl (fun a b => if lt a b then b else a) x ∈ x :: xs := by
  induction xs generalizing x with
  | nil => exact List.mem_cons_self
  | cons y xs ih =>
    rw [List.foldl_cons]
    obtain heq | hmem := List.mem_cons.mp (ih (if lt x y then y else x))
    · rw [heq]
      split
      · exact List.mem_cons_of_mem _ List.mem_cons_self
      · exact List.mem_cons_self
    · exact List.mem_cons_of_mem _ (List.mem_cons_of_mem _ hmem)

/-- A number that is greater than all others is the largest. -/
theorem largest_append_greater {xs : List (Option ℚ)} {h : ℚ}
    (hx : ∀ x ∈ xs, ∃ q, x = some q ∧ q < h) : largest (xs ++ [some h]) = some h := by
  cases xs with
  | nil => rfl
  | cons x xs =>
    obtain ⟨q, hq, hlt⟩ := hx _ (foldl_max_mem xs x)
    show (xs ++ [some h]).foldl (fun a b => if lt a b then b else a) x = some h
    rw [List.foldl_append, hq]
    exact if_pos (decide_eq_true hlt)

variable {frame : BarFrame (Option ℚ)} {r : Row (Option ℚ)} {t : ℕ}
  {config : SessionContextConfig} {sessionOpen : String} {openMinutes rangeMinutes : ℤ}

/-- The open of the session is settled, or no gap can be computed from the close before. -/
def GapSettled (rows : List (Row (Option ℚ))) (r : Row (Option ℚ)) : Prop :=
  OpenSettled rows r ∨ previousClose rows r = none ∨ previousClose rows r = some 0

theorem sessionGap_exact (hr : frame.rows[t]? = some r)
    (h : GapSettled (frame.rows.take (t + 1)) r) :
    (sessionGap frame.rows)[t]? = (sessionGap (frame.rows.take (t + 1)))[t]? := by
  obtain hopen | hclose := h
  · exact sessionGap_settled frame hr hopen
  · have hprefix : (frame.rows.take (t + 1))[t]? = some r := by rw [getElem?_take_succ, hr]
    have hnone : ∀ x : Option ℚ,
        sub (div x (previousClose (frame.rows.take (t + 1)) r)) one = (none : Option ℚ) := by
      intro x
      obtain hnone | hzero := hclose
      · rw [hnone]
        cases x <;> rfl
      · rw [hzero]
        cases x <;> rfl
    rw [sessionGap_getElem? hr, sessionGap_getElem? hprefix, previousClose_take frame hr, hnone,
      hnone]

/-- Values that are the same say that the gap and the level are. -/
theorem values_of_contextAt_eq (hwindow : 0 ≤ config.d1VolWindow)
    (hopen : hhmmToMinutes sessionOpen = .ok openMinutes) {rows rows' : List (Row (Option ℚ))}
    (h : contextAt rows config sessionOpen rangeMinutes t =
      contextAt rows' config sessionOpen rangeMinutes t) :
    (sessionGap rows)[t]? = (sessionGap rows')[t]? ∧
      (openingLevel rows openMinutes rangeMinutes sessionHigh)[t]? =
        (openingLevel rows' openMinutes rangeMinutes sessionHigh)[t]? := by
  rw [contextAt_eq, contextAt_eq, if_neg (not_lt.mpr hwindow), if_neg (not_lt.mpr hwindow),
    hopen] at h
  have hvalues := Except.ok.inj h
  have hcolumns := congrArg (fun values => values.1[3]?) hvalues
  exact ⟨(Prod.mk.inj (Option.some.inj hcolumns)).2, congrArg (fun values => values.2.1) hvalues⟩

theorem gapSettled_of_causalAt (hwindow : 0 ≤ config.d1VolWindow)
    (hopen : hhmmToMinutes sessionOpen = .ok openMinutes) (hr : frame.rows[t]? = some r)
    (h : CausalAt config sessionOpen rangeMinutes frame t) :
    GapSettled (frame.rows.take (t + 1)) r := by
  by_contra hunsettled
  obtain ⟨hunopened, hnone, hzero⟩ : ¬ OpenSettled (frame.rows.take (t + 1)) r ∧
      previousClose (frame.rows.take (t + 1)) r ≠ none ∧
      previousClose (frame.rows.take (t + 1)) r ≠ some 0 := by
    unfold GapSettled at hunsettled
    tauto
  obtain ⟨hunknown, hday⟩ : (¬ ∃ s ∈ frame.rows.take (t + 1), s.date = r.date ∧
      isNaN s.opn = false) ∧ r.time % day ≠ day - 1 := by
    unfold OpenSettled at hunopened
    tauto
  obtain ⟨close, hclose⟩ := Option.ne_none_iff_exists'.mp hnone
  have hclosene : close ≠ 0 := by
    rintro rfl
    exact hzero hclose
  have hobserved : observed ((sessionRows (frame.rows.take (t + 1)) r.date).map Row.opn) = [] := by
    refine List.filter_eq_nil_iff.mpr fun x hx hnumber => hunknown ?_
    obtain ⟨s, hs, rfl⟩ := List.mem_map.mp hx
    obtain ⟨hs, hdate⟩ := List.mem_filter.mp hs
    exact ⟨s, hs, of_decide_eq_true hdate, by simpa using hnumber⟩
  have hgap : ∀ o : ℚ, (sessionGap (frame.withNext hr (some o) none none).rows)[t]? =
      some (some (o / close - 1)) := by
    intro o
    have hagree := withNext_agree hr (some o) none none
    have hr' := getElem?_of_agree hr hagree
    have hdate : (nextRow r (some o) none none).date = r.date := next_in_day hday
    have hrows : sessionRows (frame.withNext hr (some o) none none).rows r.date =
        sessionRows (frame.rows.take (t + 1)) r.date ++ [nextRow r (some o) none none] := by
      unfold BarFrame.withNext sessionRows
      rw [List.filter_append, List.filter_cons_of_pos (by simpa using hdate), List.filter_nil]
    have hsession : GenomeDsl.sessionOpen (sessionRows
        (frame.withNext hr (some o) none none).rows r.date) = some o := by
      unfold GenomeDsl.sessionOpen firstNumber
      rw [hrows, List.map_append]
      unfold observed at hobserved ⊢
      rw [List.filter_append, hobserved]
      rfl
    rw [sessionGap_getElem? hr', previousClose_take _ hr', hagree, hclose, hsession]
    show some ((if close = 0 then none else some (o / close)).bind
      fun a => (some (1 : ℚ)).map fun b => a - b) = _
    rw [if_neg hclosene]
    rfl
  have hsame : ∀ o : ℚ, some (some (o / close - 1)) = (sessionGap frame.rows)[t]? := fun o => by
    rw [← hgap o]
    exact (values_of_contextAt_eq hwindow hopen
      (h _ (withNext_agree hr (some o) none none))).1
  have htwo := (hsame close).trans (hsame (2 * close)).symm
  have hvalue := Option.some.inj (Option.some.inj htwo)
  rw [div_self hclosene, mul_div_assoc, div_self hclosene] at hvalue
  norm_num at hvalue

theorem rangeSettled_of_causalAt (hwindow : 0 ≤ config.d1VolWindow)
    (hopen : hhmmToMinutes sessionOpen = .ok openMinutes) (hr : frame.rows[t]? = some r)
    (h : CausalAt config sessionOpen rangeMinutes frame t) :
    RangeSettled openMinutes rangeMinutes r := by
  by_contra hunsettled
  obtain ⟨hlast, hminute⟩ : minutesFromOpen openMinutes r = some rangeMinutes ∧
      r.time % minute ≠ minute - 1 := by
    unfold RangeSettled at hunsettled
    tauto
  obtain ⟨bound, hbound⟩ := exists_greater ((openingRange (frame.rows.take (t + 1)) openMinutes
    rangeMinutes r.date).map Row.high)
  have hlevel : ∀ high : ℚ, bound ≤ high → (openingLevel
      (frame.withNext hr none (some high) none).rows openMinutes rangeMinutes sessionHigh)[t]? =
        some (some high) := by
    intro high hle
    have hagree := withNext_agree hr none (some high) none
    have hr' := getElem?_of_agree hr hagree
    obtain ⟨hdate, hminutes⟩ := next_in_minute hminute
    have hnext : minutesFromOpen openMinutes (nextRow r none (some high) none) =
        some rangeMinutes := by
      rw [← hlast]
      unfold minutesFromOpen
      have heq : (nextRow r none (some high) none).minutesOfDay = r.minutesOfDay := hminutes
      rw [heq]
    have hrange : openingRange (frame.withNext hr none (some high) none).rows openMinutes
        rangeMinutes r.date = openingRange (frame.rows.take (t + 1)) openMinutes rangeMinutes
          r.date ++ [nextRow r none (some high) none] := by
      have hdate' : (nextRow r none (some high) none).date = r.date := hdate
      unfold BarFrame.withNext openingRange
      rw [List.filter_append, List.filter_cons_of_pos (by simp [hdate', hnext]), List.filter_nil]
    rw [openingLevel_getElem? hr', if_pos (by simp [hlast]), hrange]
    congr 1
    unfold sessionHigh
    rw [List.map_append]
    have hsplit : observed (((openingRange (frame.rows.take (t + 1)) openMinutes rangeMinutes
        r.date).map Row.high) ++ [nextRow r none (some high) none].map Row.high) =
        observed ((openingRange (frame.rows.take (t + 1)) openMinutes rangeMinutes r.date).map
          Row.high) ++ [some high] := by
      unfold observed
      rw [List.filter_append]
      rfl
    rw [hsplit]
    refine largest_append_greater fun x hx => ?_
    obtain ⟨q, rfl⟩ := observed_some hx
    exact ⟨q, rfl, (hbound _ (List.mem_of_mem_filter hx) q rfl).trans_le hle⟩
  have hsame : ∀ high : ℚ, bound ≤ high → some (some high) =
      (openingLevel frame.rows openMinutes rangeMinutes sessionHigh)[t]? := fun high hle => by
    rw [← hlevel high hle]
    exact (values_of_contextAt_eq hwindow hopen
      (h _ (withNext_agree hr none (some high) none))).2
  have htwo := (hsame bound le_rfl).trans (hsame (bound + 1) (by linarith)).symm
  have hvalue := Option.some.inj (Option.some.inj htwo)
  linarith

end Exact

/-- The values of a row are causal where the row settles its open and its opening range; with exact
prices they are causal only there or where no gap can be computed. -/
theorem session_context_causal_iff (config : SessionContextConfig)
    (hlookback : 0 ≤ config.d1TrendLookback) (sessionOpen : String) (rangeMinutes : ℤ) :
    (∀ (F : Type) [PriceFloat F] (frame : BarFrame F) (t : ℕ) (r : Row F),
        frame.rows[t]? = some r → OpenSettled (frame.rows.take (t + 1)) r →
        (∀ openMinutes, hhmmToMinutes sessionOpen = .ok openMinutes →
          RangeSettled openMinutes rangeMinutes r) →
        CausalAt config sessionOpen rangeMinutes frame t) ∧
      ∀ openMinutes, hhmmToMinutes sessionOpen = .ok openMinutes → 0 ≤ config.d1VolWindow →
        ∀ (frame : BarFrame (Option ℚ)) (t : ℕ) (r : Row (Option ℚ)), frame.rows[t]? = some r →
          (CausalAt config sessionOpen rangeMinutes frame t ↔
            GapSettled (frame.rows.take (t + 1)) r ∧ RangeSettled openMinutes rangeMinutes r) := by
  refine ⟨fun F _ frame t r hr hopen hrange => causalAt_of_settled hlookback hr hopen hrange, ?_⟩
  intro openMinutes hopen hwindow frame t r hr
  constructor
  · intro h
    exact ⟨gapSettled_of_causalAt hwindow hopen hr h, rangeSettled_of_causalAt hwindow hopen hr h⟩
  · rintro ⟨hgap, hrange⟩ frame' hagree
    have hr' := getElem?_of_agree hr hagree
    have hsettled : ∀ m, hhmmToMinutes sessionOpen = .ok m → RangeSettled m rangeMinutes r := by
      intro m hm
      rw [hopen] at hm
      exact Except.ok.inj hm ▸ hrange
    rw [contextAt_settled frame hr hlookback (sessionGap_exact hr hgap) hsettled,
      contextAt_settled frame' hr' hlookback (sessionGap_exact hr' (hagree ▸ hgap)) hsettled,
      hagree]

/-! ## Bars of half a minute -/

/-- A bar at this time. -/
def barAt (time : Time) (high : ℚ) : Row (Option ℚ) where
  time
  opn := some 10
  high := some high
  low := some 5
  close := some 10
  volume := some 1
  exog _ := none

def oneBar (a : Row (Option ℚ)) : BarFrame (Option ℚ) := ⟨[a], List.pairwise_singleton _ _⟩

def twoBars (a b : Row (Option ℚ)) (h : a.time < b.time) : BarFrame (Option ℚ) :=
  ⟨[a, b], List.pairwise_pair.mpr h⟩

theorem nine_oclock : hhmmToMinutes "09:00" = .ok 540 := by
  refine eq_ok_of_toOption ?_
  decide +kernel

theorem session_context_causal_iff_noon :
    0 ≤ (5 : ℤ) ∧ CausalAt {} "09:00" 60 (oneBar (barAt (12 * 60 * minute) 10)) 0 := by
  refine ⟨by decide, ((session_context_causal_iff {} (by decide) "09:00" 60).2 540
    nine_oclock (by decide) (oneBar (barAt (12 * 60 * minute) 10)) 0 _ rfl).mpr ⟨?_, ?_⟩⟩
  · exact .inl (.inl ⟨_, List.mem_cons_self, rfl, rfl⟩)
  · exact .inl (by decide)

/-- At ten o'clock the high of the first hour is 10, and 20 if a bar half a minute later has that
high. -/
theorem opening_range_looks_ahead :
    ¬ CausalAt {} "09:00" 60 (oneBar (barAt (10 * 60 * minute) 10)) 0 := by
  intro h
  have hlater : (barAt (10 * 60 * minute) 10).time <
      (barAt (10 * 60 * minute + 30000000) 20).time := by decide
  have hsame := (values_of_contextAt_eq (by decide) nine_oclock
    (h (twoBars (barAt (10 * 60 * minute) 10) (barAt (10 * 60 * minute + 30000000) 20) hlater)
      rfl)).2
  have hten : (openingLevel (oneBar (barAt (10 * 60 * minute) 10)).rows 540 60 sessionHigh)[0]? =
      some (some 10) := by decide +kernel
  have htwenty : (openingLevel [barAt (10 * 60 * minute) 10,
      barAt (10 * 60 * minute + 30000000) 20] 540 60 sessionHigh)[0]? = some (some 20) := by
    decide +kernel
  exact absurd ((htwenty.symm.trans hsame).trans hten) (by decide)

end QBackend.GenomeDsl
