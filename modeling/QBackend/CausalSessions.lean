import QBackend.SessionContext
import QBackend.CausalKernels
import QBackend.OrderedSeries

/-!
# Session context does not look ahead

The sessions of the first `n` rows are the first sessions of the frame, and all of them but the
last are complete. A value that is taken from the sessions before, from the opens of a session or
from the opening range after it has passed is the same on the first `n` rows as on the frame.
-/

namespace QBackend.GenomeDsl

open CausalSeries PriceFloat FallibleSteps OrderedSeries
open Execution (Time)

variable {F : Type}

/-! ## Dates in the order of the rows -/

theorem minutes_lt_of_spaced {x y : ℤ} (h : x + 60000000 ≤ y)
    (hday : x / 86400000000 = y / 86400000000) :
    x % 86400000000 / 60000000 < y % 86400000000 / 60000000 := by
  omega

theorem date_le_of_spaced {a b : Row F} (h : a.time + minute ≤ b.time) : a.date ≤ b.date := by
  have hle : (a.time : ℤ) ≤ b.time := by
    have hpos : (0 : ℤ) ≤ minute := by decide
    exact le_trans (Int.le_add_of_nonneg_right hpos) h
  exact Int.ediv_le_ediv (by decide) hle

theorem minutesOfDay_lt_of_spaced {a b : Row F} (h : a.time + minute ≤ b.time)
    (hdate : a.date = b.date) : a.minutesOfDay < b.minutesOfDay :=
  minutes_lt_of_spaced h hdate

theorem mem_sessionDates {rows : List (Row F)} {d : ℤ} :
    d ∈ sessionDates rows ↔ ∃ r ∈ rows, r.date = d := by
  simp [sessionDates, List.mem_dedup]

theorem sessionDates_ordered (rows : List (Row F)) : Ordered id (sessionDates rows) := by
  have hsorted : (sessionDates rows).Pairwise (fun a b => a ≤ b) := by
    have h : (sessionDates rows).Pairwise fun a b => decide (a ≤ b) = true := by
      refine List.pairwise_mergeSort ?_ ?_ _
      · intro a b c hab hbc
        simp only [decide_eq_true_eq] at hab hbc ⊢
        omega
      · intro a b
        simp only [Bool.or_eq_true, decide_eq_true_eq]
        omega
    exact h.imp fun hab => by simpa using hab
  have hnodup : (sessionDates rows).Nodup :=
    (List.mergeSort_perm _ _).nodup_iff.mpr (List.nodup_dedup _)
  exact hsorted.imp₂ (fun a b hle hne => lt_of_le_of_ne hle hne) hnodup

section Dates

variable {rows : List (Row F)} (hdates : rows.Pairwise fun a b => a.date ≤ b.date) (n : ℕ)

include hdates

theorem date_le_of_split : ∀ a ∈ rows.take n, ∀ b ∈ rows.drop n, a.date ≤ b.date := by
  rw [← List.take_append_drop n rows, List.pairwise_append] at hdates
  exact hdates.2.2

theorem sessionDates_split :
    ∃ later, sessionDates rows = sessionDates (rows.take n) ++ later := by
  let dates := sessionDates (rows.take n)
  refine ⟨(sessionDates rows).filter fun d => d ∉ dates, ?_⟩
  refine (sessionDates_ordered rows).eq_of_mem_iff ?_ ?_
  · refine List.pairwise_append.mpr ⟨sessionDates_ordered _,
      (sessionDates_ordered rows).filter _, ?_⟩
    intro d hd e he
    obtain ⟨he, hnot⟩ := List.mem_filter.mp he
    obtain ⟨a, ha, rfl⟩ := mem_sessionDates.mp hd
    obtain ⟨b, hb, rfl⟩ := mem_sessionDates.mp he
    have hb' : b ∈ rows.drop n := by
      rw [← List.take_append_drop n rows, List.mem_append] at hb
      rcases hb with hb | hb
      · exact absurd (mem_sessionDates.mpr ⟨b, hb, rfl⟩) (by simpa using hnot)
      · exact hb
    refine lt_of_le_of_ne (date_le_of_split hdates n a ha b hb') fun heq => ?_
    have hdate : a.date = b.date := heq
    exact absurd (hdate ▸ hd) (by simpa using hnot)
  · intro d
    simp only [List.mem_append, List.mem_filter]
    constructor
    · intro hd
      by_cases hmem : d ∈ dates
      · exact .inl hmem
      · exact .inr ⟨hd, by simpa using hmem⟩
    · rintro (hd | ⟨hd, -⟩)
      · obtain ⟨r, hr, rfl⟩ := mem_sessionDates.mp hd
        exact mem_sessionDates.mpr ⟨r, List.mem_of_mem_take hr, rfl⟩
      · exact hd

theorem length_sessionDates_take :
    (sessionDates (rows.take n)).length ≤ (sessionDates rows).length := by
  obtain ⟨later, hsplit⟩ := sessionDates_split hdates n
  rw [hsplit, List.length_append]
  exact Nat.le_add_right _ _

theorem sessionRows_take {d e : ℤ} (he : e ∈ sessionDates (rows.take n)) (hde : d < e) :
    sessionRows rows d = sessionRows (rows.take n) d := by
  unfold sessionRows
  conv_lhs => rw [← List.take_append_drop n rows, List.filter_append]
  have hnil : (rows.drop n).filter (fun r => r.date = d) = [] := by
    rw [List.filter_eq_nil_iff]
    intro b hb hdate
    obtain ⟨a, ha, rfl⟩ := mem_sessionDates.mp he
    have hle := date_le_of_split hdates n a ha b hb
    have hb' : b.date = d := by simpa using hdate
    omega
  rw [hnil, List.append_nil]

end Dates

/-! ## Values of sessions -/

variable [PriceFloat F]

theorem spaced_split (frame : Frame F) (n : ℕ) :
    ∀ a ∈ frame.rows.take n, ∀ b ∈ frame.rows.drop n, a.time + minute ≤ b.time := by
  have hspaced := frame.spaced
  rw [← List.take_append_drop n frame.rows, List.pairwise_append] at hspaced
  exact hspaced.2.2

theorem Frame.dates_sorted (frame : Frame F) : frame.rows.Pairwise fun a b => a.date ≤ b.date :=
  frame.spaced.imp date_le_of_spaced

omit [PriceFloat F] in
theorem sessionSeries_take {rows : List (Row F)}
    (hdates : rows.Pairwise fun a b => a.date ≤ b.date) (n : ℕ) (agg : List (Row F) → F) :
    (sessionSeries rows agg).take ((sessionDates (rows.take n)).length - 1) =
      (sessionSeries (rows.take n) agg).take ((sessionDates (rows.take n)).length - 1) := by
  obtain ⟨later, hsplit⟩ := sessionDates_split hdates n
  unfold sessionSeries
  rw [hsplit, List.map_append, List.take_append_of_le_length (by simp), ← List.map_take,
    ← List.map_take]
  refine List.map_congr_left fun d hd => ?_
  have hord := sessionDates_ordered (rows.take n)
  generalize hdates : sessionDates (rows.take n) = dates at hd hord
  rcases List.eq_nil_or_concat dates with rfl | ⟨init, last, rfl⟩
  · simp at hd
  · rw [List.concat_eq_append] at hd hord hdates
    have hd' : d ∈ init := by simpa using hd
    have hlt : d < last := (List.pairwise_append.mp hord).2.2 d hd' last (by simp)
    rw [sessionRows_take ‹_› n (by rw [hdates]; simp) hlt]

omit [PriceFloat F] in
theorem length_sessionSeries (rows : List (Row F)) (agg : List (Row F) → F) :
    (sessionSeries rows agg).length = (sessionDates rows).length := by
  simp [sessionSeries]

theorem previous_take_of_take {k : ℕ} {xs ys : List F} (hx : k ≤ xs.length) (hy : ys.length = k)
    (h : xs.take (k - 1) = ys.take (k - 1)) : (previous xs).take k = previous ys := by
  have hprev : ∀ zs : List F, previous zs =
      List.replicate (min 1 zs.length) nan ++ zs.take (zs.length - 1) := fun zs => rfl
  cases k with
  | zero =>
    have hnil : ys = [] := List.eq_nil_of_length_eq_zero hy
    subst hnil
    rfl
  | succ k =>
    simp only [Nat.add_sub_cancel] at h
    have hone : min 1 xs.length = 1 := by omega
    have hone' : min 1 ys.length = 1 := by omega
    rw [hprev, hprev, hone, hone', hy]
    simp only [List.replicate_one, List.singleton_append, List.take_succ_cons,
      Nat.add_sub_cancel, List.take_take]
    rw [← h]
    congr 2
    omega

omit [PriceFloat F] in
theorem lookup_zip_take {dates later : List ℤ} {values values' : List F} {d : ℤ}
    (hd : d ∈ dates) (hlen : values'.length = dates.length)
    (h : values.take dates.length = values') :
    ((dates ++ later).zip values).lookup d = (dates.zip values').lookup d := by
  have hprefix : (dates.zip values') <+: ((dates ++ later).zip values) := by
    rw [List.prefix_iff_eq_take, List.length_zip, hlen, Nat.min_self, ← zip_take, h,
      List.take_left]
  have hsome : ((dates.zip values').lookup d).isSome := by
    rw [List.lookup_isSome_iff]
    obtain ⟨i, hi, rfl⟩ := List.getElem_of_mem hd
    exact ⟨(dates[i], values'[i]), List.mem_iff_getElem.mpr
      ⟨i, by simp [hlen, hi], by simp⟩, by simp⟩
  obtain ⟨v, hv⟩ := Option.isSome_iff_exists.mp hsome
  rw [hv]
  exact hprefix.lookup_eq_some hv

section Mapped

variable {rows : List (Row F)} (hdates : rows.Pairwise fun a b => a.date ≤ b.date) (n : ℕ)

include hdates

theorem mapSessions_take {values values' : List F}
    (hlen : values'.length = (sessionDates (rows.take n)).length)
    (h : values.take (sessionDates (rows.take n)).length = values') :
    mapSessions (rows.take n) values' = (mapSessions rows values).take n := by
  obtain ⟨later, hsplit⟩ := sessionDates_split hdates n
  unfold mapSessions
  rw [← List.map_take]
  refine List.map_congr_left fun r hr => ?_
  rw [hsplit, lookup_zip_take (mem_sessionDates.mpr ⟨r, hr, rfl⟩) hlen h]

theorem mapSessions_previous_take (agg : List (Row F) → F)
    {g : List F → List F} (hg : Causal g) (hglen : ∀ xs, (g xs).length = xs.length) :
    mapSessions (rows.take n) (previous (g (sessionSeries (rows.take n) agg))) =
      (mapSessions rows (previous (g (sessionSeries rows agg)))).take n := by
  have hlen : (g (sessionSeries (rows.take n) agg)).length =
      (sessionDates (rows.take n)).length := by
    rw [hglen, length_sessionSeries]
  have hlen' : (sessionDates (rows.take n)).length ≤ (g (sessionSeries rows agg)).length := by
    rw [hglen, length_sessionSeries]
    exact length_sessionDates_take hdates n
  refine mapSessions_take hdates n ?_ ?_
  · rw [previous, length_shift, hlen]
  · refine previous_take_of_take hlen' hlen ?_
    rw [← hg, ← hg, sessionSeries_take hdates]

/-- The gap of each session, where the opens of the first sessions are known from the first `n`
rows. -/
theorem sessionGap_take
    (hopens : ∀ d ∈ sessionDates (rows.take n),
      sessionOpen (sessionRows rows d) = sessionOpen (sessionRows (rows.take n) d)) :
    sessionGap (rows.take n) = (sessionGap rows).take n := by
  obtain ⟨later, hsplit⟩ := sessionDates_split hdates n
  have hopen : (sessionSeries rows sessionOpen).take (sessionDates (rows.take n)).length =
      sessionSeries (rows.take n) sessionOpen := by
    unfold sessionSeries
    rw [hsplit, List.map_append, List.take_left' (by simp)]
    exact List.map_congr_left hopens
  have hclose : (previous (sessionSeries rows sessionClose)).take
      (sessionDates (rows.take n)).length =
        previous (sessionSeries (rows.take n) sessionClose) := by
    refine previous_take_of_take ?_ (length_sessionSeries _ _) (sessionSeries_take hdates n _)
    rw [length_sessionSeries]
    exact length_sessionDates_take hdates n
  refine mapSessions_take hdates n ?_ ?_
  · simp [previous, length_sessionSeries]
  · rw [List.take_zipWith, hopen, hclose]

end Mapped

theorem sessionOpen_take_of_known {rows : List (Row F)} (n : ℕ) {d : ℤ}
    (hknown : ∃ r ∈ rows.take n, r.date = d ∧ isNaN r.opn = false) :
    sessionOpen (sessionRows rows d) = sessionOpen (sessionRows (rows.take n) d) := by
  have hsplit : sessionRows rows d =
      sessionRows (rows.take n) d ++ sessionRows (rows.drop n) d := by
    unfold sessionRows
    conv_lhs => rw [← List.take_append_drop n rows, List.filter_append]
  obtain ⟨r, hr, hdate, hnumber⟩ := hknown
  have hmem : r.opn ∈ observed ((sessionRows (rows.take n) d).map Row.opn) := by
    refine List.mem_filter.mpr ⟨List.mem_map_of_mem (List.mem_filter.mpr ⟨hr, ?_⟩), ?_⟩
    · simpa using hdate
    · simp [hnumber]
  unfold sessionOpen firstNumber
  rw [hsplit, List.map_append]
  unfold observed at hmem ⊢
  rw [List.filter_append]
  cases hfirst : ((sessionRows (rows.take n) d).map Row.opn).filter fun x => !isNaN x with
  | nil =>
    rw [hfirst] at hmem
    cases hmem
  | cons first rest => rfl

/-! ## Each feature -/

@[simp] theorem rows_take (frame : Frame F) (n : ℕ) : (frame.take n).rows = frame.rows.take n := rfl

theorem column_take (frame : Frame F) (n : ℕ) (f : Row F → F) :
    (frame.take n).column f = (frame.column f).take n := List.map_take

theorem mapPreviousSession_take (frame : Frame F) (n : ℕ) (agg : List (Row F) → F) :
    mapPreviousSession (frame.take n) agg = (mapPreviousSession frame agg).take n :=
  mapSessions_previous_take frame.dates_sorted n agg (fun _ _ => rfl) (fun _ => rfl)

theorem computeD1Trend_take (frame : Frame F) (n : ℕ) :
    computeD1Trend (frame.take n) = (computeD1Trend frame).take n := by
  refine mapSessions_previous_take frame.dates_sorted n sessionClose
    (g := fun xs => (relativeChange d1TrendLookback xs).map sign) ?_ ?_
  · intro k xs
    show (relativeChange d1TrendLookback (xs.take k)).map sign =
      ((relativeChange d1TrendLookback xs).map sign).take k
    rw [relativeChange_take (by decide), List.map_take]
  · intro xs
    simp [relativeChange]

theorem computeD1Volatility_eq (frame : Frame F) :
    computeD1Volatility frame = .ok (mapSessions frame.rows (previous
      ((rolling d1VolWindow.toNat (fun w =>
        let obs := observed w
        if max d1VolWindow.toNat 1 ≤ obs.length then std obs else nan)
        (logReturns (sessionSeries frame.rows sessionClose))).map
          fun s => mul s (sqrt (ofRat 252))))) := rfl

theorem computeD1Volatility_cuts (frame : Frame F) (n : ℕ) :
    Cuts n (computeD1Volatility frame) (computeD1Volatility (frame.take n)) := by
  rw [computeD1Volatility_eq, computeD1Volatility_eq]
  refine mapsTo_ok (mapSessions_previous_take frame.dates_sorted n sessionClose
    (g := fun xs => (rolling d1VolWindow.toNat (fun w =>
        let obs := observed w
        if max d1VolWindow.toNat 1 ≤ obs.length then std obs else nan) (logReturns xs)).map
          fun s => mul s (sqrt (ofRat 252))) ?_ ?_)
  · intro k xs
    beta_reduce
    rw [logReturns_take, rolling_causal, List.map_take]
  · intro xs
    simp [logReturns, previous]

theorem computeSessionGap_take (frame : Frame F) (n : ℕ) :
    computeSessionGap (frame.take n) = (computeSessionGap frame).take n := by
  refine sessionGap_take frame.dates_sorted n fun d hd => ?_
  obtain ⟨r, hr, hdate⟩ := mem_sessionDates.mp hd
  exact sessionOpen_take_of_known n
    ⟨r, hr, hdate, frame.opens r (List.mem_of_mem_take hr)⟩

theorem openingLevel_take (frame : Frame F) (n : ℕ) (openMinutes rangeMinutes : ℤ)
    (extreme : List (Row F) → F) :
    openingLevel (frame.rows.take n) openMinutes rangeMinutes extreme =
      (openingLevel frame.rows openMinutes rangeMinutes extreme).take n := by
  unfold openingLevel
  rw [← List.map_take]
  refine List.map_congr_left fun r hr => ?_
  split
  next hafter =>
    obtain ⟨m, hm, hle⟩ := Option.any_eq_true _ _ |>.mp hafter
    have hle := of_decide_eq_true hle
    congr 1
    unfold openingRange
    conv_rhs => rw [← List.take_append_drop n frame.rows, List.filter_append]
    have hnil : (frame.rows.drop n).filter (fun s => decide (s.date = r.date) &&
        (minutesFromOpen openMinutes s).any (fun k => decide (k ≤ rangeMinutes))) = [] := by
      rw [List.filter_eq_nil_iff]
      intro s hs hcond
      simp only [Bool.and_eq_true, decide_eq_true_eq, Option.any_eq_true] at hcond
      obtain ⟨hdate, k, hk, hle'⟩ := hcond
      have hspaced := spaced_split frame n r hr s hs
      have hminutes := minutesOfDay_lt_of_spaced hspaced hdate.symm
      unfold minutesFromOpen at hk hm
      split at hk
      · split at hm
        · have hk' := Option.some.inj hk
          have hm' := Option.some.inj hm
          omega
        · cases hm
      · cases hk
    rw [hnil, List.append_nil]
  next => rfl

end QBackend.GenomeDsl
