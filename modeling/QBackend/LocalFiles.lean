import QBackend.IsoTimestamps
import QBackend.MarketDataStore
import QBackend.SortedPartitions
import Mathlib.Data.Int.ConditionallyCompleteOrder
import Mathlib.Data.Nat.Find

/-!
# The parquet files of the local store

`write_ohlcv`, `read_ohlcv`, `write_ticks` and `read_ticks_columnar` of `local_store.py`, with the
files of a series apart: candles by year and ticks by month. `sort_values` is a parameter, of which
only that it sorts is known. Times are naive, in microseconds since 1970; ticks carry milliseconds.
-/

namespace QBackend.LocalFiles

open Execution (Time)
open IsoTimestamps MarketData OrderedSeries SortedPartitions

/-! ## Years and months -/

/-- The microseconds since the start of year one. -/
def sinceYearOne (t : Time) : ℤ := t + 719162 * 86400000000

def yearOf (t : Time) : ℕ :=
  Nat.findGreatest
    (fun year => (Timestamp.daysBeforeYear year : ℤ) * 86400000000 ≤ sinceYearOne t) 9999

/-- The days before a month, where months count from the first of year one. -/
def monthStart (month : ℕ) : ℕ :=
  Timestamp.daysBeforeYear (month / 12 + 1) +
    Timestamp.daysBeforeMonth (month / 12 + 1) (month % 12 + 1)

def monthOf (t : Time) : ℕ :=
  Nat.findGreatest (fun month => (monthStart month : ℤ) * 86400000000 ≤ sinceYearOne t) 119988

def monthOfMsc (msc : ℤ) : ℕ := monthOf (msc * 1000)

theorem sinceYearOne_mono {s t : Time} (h : s ≤ t) : sinceYearOne s ≤ sinceYearOne t :=
  Int.add_le_add_right h _

theorem monotone_yearOf : Monotone yearOf := fun _ _ hst =>
  Nat.findGreatest_mono_left (fun _ hyear => hyear.trans (sinceYearOne_mono hst)) 9999

theorem monotone_monthOf : Monotone monthOf := fun _ _ hst =>
  Nat.findGreatest_mono_left (fun _ hmonth => hmonth.trans (sinceYearOne_mono hst)) 119988

theorem monotone_monthOfMsc : Monotone monthOfMsc := fun _ _ hst =>
  monotone_monthOf (Int.mul_le_mul_of_nonneg_right hst (by decide))

theorem monthOfMsc_floor (t : Time) : monthOfMsc (t / 1000) = monthOf t := by
  have hiff : ∀ month : ℕ, (monthStart month : ℤ) * 86400000000 ≤ sinceYearOne (t / 1000 * 1000) ↔
      (monthStart month : ℤ) * 86400000000 ≤ sinceYearOne t := by
    intro month
    unfold sinceYearOne
    omega
  unfold monthOfMsc monthOf
  congr 1
  funext month
  exact propext (hiff month)

/-- The numbers from one to another. -/
def span (first last : ℕ) : List ℕ := List.range' first (last + 1 - first)

theorem pairwise_span (first last : ℕ) : (span first last).Pairwise (· < ·) :=
  List.pairwise_lt_range'

theorem mem_span {first last n : ℕ} (hfirst : first ≤ n) (hlast : n ≤ last) :
    n ∈ span first last := by
  rw [span, List.mem_range'_1]
  omega

/-! ## Candles -/

section Candles

variable {Quote : Type}

/-- The files of the years by directory; where there is no file there are no rows. -/
abbrev OhlcvFiles (Quote : Type) := String × String → ℕ → List (OHLCV Quote)

structure OhlcvWrite (Quote : Type) where
  symbol : String
  timeframe : String
  bars : List (OHLCV Quote)

variable (isWord : Char → Bool) (sort : List (OHLCV Quote) → List (OHLCV Quote))

def OhlcvWrite.dir (w : OhlcvWrite Quote) : String × String := seriesDir isWord w.symbol w.timeframe

def writeOhlcv (files : OhlcvFiles Quote) (w : OhlcvWrite Quote) : OhlcvFiles Quote :=
  Function.update files (w.dir isWord)
    (writeRows OHLCV.time yearOf sort (files (w.dir isWord)) w.bars)

def writeAll (writes : List (OhlcvWrite Quote)) : OhlcvFiles Quote :=
  writes.foldl (writeOhlcv isWord sort) fun _ _ => []

/-- The rows in the range, sorted, and sorted once more as they become bars. -/
def readOhlcv (files : OhlcvFiles Quote) (symbol timeframe : String) (start stop : Time) :
    List (OHLCV Quote) :=
  if start > stop then []
  else
    let years := span (yearOf start) (yearOf stop)
    sort (readRows OHLCV.time sort (files (seriesDir isWord symbol timeframe)) years start stop)

/-- The bars written under a symbol and timeframe, in the order they came. -/
def writtenFor (writes : List (OhlcvWrite Quote)) (symbol timeframe : String) :
    List (OHLCV Quote) :=
  (writes.filter fun w => w.symbol = symbol ∧ w.timeframe.toUpper = timeframe.toUpper).flatMap
    OhlcvWrite.bars

/-- The bars written into a directory, in the order they came. -/
def writtenIn (writes : List (OhlcvWrite Quote)) (dir : String × String) : List (List (OHLCV Quote)) :=
  (writes.filter fun w => w.dir isWord = dir).map OhlcvWrite.bars

/-- Each series that was written reads back, in order and over every range, as the bars that were
the last written for their times, and the last list written may be written again. -/
structure LastWriteWins (writes : List (OhlcvWrite Quote)) : Prop where
  ordered : ∀ w ∈ writes, ∀ start stop,
    Ordered OHLCV.time
      (readOhlcv isWord sort (writeAll isWord sort writes) w.symbol w.timeframe start stop)
  last : ∀ w ∈ writes, ∀ start stop bar,
    bar ∈ readOhlcv isWord sort (writeAll isWord sort writes) w.symbol w.timeframe start stop ↔
      (start ≤ bar.time ∧ bar.time ≤ stop) ∧
        lastWrite OHLCV.time (writtenFor writes w.symbol w.timeframe) bar.time = some bar
  again : ∀ w ∈ writes.getLast?,
    writeOhlcv isWord sort (writeAll isWord sort writes) w = writeAll isWord sort writes

/-- Two bars of one time that go into one directory are equal, and every bar that goes into the
directory of a series is written under that series too. -/
structure Consistent (writes : List (OhlcvWrite Quote)) : Prop where
  values : ∀ w ∈ writes, ∀ w' ∈ writes, w.dir isWord = w'.dir isWord →
    ∀ b ∈ w.bars, ∀ b' ∈ w'.bars, b.time = b'.time → b = b'
  series : ∀ w ∈ writes, ∀ w' ∈ writes, w.dir isWord = w'.dir isWord →
    ∀ b ∈ w'.bars, b ∈ writtenFor writes w.symbol w.timeframe

variable {isWord sort} {writes : List (OhlcvWrite Quote)} {w : OhlcvWrite Quote}
  {dir : String × String} {bar : OHLCV Quote}

/-- A directory holds what was written into it, as if there were no other. -/
theorem writeAll_dir (writes : List (OhlcvWrite Quote)) (dir : String × String) :
    writeAll isWord sort writes dir =
      writeBatches OHLCV.time yearOf sort (writtenIn isWord writes dir) := by
  have hrun : ∀ files : OhlcvFiles Quote, writes.foldl (writeOhlcv isWord sort) files dir =
      (writtenIn isWord writes dir).foldl (writeRows OHLCV.time yearOf sort) (files dir) := by
    induction writes with
    | nil => exact fun _ => rfl
    | cons w writes ih =>
      intro files
      rw [List.foldl_cons, ih]
      by_cases hdir : w.dir isWord = dir
      · rw [writtenIn, writtenIn, List.filter_cons_of_pos (by simpa using hdir), List.map_cons,
          List.foldl_cons, writeOhlcv, hdir, Function.update_self]
      · rw [writtenIn, writtenIn, List.filter_cons_of_neg (by simpa using hdir), writeOhlcv,
          Function.update_of_ne (Ne.symm hdir)]
  exact hrun _

theorem mem_writtenIn :
    bar ∈ (writtenIn isWord writes dir).flatten ↔
      ∃ w ∈ writes, w.dir isWord = dir ∧ bar ∈ w.bars := by
  simp only [writtenIn, List.mem_flatten, List.mem_map, List.mem_filter, decide_eq_true_eq]
  constructor
  · rintro ⟨_, ⟨w, ⟨hw, hdir⟩, rfl⟩, hbar⟩
    exact ⟨w, hw, hdir, hbar⟩
  · rintro ⟨w, hw, hdir, hbar⟩
    exact ⟨_, ⟨w, ⟨hw, hdir⟩, rfl⟩, hbar⟩

theorem mem_writtenIn_of_writtenFor {symbol timeframe : String}
    (h : bar ∈ writtenFor writes symbol timeframe) :
    bar ∈ (writtenIn isWord writes (seriesDir isWord symbol timeframe)).flatten := by
  obtain ⟨w, hw, hbar⟩ := List.mem_flatMap.mp h
  obtain ⟨hw, hseries⟩ := List.mem_filter.mp hw
  obtain ⟨hsymbol, htimeframe⟩ := of_decide_eq_true hseries
  refine mem_writtenIn.mpr ⟨w, hw, ?_, hbar⟩
  rw [OhlcvWrite.dir, seriesDir, seriesDir, hsymbol, htimeframe]

section Sorted

variable (hsort : Sorts OHLCV.time sort)

include hsort

theorem stored_dir (writes : List (OhlcvWrite Quote)) (dir : String × String) :
    Stored OHLCV.time yearOf (writeAll isWord sort writes dir)
      (writtenIn isWord writes dir).flatten := by
  rw [writeAll_dir]
  exact stored_writeBatches hsort _

theorem readOhlcv_eq {symbol timeframe : String} {start stop : Time} (h : ¬ start > stop) :
    readOhlcv isWord sort (writeAll isWord sort writes) symbol timeframe start stop =
      readRows OHLCV.time sort (writeAll isWord sort writes (seriesDir isWord symbol timeframe))
        (span (yearOf start) (yearOf stop)) start stop := by
  rw [readOhlcv, if_neg h]
  exact sort_eq_of_perm hsort (readRows_ordered hsort monotone_yearOf (stored_dir hsort writes _)
    (pairwise_span _ _)) (List.Perm.refl _)

theorem readOhlcv_ordered (writes : List (OhlcvWrite Quote)) (symbol timeframe : String)
    (start stop : Time) :
    Ordered OHLCV.time
      (readOhlcv isWord sort (writeAll isWord sort writes) symbol timeframe start stop) := by
  by_cases h : start > stop
  · rw [readOhlcv, if_pos h]
    exact List.Pairwise.nil
  · rw [readOhlcv_eq hsort h]
    exact readRows_ordered hsort monotone_yearOf (stored_dir hsort writes _) (pairwise_span _ _)

theorem mem_readOhlcv {symbol timeframe : String} {start stop : Time} :
    bar ∈ readOhlcv isWord sort (writeAll isWord sort writes) symbol timeframe start stop ↔
      (start ≤ bar.time ∧ bar.time ≤ stop) ∧
        bar ∈ writeAll isWord sort writes (seriesDir isWord symbol timeframe) (yearOf bar.time) := by
  by_cases h : start > stop
  · rw [readOhlcv, if_pos h]
    simp only [List.not_mem_nil, false_iff]
    rintro ⟨⟨hstart, hstop⟩, -⟩
    exact absurd (hstart.trans hstop) (not_le.mpr h)
  · rw [readOhlcv_eq hsort h]
    exact mem_readRows hsort monotone_yearOf (stored_dir hsort writes _)
      fun _ hfirst hlast => mem_span hfirst hlast

end Sorted

theorem Consistent.noConflict (h : Consistent isWord writes) (dir : String × String) :
    NoConflict OHLCV.time (writtenIn isWord writes dir).flatten := by
  intro b hb b' hb'
  obtain ⟨w, hw, hdir, hb⟩ := mem_writtenIn.mp hb
  obtain ⟨w', hw', hdir', hb'⟩ := mem_writtenIn.mp hb'
  exact h.values w hw w' hw' (hdir.trans hdir'.symm) b hb b' hb'

theorem Consistent.lastWriteWins (hsort : Sorts OHLCV.time sort) (h : Consistent isWord writes) :
    LastWriteWins isWord sort writes where
  ordered w _ start stop := readOhlcv_ordered hsort writes w.symbol w.timeframe start stop
  last w hw start stop bar := by
    have hfree := h.noConflict (w.dir isWord)
    have hfor : NoConflict OHLCV.time (writtenFor writes w.symbol w.timeframe) := fun b hb b' hb' =>
      hfree b (mem_writtenIn_of_writtenFor hb) b' (mem_writtenIn_of_writtenFor hb')
    have hsame : bar ∈ (writtenIn isWord writes (w.dir isWord)).flatten ↔
        bar ∈ writtenFor writes w.symbol w.timeframe := by
      refine ⟨fun hbar => ?_, mem_writtenIn_of_writtenFor⟩
      obtain ⟨w', hw', hdir, hbar⟩ := mem_writtenIn.mp hbar
      exact h.series w hw w' hw' hdir.symm bar hbar
    rw [mem_readOhlcv hsort, lastWrite_eq_some_iff hfor, ← hsame,
      ← (stored_dir hsort writes (w.dir isWord)).mem_iff hfree]
    rfl
  again w hw := by
    have hmem : w ∈ writes := List.mem_of_getLast? hw
    have hstored : Stored OHLCV.time yearOf (writeAll isWord sort writes (w.dir isWord))
        (writtenIn isWord writes (w.dir isWord)).flatten := stored_dir hsort writes _
    have hagain : writeRows OHLCV.time yearOf sort (writeAll isWord sort writes (w.dir isWord))
        w.bars = writeAll isWord sort writes (w.dir isWord) := by
      refine (hstored.unique (hstored.write hsort w.bars) (fun b => ?_)
        (h.noConflict (w.dir isWord))).symm
      rw [List.mem_append]
      refine ⟨Or.inl, fun hb => hb.elim id fun hb => ?_⟩
      exact mem_writtenIn.mpr ⟨w, hmem, rfl, hb⟩
    rw [writeOhlcv, hagain, Function.update_eq_self]

theorem lastWrite_of_mem (hall : ∀ sort, Sorts OHLCV.time sort → LastWriteWins isWord sort writes)
    (hw : w ∈ writes) (hbar : bar ∈ (writtenIn isWord writes (w.dir isWord)).flatten) :
    lastWrite OHLCV.time (writtenFor writes w.symbol w.timeframe) bar.time = some bar := by
  obtain ⟨sort, hsort, hlast⟩ := exists_sort_with_last OHLCV.time bar
  have hstays : bar ∈ writeAll isWord sort writes (w.dir isWord) (yearOf bar.time) := by
    rw [writeAll_dir]
    exact mem_writeBatches_of_last hsort hlast hbar
  have hread : bar ∈ readOhlcv isWord sort (writeAll isWord sort writes) w.symbol w.timeframe
      bar.time bar.time := (mem_readOhlcv hsort).mpr ⟨⟨le_refl _, le_refl _⟩, hstays⟩
  exact (((hall sort hsort).last w hw bar.time bar.time bar).mp hread).2

/-- The files are a map in which the last write wins, for all that is known of the sort, exactly
where the writes into a directory agree with one another and belong to one series. -/
theorem lastWriteWins_iff_consistent (isWord : Char → Bool) (writes : List (OhlcvWrite Quote)) :
    (∀ sort, Sorts OHLCV.time sort → LastWriteWins isWord sort writes) ↔
      Consistent isWord writes := by
  refine ⟨fun hall => ⟨?_, ?_⟩, fun h sort hsort => h.lastWriteWins hsort⟩
  · intro w hw w' hw' hdir b hb b' hb' htime
    have hlast := lastWrite_of_mem hall hw (mem_writtenIn.mpr ⟨w, hw, rfl, hb⟩)
    have hlast' := lastWrite_of_mem hall hw (mem_writtenIn.mpr ⟨w', hw', hdir.symm, hb'⟩)
    rw [← htime, hlast] at hlast'
    exact Option.some.inj hlast'
  · intro w hw w' hw' hdir b hb
    exact mem_of_lastWrite
      (lastWrite_of_mem hall hw (mem_writtenIn.mpr ⟨w', hw', hdir.symm, hb⟩))

/-- The closes of seventeen days, and the fifth of them corrected by a second write. -/
def correctedWrites : List (OhlcvWrite ℕ) :=
  [⟨"PETR4", "D1", (List.range 17).map fun day => ⟨day * 86400000000, 10⟩⟩,
    ⟨"PETR4", "D1", [⟨4 * 86400000000, 11⟩]⟩]

/-- A sort that turns ties around brings the first close back. -/
theorem correctedWrites_may_be_lost :
    ¬ ∀ sort, Sorts OHLCV.time sort → LastWriteWins (fun _ => true) sort correctedWrites := by
  intro hall
  have hlast : ∀ bar ∈ [(⟨4 * 86400000000, 10⟩ : OHLCV ℕ), ⟨4 * 86400000000, 11⟩],
      lastWrite OHLCV.time (writtenFor correctedWrites "PETR4" "D1") bar.time = some bar := by
    intro bar hbar
    refine lastWrite_of_mem hall (w := ⟨"PETR4", "D1", [⟨4 * 86400000000, 11⟩]⟩)
      (by simp [correctedWrites]) ?_
    rcases List.mem_pair.mp hbar with rfl | rfl
    · decide +kernel
    · decide +kernel
  have hfirst := hlast ⟨4 * 86400000000, 10⟩ (by simp)
  rw [hlast ⟨4 * 86400000000, 11⟩ (by simp)] at hfirst
  cases hfirst

/-! ### The files and the table of a series -/

/-- The same writes into the store that keeps a directory as one table. -/
def writeTables (isWord : Char → Bool) (writes : List (OhlcvWrite Quote)) : LocalStore Quote :=
  writes.foldl (fun store w => MarketData.writeOhlcv isWord store w.symbol w.timeframe w.bars) {}

theorem series_writeOhlcv (store : LocalStore Quote) (symbol timeframe : String)
    (bars : List (OHLCV Quote)) :
    (MarketData.writeOhlcv isWord store symbol timeframe bars).series =
      Function.update store.series (seriesDir isWord symbol timeframe)
        (merge OHLCV.time (store.series (seriesDir isWord symbol timeframe)) bars) := by
  unfold MarketData.writeOhlcv refreshCatalog
  dsimp only
  split <;> rfl

theorem series_writeTables (writes : List (OhlcvWrite Quote)) (dir : String × String) :
    (writeTables isWord writes).series dir =
      merge OHLCV.time [] (writtenIn isWord writes dir).flatten := by
  have hrun : ∀ store : LocalStore Quote,
      (writes.foldl (fun store w => MarketData.writeOhlcv isWord store w.symbol w.timeframe w.bars)
        store).series dir =
      merge OHLCV.time (store.series dir) (writtenIn isWord writes dir).flatten := by
    induction writes with
    | nil => exact fun _ => rfl
    | cons w writes ih =>
      intro store
      rw [List.foldl_cons, ih, series_writeOhlcv]
      by_cases hdir : w.dir isWord = dir
      · subst hdir
        rw [writtenIn, writtenIn, List.filter_cons_of_pos (by simp), List.map_cons,
          List.flatten_cons, OhlcvWrite.dir, Function.update_self]
        exact List.foldl_append.symm
      · have hne : dir ≠ seriesDir isWord w.symbol w.timeframe := Ne.symm hdir
        rw [writtenIn, writtenIn, List.filter_cons_of_neg (by simpa using hdir),
          Function.update_of_ne hne]
  exact hrun _

/-- Where the writes agree, the files read as the table does. -/
theorem Consistent.readOhlcv_eq_table (hsort : Sorts OHLCV.time sort)
    (h : Consistent isWord writes) (symbol timeframe : String) (start stop : Time) :
    readOhlcv isWord sort (writeAll isWord sort writes) symbol timeframe start stop =
      MarketData.readOhlcv isWord (writeTables isWord writes) symbol timeframe start stop := by
  have hfree := h.noConflict (seriesDir isWord symbol timeframe)
  obtain ⟨all, hall, hmem⟩ := hfree.exists_ordered
  unfold MarketData.readOhlcv
  split
  next hrange => rw [readOhlcv, if_pos hrange]
  next hrange =>
    rw [series_writeTables]
    have htable : Ordered OHLCV.time (merge OHLCV.time []
        (writtenIn isWord writes (seriesDir isWord symbol timeframe)).flatten) :=
      Ordered.merge List.Pairwise.nil
    apply (readOhlcv_ordered hsort writes symbol timeframe start stop).eq_of_mem_iff
      (htable.filter _)
    intro bar
    rw [mem_readOhlcv hsort, (stored_dir hsort writes _).mem_iff hfree, List.mem_filter,
      mem_merge hall (by simp) (fun b hb => (hmem b).mpr hb), decide_eq_true_eq]
    simp only [List.not_mem_nil, false_or, and_comm]

end Candles

/-! ## Ticks -/

structure Tick (Price : Type) where
  timeMsc : ℤ
  bid : Price
  ask : Price
  last : Price
  volume : Price
  flags : ℤ
  deriving DecidableEq, Repr

section Ticks

variable {Price : Type}

/-- The files of the months by directory. -/
abbrev TickFiles (Price : Type) := String → ℕ → List (Tick Price)

variable (isWord : Char → Bool) (sort : List (Tick Price) → List (Tick Price))

def writeTicks (symbol : String) (files : TickFiles Price) (ticks : List (Tick Price)) :
    TickFiles Price :=
  Function.update files (slugSymbol isWord symbol)
    (writeRows Tick.timeMsc monthOfMsc sort (files (slugSymbol isWord symbol)) ticks)

/-- The files after lists of ticks of one symbol. -/
def writeTickLists (symbol : String) (batches : List (List (Tick Price))) : TickFiles Price :=
  batches.foldl (writeTicks isWord sort symbol) fun _ _ => []

/-- The bounds fall to whole milliseconds; the months are those of the bounds as they are. -/
def readTicksColumnar (files : TickFiles Price) (symbol : String) (start stop : Time) :
    List (Tick Price) :=
  if start / 1000 > stop / 1000 then []
  else
    readRows Tick.timeMsc sort (files (slugSymbol isWord symbol))
      (span (monthOf start) (monthOf stop)) (start / 1000) (stop / 1000)

/-- A sort by time that leaves ticks of one millisecond as they came. -/
def stableSort (ticks : List (Tick Price)) : List (Tick Price) :=
  ticks.mergeSort fun s t => decide (s.timeMsc ≤ t.timeMsc)

/-- The distinct ticks between two milliseconds in the order of time, and those of one millisecond
in the order they first came. -/
def distinctTicks [DecidableEq Price] (written : List (Tick Price)) (start stop : ℤ) :
    List (Tick Price) :=
  stableSort (written.reverse.dedup.reverse.filter fun t => start ≤ t.timeMsc ∧ t.timeMsc ≤ stop)

variable {isWord sort} {symbol : String} {batches : List (List (Tick Price))} {tick : Tick Price}

theorem sorts_stableSort : Sorts Tick.timeMsc (stableSort : List (Tick Price) → List (Tick Price)) :=
  sorts_mergeSort Tick.timeMsc

theorem mem_distinctTicks [DecidableEq Price] {written : List (Tick Price)} {start stop : ℤ} :
    tick ∈ distinctTicks written start stop ↔
      (start ≤ tick.timeMsc ∧ tick.timeMsc ≤ stop) ∧ tick ∈ written := by
  unfold distinctTicks
  rw [(sorts_stableSort.perm _).mem_iff, List.mem_filter, List.mem_reverse, List.mem_dedup,
    List.mem_reverse, decide_eq_true_eq, and_comm]

theorem distinctTicks_ordered [DecidableEq Price] {written : List (Tick Price)}
    (hfree : NoConflict Tick.timeMsc written) (start stop : ℤ) :
    Ordered Tick.timeMsc (distinctTicks written start stop) := by
  have hnodup : (distinctTicks written start stop).Nodup := by
    unfold distinctTicks
    rw [(sorts_stableSort.perm _).nodup_iff]
    exact (List.nodup_reverse.mpr (List.nodup_dedup _)).filter _
  have hsorted : (distinctTicks written start stop).Pairwise fun s t => s.timeMsc ≤ t.timeMsc :=
    sorts_stableSort.sorted _
  refine (hsorted.and hnodup).imp_of_mem ?_
  rintro s t hs ht ⟨hle, hne⟩
  refine lt_of_le_of_ne hle fun heq => hne ?_
  exact hfree s (mem_distinctTicks.mp hs).2 t (mem_distinctTicks.mp ht).2 heq

theorem writeTickLists_symbol (batches : List (List (Tick Price))) :
    writeTickLists isWord sort symbol batches (slugSymbol isWord symbol) =
      writeBatches Tick.timeMsc monthOfMsc sort batches := by
  have hrun : ∀ files : TickFiles Price,
      batches.foldl (writeTicks isWord sort symbol) files (slugSymbol isWord symbol) =
        batches.foldl (writeRows Tick.timeMsc monthOfMsc sort)
          (files (slugSymbol isWord symbol)) := by
    induction batches with
    | nil => exact fun _ => rfl
    | cons ticks batches ih =>
      intro files
      rw [List.foldl_cons, ih, writeTicks, Function.update_self, List.foldl_cons]
  exact hrun _

section Sorted

variable (hsort : Sorts Tick.timeMsc sort)

include hsort

theorem stored_ticks (symbol : String) (batches : List (List (Tick Price))) :
    Stored Tick.timeMsc monthOfMsc
      (writeTickLists isWord sort symbol batches (slugSymbol isWord symbol)) batches.flatten := by
  rw [writeTickLists_symbol]
  exact stored_writeBatches hsort _

theorem readTicksColumnar_ordered (symbol : String) (batches : List (List (Tick Price)))
    (start stop : Time) :
    Ordered Tick.timeMsc (readTicksColumnar isWord sort
      (writeTickLists isWord sort symbol batches) symbol start stop) := by
  unfold readTicksColumnar
  split
  · exact List.Pairwise.nil
  · exact readRows_ordered hsort monotone_monthOfMsc (stored_ticks hsort symbol batches)
      (pairwise_span _ _)

theorem mem_readTicksColumnar {start stop : Time} :
    tick ∈ readTicksColumnar isWord sort (writeTickLists isWord sort symbol batches) symbol
        start stop ↔
      (start / 1000 ≤ tick.timeMsc ∧ tick.timeMsc ≤ stop / 1000) ∧
        tick ∈ writeTickLists isWord sort symbol batches (slugSymbol isWord symbol)
          (monthOfMsc tick.timeMsc) := by
  unfold readTicksColumnar
  split
  next h =>
    simp only [List.not_mem_nil, false_iff]
    rintro ⟨⟨hstart, hstop⟩, -⟩
    exact absurd (hstart.trans hstop) (not_le.mpr h)
  next h =>
    apply mem_readRows hsort monotone_monthOfMsc (stored_ticks hsort symbol batches)
    intro month hfirst hlast
    rw [monthOfMsc_floor] at hfirst hlast
    exact mem_span hfirst hlast

theorem eq_of_lossless [DecidableEq Price]
    (hread : ∀ start stop,
      readTicksColumnar isWord sort (writeTickLists isWord sort symbol batches) symbol start stop =
        distinctTicks batches.flatten (start / 1000) (stop / 1000))
    {s t : Tick Price} (hs : s ∈ batches.flatten) (ht : t ∈ batches.flatten)
    (hmsc : s.timeMsc = t.timeMsc) : s = t := by
  have hmem : ∀ u ∈ batches.flatten, u.timeMsc = s.timeMsc →
      u ∈ readTicksColumnar isWord sort (writeTickLists isWord sort symbol batches) symbol
        (s.timeMsc * 1000) (s.timeMsc * 1000) := by
    intro u hu heq
    rw [hread]
    exact mem_distinctTicks.mpr ⟨by omega, hu⟩
  exact (readTicksColumnar_ordered hsort symbol batches _ _).eq_of_key (hmem s hs rfl)
    (hmem t ht hmsc.symm) hmsc

/-- Every range reads back as the distinct ticks written exactly where no two of them share a
millisecond. -/
theorem readTicks_lossless_iff [DecidableEq Price] (isWord : Char → Bool) (symbol : String)
    (batches : List (List (Tick Price))) :
    (∀ start stop,
      readTicksColumnar isWord sort (writeTickLists isWord sort symbol batches) symbol start stop =
        distinctTicks batches.flatten (start / 1000) (stop / 1000)) ↔
      ∀ s ∈ batches.flatten, ∀ t ∈ batches.flatten, s.timeMsc = t.timeMsc → s = t := by
  constructor
  · intro hread s hs t ht hmsc
    exact eq_of_lossless hsort hread hs ht hmsc
  · intro hfree start stop
    apply (readTicksColumnar_ordered hsort symbol batches start stop).eq_of_mem_iff
      (distinctTicks_ordered hfree _ _)
    intro tick
    rw [mem_readTicksColumnar hsort, mem_distinctTicks,
      (stored_ticks hsort symbol batches).mem_iff hfree]

end Sorted

/-- Ticks of two milliseconds come back. -/
theorem ticks_apart_come_back :
    readTicksColumnar (fun _ => true) stableSort
        (writeTickLists (fun _ => true) stableSort "PETR4"
          [[⟨6, 2, 2, 2, 2, 0⟩], [⟨5, 1, 1, 1, 1, 0⟩]]) "PETR4" 5000 6000 =
      distinctTicks [(⟨6, 2, 2, 2, 2, 0⟩ : Tick ℕ), ⟨5, 1, 1, 1, 1, 0⟩] 5 6 :=
  (readTicks_lossless_iff sorts_stableSort (fun _ => true) "PETR4" _).mpr (by decide) 5000 6000

/-- Of two trades of one millisecond one is gone, also where the sort is stable. -/
theorem trades_of_one_millisecond_lost :
    ¬ ∀ start stop,
      readTicksColumnar (fun _ => true) stableSort
          (writeTickLists (fun _ => true) stableSort "PETR4"
            [[⟨5, 1, 1, 1, 1, 0⟩, ⟨5, 1, 1, 2, 1, 0⟩]]) "PETR4" start stop =
        distinctTicks [(⟨5, 1, 1, 1, 1, 0⟩ : Tick ℕ), ⟨5, 1, 1, 2, 1, 0⟩]
          (start / 1000) (stop / 1000) := by
  intro hread
  have heq : (⟨5, 1, 1, 1, 1, 0⟩ : Tick ℕ) = ⟨5, 1, 1, 2, 1, 0⟩ :=
    eq_of_lossless sorts_stableSort hread (by simp) (by simp) rfl
  revert heq
  decide

end Ticks

end QBackend.LocalFiles
