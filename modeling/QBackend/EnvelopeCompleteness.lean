import QBackend.MarketDataStore
import QBackend.RunInvariants
import Mathlib.Tactic.Linarith

/-!
# When the envelope of the local store has no holes

The store knows of a series only its first and last time, and a read whose range lies between them
is served from the store. A read in `auto` mode fetches what its range lacks up to the envelope and
so leaves no hole. A fetch of the whole range, as explicit `remote` reads do it, leaves one when
bars exist between the range and the envelope.
-/

namespace QBackend.MarketData

open Execution (Time)
open KeyedTables OrderedSeries RunInvariants

variable {Quote : Type} {isWord : Char → Bool} {w : World Quote} {symbol timeframe : String}

def CatalogEntry.dir (isWord : Char → Bool) (e : CatalogEntry) : String × String :=
  (slugSymbol isWord e.symbol, e.timeframe)

/-- No other symbol of the catalog shares the directory of the series. -/
def OwnDirectory (isWord : Char → Bool) (store : LocalStore Quote) (symbol timeframe : String) :
    Prop :=
  ∀ e ∈ store.catalog, e.dir isWord = seriesDir isWord symbol timeframe → e.symbol = symbol

instance (isWord : Char → Bool) (store : LocalStore Quote) (symbol timeframe : String) :
    Decidable (OwnDirectory isWord store symbol timeframe) :=
  inferInstanceAs (Decidable (∀ e ∈ store.catalog,
    e.dir isWord = seriesDir isWord symbol timeframe → e.symbol = symbol))

/-- The table of a catalog row holds every existing bar between its first and its last. -/
structure EntryComplete (market : String → String → List (OHLCV Quote))
    (bars : List (OHLCV Quote)) (e : CatalogEntry) : Prop where
  ordered : Ordered OHLCV.time bars
  stored : ∀ b ∈ bars, b ∈ market e.symbol e.timeframe
  start : (bars.map OHLCV.time).min? = some e.start
  stop : (bars.map OHLCV.time).max? = some e.stop
  complete : ∀ b ∈ market e.symbol e.timeframe, e.start ≤ b.time → b.time ≤ e.stop → b ∈ bars

structure Complete (isWord : Char → Bool) (w : World Quote) : Prop where
  market : ∀ s t, Ordered OHLCV.time (w.market s t)
  entries : ∀ e ∈ w.store.catalog, EntryComplete w.market (w.store.series (e.dir isWord)) e
  owned : ∀ dir, w.store.series dir ≠ [] → ∃ e ∈ w.store.catalog, e.dir isWord = dir
  apart : ∀ e ∈ w.store.catalog, ∀ e' ∈ w.store.catalog, e.dir isWord = e'.dir isWord → e = e'

/-! ## The range of a series -/

theorem summarizeSeries_eq_none {store : LocalStore Quote}
    (h : store.series (seriesDir isWord symbol timeframe) = []) :
    summarizeSeries isWord store symbol timeframe = none := by
  simp [summarizeSeries, h]

theorem Complete.availableRange_cases (h : Complete isWord w)
    (hown : OwnDirectory isWord w.store symbol timeframe) :
    (availableRange isWord w.store symbol timeframe = none ∧
        w.store.series (seriesDir isWord symbol timeframe) = []) ∨
      ∃ e ∈ w.store.catalog, availableRange isWord w.store symbol timeframe = some e ∧
        e.symbol = symbol ∧ e.timeframe = timeframe.toUpper := by
  unfold availableRange
  cases hrow : lookup CatalogEntry.key w.store.catalog (symbol, timeframe.toUpper) with
  | some e =>
    have hkey : e.key = (symbol, timeframe.toUpper) := key_of_lookup hrow
    exact .inr ⟨e, mem_of_lookup hrow, rfl, congrArg Prod.fst hkey, congrArg Prod.snd hkey⟩
  | none =>
    have hempty : w.store.series (seriesDir isWord symbol timeframe) = [] := by
      by_contra hne
      obtain ⟨e, he, hdir⟩ := h.owned _ hne
      refine lookup_eq_none.mp hrow e he ?_
      exact Prod.ext (hown e he hdir) (Prod.ext_iff.mp hdir).2
    exact .inl ⟨summarizeSeries_eq_none hempty, hempty⟩

theorem CatalogEntry.dir_eq {e : CatalogEntry} (hsymbol : e.symbol = symbol)
    (htimeframe : e.timeframe = timeframe.toUpper) :
    e.dir isWord = seriesDir isWord symbol timeframe := by
  rw [CatalogEntry.dir, hsymbol, htimeframe, seriesDir]

theorem Complete.of_availableRange (h : Complete isWord w)
    (hown : OwnDirectory isWord w.store symbol timeframe) {e : CatalogEntry}
    (he : availableRange isWord w.store symbol timeframe = some e) :
    e.symbol = symbol ∧ e.timeframe = timeframe.toUpper ∧
      EntryComplete w.market (w.store.series (seriesDir isWord symbol timeframe)) e := by
  rcases h.availableRange_cases hown with ⟨hnone, -⟩ | ⟨e', hmem, hrange, hsymbol, htimeframe⟩
  · rw [hnone] at he
    cases he
  · obtain rfl : e' = e := Option.some.inj (hrange.symm.trans he)
    have hentry := h.entries e' hmem
    rw [CatalogEntry.dir_eq hsymbol htimeframe] at hentry
    exact ⟨hsymbol, htimeframe, hentry⟩

theorem Complete.stored (h : Complete isWord w)
    (hown : OwnDirectory isWord w.store symbol timeframe) {bar : OHLCV Quote}
    (hbar : bar ∈ w.store.series (seriesDir isWord symbol timeframe)) :
    bar ∈ w.market symbol timeframe.toUpper := by
  rcases h.availableRange_cases hown with ⟨-, hempty⟩ | ⟨e, hmem, hrange, hsymbol, htimeframe⟩
  · rw [hempty] at hbar
    cases hbar
  · have hentry := h.entries e hmem
    rw [CatalogEntry.dir_eq hsymbol htimeframe] at hentry
    rw [← hsymbol, ← htimeframe]
    exact hentry.stored bar hbar

/-! ## A read that finds its range covered -/

theorem mem_gatewayBars {market : String → String → List (OHLCV Quote)} {start stop : Time}
    {bar : OHLCV Quote} : bar ∈ gatewayBars market symbol timeframe start stop ↔
      bar ∈ market symbol timeframe.toUpper ∧ start ≤ bar.time ∧ bar.time ≤ stop := by
  simp [gatewayBars]

theorem Complete.readOhlcv_eq (h : Complete isWord w)
    (hown : OwnDirectory isWord w.store symbol timeframe) {start stop : Time}
    (hcovers : envelopeCovers isWord w.store symbol timeframe start stop = true) :
    readOhlcv isWord w.store symbol timeframe start stop =
      gatewayBars w.market symbol timeframe start stop := by
  unfold envelopeCovers at hcovers
  cases hrange : availableRange isWord w.store symbol timeframe with
  | none => simp [hrange] at hcovers
  | some e =>
    simp only [hrange, decide_eq_true_eq] at hcovers
    obtain ⟨hstart, hstop⟩ := hcovers
    obtain ⟨hsymbol, htimeframe, hentry⟩ := h.of_availableRange hown hrange
    unfold readOhlcv
    split
    next hback =>
      refine (List.filter_eq_nil_iff.mpr fun bar _ hbar => ?_).symm
      have hbetween : start ≤ bar.time ∧ bar.time ≤ stop := of_decide_eq_true hbar
      exact absurd (hbetween.1.trans hbetween.2) (not_le.mpr hback)
    · refine (hentry.ordered.filter _).eq_of_mem_iff ((h.market _ _).filter _) fun bar => ?_
      simp only [mem_gatewayBars, List.mem_filter, decide_eq_true_eq]
      refine ⟨fun hbar => ⟨h.stored hown hbar.1, hbar.2⟩, fun hbar => ⟨?_, hbar.2⟩⟩
      have hmarket : bar ∈ w.market e.symbol e.timeframe := by
        rw [hsymbol, htimeframe]
        exact hbar.1
      exact hentry.complete bar hmarket (hstart.trans hbar.2.1) (hbar.2.2.trans hstop)

/-! ## A write -/

/-- No bar exists between the fetched range and the envelope. -/
def Adjoins (isWord : Char → Bool) (w : World Quote) (symbol timeframe : String)
    (start stop : Time) : Prop :=
  ∀ e, availableRange isWord w.store symbol timeframe = some e →
    ∀ bar ∈ w.market symbol timeframe.toUpper,
      ¬ (e.stop < bar.time ∧ bar.time < start) ∧ ¬ (stop < bar.time ∧ bar.time < e.start)

instance (isWord : Char → Bool) (w : World Quote) (symbol timeframe : String)
    (start stop : Time) : Decidable (Adjoins isWord w symbol timeframe start stop) :=
  match hrange : availableRange isWord w.store symbol timeframe with
  | none => isTrue fun e he => by cases hrange.symm.trans he
  | some e => decidable_of_iff (∀ bar ∈ w.market symbol timeframe.toUpper,
      ¬ (e.stop < bar.time ∧ bar.time < start) ∧ ¬ (stop < bar.time ∧ bar.time < e.start))
      ⟨fun h e' he' => by cases hrange.symm.trans he'; exact h, fun h => h e hrange⟩

theorem min?_of_mem {xs : List Time} {x : Time} (h : x ∈ xs) :
    ∃ m, xs.min? = some m ∧ m ∈ xs ∧ ∀ y ∈ xs, m ≤ y := by
  cases hmin : xs.min? with
  | none =>
    rw [List.min?_eq_none_iff.mp hmin] at h
    cases h
  | some m => exact ⟨m, rfl, List.min?_eq_some_iff.mp hmin⟩

theorem max?_of_mem {xs : List Time} {x : Time} (h : x ∈ xs) :
    ∃ m, xs.max? = some m ∧ m ∈ xs ∧ ∀ y ∈ xs, y ≤ m := by
  cases hmax : xs.max? with
  | none =>
    rw [List.max?_eq_none_iff.mp hmax] at h
    cases h
  | some m => exact ⟨m, rfl, List.max?_eq_some_iff.mp hmax⟩

/-- The table of a series with what the gateway gave for a range. -/
def merged (isWord : Char → Bool) (w : World Quote) (symbol timeframe : String)
    (start stop : Time) : List (OHLCV Quote) :=
  merge OHLCV.time (w.store.series (seriesDir isWord symbol timeframe))
    (gatewayBars w.market symbol timeframe start stop)

/-- The world after a write of what the gateway gave for a range. -/
def World.written (isWord : Char → Bool) (w : World Quote) (symbol timeframe : String)
    (start stop : Time) : World Quote :=
  let bars := gatewayBars w.market symbol timeframe start stop
  { w with store := writeOhlcv isWord w.store symbol timeframe bars }

section Write

variable {start stop : Time}

theorem Complete.mem_merged (h : Complete isWord w)
    (hown : OwnDirectory isWord w.store symbol timeframe) {bar : OHLCV Quote} :
    bar ∈ merged isWord w symbol timeframe start stop ↔
      bar ∈ w.store.series (seriesDir isWord symbol timeframe) ∨
        bar ∈ gatewayBars w.market symbol timeframe start stop :=
  mem_merge (h.market symbol timeframe.toUpper) (fun _ hbar => h.stored hown hbar)
    (fun _ hbar => (mem_gatewayBars.mp hbar).1)

/-- Between the first and the last bar of the merged table nothing is missing. -/
theorem Complete.merged_complete (h : Complete isWord w)
    (hown : OwnDirectory isWord w.store symbol timeframe)
    (hadjoins : Adjoins isWord w symbol timeframe start stop) {x y bar : OHLCV Quote}
    (hx : x ∈ merged isWord w symbol timeframe start stop)
    (hy : y ∈ merged isWord w symbol timeframe start stop)
    (hbar : bar ∈ w.market symbol timeframe.toUpper) (hxbar : x.time ≤ bar.time)
    (hbary : bar.time ≤ y.time) : bar ∈ merged isWord w symbol timeframe start stop := by
  rw [h.mem_merged hown] at hx hy ⊢
  have hfetched : start ≤ bar.time → bar.time ≤ stop →
      bar ∈ gatewayBars w.market symbol timeframe start stop := fun hstart hstop =>
    mem_gatewayBars.mpr ⟨hbar, hstart, hstop⟩
  rcases h.availableRange_cases hown with ⟨-, hempty⟩ | ⟨e, hmem, hrange, hsymbol, htimeframe⟩
  · rw [hempty] at hx hy
    have hx := (mem_gatewayBars.mp (hx.resolve_left List.not_mem_nil)).2
    have hy := (mem_gatewayBars.mp (hy.resolve_left List.not_mem_nil)).2
    exact .inr (hfetched (hx.1.trans hxbar) (hbary.trans hy.2))
  · obtain ⟨-, -, hentry⟩ := h.of_availableRange hown hrange
    have hlow := (List.min?_eq_some_iff.mp hentry.start).2
    have hhigh := (List.max?_eq_some_iff.mp hentry.stop).2
    by_cases hbefore : bar.time < e.start
    · -- before the old envelope: the bar lies in the fetched range, up to the envelope
      have hxfetched := hx.resolve_left fun hold =>
        absurd (hxbar.trans_lt hbefore) (not_lt.mpr (hlow _ (List.mem_map_of_mem hold)))
      have hstart := (mem_gatewayBars.mp hxfetched).2.1
      refine .inr (hfetched (hstart.trans hxbar) (not_lt.mp fun hgap => ?_))
      exact (hadjoins e hrange bar hbar).2 ⟨hgap, hbefore⟩
    · by_cases hafter : e.stop < bar.time
      · have hyfetched := hy.resolve_left fun hold =>
          absurd (hafter.trans_le hbary) (not_lt.mpr (hhigh _ (List.mem_map_of_mem hold)))
        have hstop := (mem_gatewayBars.mp hyfetched).2.2
        refine .inr (hfetched (not_lt.mp fun hgap => ?_) (hbary.trans hstop))
        exact (hadjoins e hrange bar hbar).1 ⟨hafter, hgap⟩
      · refine .inl (hentry.complete bar ?_ (not_lt.mp hbefore) (not_lt.mp hafter))
        rw [hsymbol, htimeframe]
        exact hbar

theorem Complete.written_entry (h : Complete isWord w)
    (hown : OwnDirectory isWord w.store symbol timeframe)
    (hadjoins : Adjoins isWord w symbol timeframe start stop)
    (hsome : gatewayBars w.market symbol timeframe start stop ≠ []) :
    ∃ e : CatalogEntry, e.symbol = symbol ∧ e.timeframe = timeframe.toUpper ∧
      (w.written isWord symbol timeframe start stop).store =
        { series := Function.update w.store.series (seriesDir isWord symbol timeframe)
            (merged isWord w symbol timeframe start stop)
          catalog := w.store.catalog.filter (fun e' => e'.key ≠ e.key) ++ [e] } ∧
      EntryComplete w.market (merged isWord w symbol timeframe start stop) e := by
  obtain ⟨bar, hbar⟩ := List.exists_mem_of_ne_nil _ hsome
  have hmem : bar.time ∈ (merged isWord w symbol timeframe start stop).map OHLCV.time :=
    List.mem_map_of_mem ((h.mem_merged hown).mpr (.inr hbar))
  obtain ⟨p, hmin, hp, -⟩ := min?_of_mem hmem
  obtain ⟨q, hmax, hq, -⟩ := max?_of_mem hmem
  obtain ⟨x, hx, rfl⟩ := List.mem_map.mp hp
  obtain ⟨y, hy, rfl⟩ := List.mem_map.mp hq
  have hordered : Ordered OHLCV.time (merged isWord w symbol timeframe start stop) := by
    rcases h.availableRange_cases hown with ⟨-, hempty⟩ | ⟨e, -, hrange, -, -⟩
    · rw [merged, hempty]
      exact Ordered.merge List.Pairwise.nil
    · exact (h.of_availableRange hown hrange).2.2.ordered.merge
  refine ⟨⟨symbol, timeframe.toUpper, x.time, y.time,
    (merged isWord w symbol timeframe start stop).length⟩, rfl, rfl, ?_,
    hordered, fun b hb => ?_, hmin, hmax, fun b hb hxb hby => ?_⟩
  · let tables := Function.update w.store.series (seriesDir isWord symbol timeframe)
      (merged isWord w symbol timeframe start stop)
    show refreshCatalog isWord { w.store with series := tables } symbol timeframe = _
    simp only [tables]
    simp only [refreshCatalog, summarizeSeries, Function.update_self, hmin, hmax,
      upsertCatalogEntry]
  · rcases (h.mem_merged hown).mp hb with hb | hb
    · exact h.stored hown hb
    · exact (mem_gatewayBars.mp hb).1
  · exact h.merged_complete hown hadjoins hx hy hb hxb hby

theorem CatalogEntry.key_eq_of_dir {e e' : CatalogEntry} (hdir : e.dir isWord = e'.dir isWord)
    (hsymbol : e.symbol = e'.symbol) : e.key = e'.key :=
  Prod.ext hsymbol (Prod.ext_iff.mp hdir).2

theorem Complete.write (h : Complete isWord w)
    (hown : OwnDirectory isWord w.store symbol timeframe)
    (hadjoins : Adjoins isWord w symbol timeframe start stop)
    (hsome : gatewayBars w.market symbol timeframe start stop ≠ []) :
    Complete isWord (w.written isWord symbol timeframe start stop) ∧
      OwnDirectory isWord (w.written isWord symbol timeframe start stop).store symbol timeframe ∧
      ∃ e, availableRange isWord (w.written isWord symbol timeframe start stop).store
          symbol timeframe = some e ∧
        ∀ old, availableRange isWord w.store symbol timeframe = some old →
          e.start ≤ old.start ∧ old.stop ≤ e.stop := by
  obtain ⟨e, hsymbol, htimeframe, hstore, hentry⟩ := h.written_entry hown hadjoins hsome
  have hdir : e.dir isWord = seriesDir isWord symbol timeframe :=
    CatalogEntry.dir_eq hsymbol htimeframe
  have hmem : ∀ e', e' ∈ (w.written isWord symbol timeframe start stop).store.catalog ↔
      (e' ∈ w.store.catalog ∧ e'.key ≠ e.key) ∨ e' = e := fun e' => by
    rw [hstore]
    simp
  -- another row lies in another directory
  have hother : ∀ e' ∈ w.store.catalog, e'.key ≠ e.key → e'.dir isWord ≠ e.dir isWord :=
    fun e' he' hkey hsame => hkey (CatalogEntry.key_eq_of_dir hsame
      ((hown e' he' (hsame.trans hdir)).trans hsymbol.symm))
  have hself : (w.written isWord symbol timeframe start stop).store.series (e.dir isWord) =
      merged isWord w symbol timeframe start stop := by
    rw [hstore, hdir]
    exact Function.update_self _ _ _
  have hframe : ∀ dir, dir ≠ e.dir isWord →
      (w.written isWord symbol timeframe start stop).store.series dir = w.store.series dir :=
    fun dir hne => by
      rw [hstore]
      exact Function.update_of_ne (hdir ▸ hne) _ _
  refine ⟨⟨h.market, fun e' he' => ?_, fun dir hne => ?_, fun e₁ he₁ e₂ he₂ hsame => ?_⟩,
    fun e' he' hsame => ?_, e, ?_, fun old hold => ?_⟩
  · rcases (hmem e').mp he' with ⟨he', hkey⟩ | rfl
    · rw [hframe _ (hother e' he' hkey)]
      exact h.entries e' he'
    · rw [hself]
      exact hentry
  · by_cases hsame : dir = e.dir isWord
    · exact ⟨e, (hmem e).mpr (.inr rfl), hsame.symm⟩
    · rw [hframe dir hsame] at hne
      obtain ⟨e', he', hdir'⟩ := h.owned dir hne
      refine ⟨e', (hmem e').mpr (.inl ⟨he', fun hkey => hsame ?_⟩), hdir'⟩
      have hsymbol' : e'.symbol = e.symbol := (Prod.ext_iff.mp hkey).1
      have htimeframe' : e'.timeframe = e.timeframe := (Prod.ext_iff.mp hkey).2
      rw [← hdir', CatalogEntry.dir, CatalogEntry.dir, hsymbol', htimeframe']
  · rcases (hmem e₁).mp he₁ with ⟨he₁, hkey₁⟩ | rfl <;>
      rcases (hmem e₂).mp he₂ with ⟨he₂, hkey₂⟩ | rfl
    · exact h.apart e₁ he₁ e₂ he₂ hsame
    · exact absurd hsame (hother e₁ he₁ hkey₁)
    · exact absurd hsame.symm (hother e₂ he₂ hkey₂)
    · rfl
  · rcases (hmem e').mp he' with ⟨he', -⟩ | rfl
    · exact hown e' he' hsame
    · exact hsymbol
  · have hkey : e.key = (symbol, timeframe.toUpper) := Prod.ext hsymbol htimeframe
    have hnone : lookup CatalogEntry.key
        (w.store.catalog.filter (fun e' => e'.key ≠ e.key)) e.key = none :=
      lookup_eq_none.mpr fun e' he' => by simpa using (List.mem_filter.mp he').2
    have hlookup := lookup_append_new (r := e) hnone rfl
    rw [availableRange, hstore, ← hkey, hlookup]
  · obtain ⟨-, -, hbefore⟩ := h.of_availableRange hown hold
    have hsub : ∀ t ∈ (w.store.series (seriesDir isWord symbol timeframe)).map OHLCV.time,
        t ∈ (merged isWord w symbol timeframe start stop).map OHLCV.time := fun t ht => by
      obtain ⟨bar, hbar, rfl⟩ := List.mem_map.mp ht
      exact List.mem_map_of_mem ((h.mem_merged hown).mpr (.inl hbar))
    exact ⟨(List.min?_eq_some_iff.mp hentry.start).2 _
        (hsub _ (List.min?_eq_some_iff.mp hbefore.start).1),
      (List.max?_eq_some_iff.mp hentry.stop).2 _
        (hsub _ (List.max?_eq_some_iff.mp hbefore.stop).1)⟩

end Write

/-! ## The reads -/

section Reads

variable {env : ReadEnvironment Quote} {request : ReadRequest}

/-- A write that fails does so before it writes a bar of the series. -/
def FailsWhole (w : World Quote) (env : ReadEnvironment Quote) (symbol timeframe : String) : Prop :=
  ∀ outcome ∈ env.writeStops, ∀ stop ∈ outcome, ∀ bar ∈ w.market symbol timeframe.toUpper,
    stop ≤ bar.time

theorem writeBefore_eq {store : LocalStore Quote} {bars : List (OHLCV Quote)} {stop : Time}
    (h : ∀ bar ∈ bars, stop ≤ bar.time) :
    writeBefore isWord store symbol timeframe bars stop = store := by
  have hnone : bars.filter (fun bar => bar.time < stop) = [] :=
    List.filter_eq_nil_iff.mpr fun bar hbar => by simpa using h bar hbar
  rw [writeBefore, hnone]
  exact congrArg (fun series => { store with series }) (Function.update_eq_self _ _)

/-- The bars of a range are written whole, or the store stays as it is. -/
theorem fetchThroughOhlcv_cases (isWord : Char → Bool) (h : FailsWhole w env symbol timeframe)
    (start stop : Time) (store : LocalStore Quote) (call : ℕ) :
    let bars := gatewayBars w.market symbol timeframe start stop
    (env.writeStop call = none ∧ (fetchThroughOhlcv isWord env store call symbol timeframe bars).1 =
        writeOhlcv isWord store symbol timeframe bars) ∨
      (fetchThroughOhlcv isWord env store call symbol timeframe bars).1 = store := by
  intro bars
  unfold fetchThroughOhlcv
  split
  next hnone => exact .inl ⟨hnone, rfl⟩
  next stop' hstop =>
    have hmem := List.mem_of_getElem? (Option.join_eq_some_iff.mp hstop)
    exact .inr (writeBefore_eq fun bar hbar => h _ hmem _ rfl bar (mem_gatewayBars.mp hbar).1)

theorem remoteGetOhlcv_ok {market : String → String → List (OHLCV Quote)} {call : ℕ}
    {start stop : Time} {bars : List (OHLCV Quote)}
    (h : remoteGetOhlcv env market call symbol timeframe start stop = .ok bars) :
    env.gatewayFails call = none ∧ gatewayBars market symbol timeframe start stop = bars := by
  unfold remoteGetOhlcv at h
  split at h
  · cases h
  next hanswers => exact ⟨hanswers, Except.ok.inj h⟩

theorem Complete.fetchThrough (h : Complete isWord w) (hwhole : FailsWhole w env symbol timeframe)
    {start stop : Time} {bar : OHLCV Quote} {bars : List (OHLCV Quote)}
    (hbars : gatewayBars w.market symbol timeframe start stop = bar :: bars)
    (hwrites : env.writeStop 0 = none → OwnDirectory isWord w.store symbol timeframe ∧
      Adjoins isWord w symbol timeframe start stop) :
    Complete isWord { w with
      store := (fetchThroughOhlcv isWord env w.store 0 symbol timeframe (bar :: bars)).1 } := by
  obtain ⟨hnone, hcase⟩ | hcase := fetchThroughOhlcv_cases isWord hwhole start stop w.store 0
  · obtain ⟨hown, hadjoins⟩ := hwrites hnone
    have hwritten := (h.write hown hadjoins (by rw [hbars]; simp)).1
    rw [hbars] at hcase
    rw [hcase]
    unfold World.written at hwritten
    simp only [hbars] at hwritten
    exact hwritten
  · rw [hbars] at hcase
    rw [hcase]
    exact h

/-- What the loop over the missing segments needs: each of them reaches the envelope. -/
structure Reaches (isWord : Char → Bool) (w : World Quote) (request : ReadRequest)
    (segments : List (Time × Time)) : Prop where
  complete : Complete isWord w
  own : OwnDirectory isWord w.store request.symbol request.timeframe
  single : availableRange isWord w.store request.symbol request.timeframe = none →
    segments.length ≤ 1
  touches : ∀ e, availableRange isWord w.store request.symbol request.timeframe = some e →
    ∀ seg ∈ segments, seg.1 ≤ e.stop ∧ e.start ≤ seg.2

theorem Reaches.adjoins {seg : Time × Time} {rest : List (Time × Time)}
    (h : Reaches isWord w request (seg :: rest)) :
    Adjoins isWord w request.symbol request.timeframe seg.1 seg.2 := by
  intro e he bar _
  obtain ⟨hstart, hstop⟩ := h.touches e he seg (by simp)
  exact ⟨fun hgap => absurd (hgap.1.trans hgap.2) (not_lt.mpr hstart),
    fun hgap => absurd (hgap.1.trans hgap.2) (not_lt.mpr hstop)⟩

theorem Reaches.tail {seg : Time × Time} {rest : List (Time × Time)}
    (h : Reaches isWord w request (seg :: rest)) : Reaches isWord w request rest :=
  ⟨h.complete, h.own, fun hnone => (Nat.le_succ _).trans (h.single hnone),
    fun e he seg hseg => h.touches e he seg (List.mem_cons_of_mem _ hseg)⟩

theorem Reaches.written {seg : Time × Time} {rest : List (Time × Time)}
    (h : Reaches isWord w request (seg :: rest))
    (hsome : gatewayBars w.market request.symbol request.timeframe seg.1 seg.2 ≠ []) :
    Reaches isWord (w.written isWord request.symbol request.timeframe seg.1 seg.2) request
      rest := by
  obtain ⟨hcomplete, hown, e, hrange, hgrows⟩ := h.complete.write h.own h.adjoins hsome
  refine ⟨hcomplete, hown, fun hnone => ?_, fun e' he' seg' hseg' => ?_⟩
  · rw [hrange] at hnone
    cases hnone
  · obtain rfl : e = e' := Option.some.inj (hrange.symm.trans he')
    cases hbefore : availableRange isWord w.store request.symbol request.timeframe with
    | none =>
      have hshort := h.single hbefore
      have hrest : rest = [] := by
        cases rest with
        | nil => rfl
        | cons a l => simp at hshort
      rw [hrest] at hseg'
      cases hseg'
    | some old =>
      obtain ⟨hstart, hstop⟩ := h.touches old hbefore seg' (List.mem_cons_of_mem _ hseg')
      exact ⟨hstart.trans (hgrows old hbefore).2, (hgrows old hbefore).1.trans hstop⟩

/-- The loop keeps the store complete, whatever fails on the way. -/
theorem fetchMissing_complete {segments : List (Time × Time)} {call : ℕ} {f : Fetched Quote}
    (hwhole : FailsWhole w env request.symbol request.timeframe)
    (h : Reaches isWord { w with store := f.store } request segments) :
    Complete isWord
      { w with store := (fetchMissing isWord env w.market request call segments f).store } := by
  induction segments generalizing call f with
  | nil => exact h.complete
  | cons seg rest ih =>
    unfold fetchMissing
    split
    · exact h.complete
    · split
      · exact h.complete
      · exact ih h.tail
      next bar bars hreply =>
        obtain ⟨-, hbars⟩ := remoteGetOhlcv_ok hreply
        refine ih ?_
        have hcases := fetchThroughOhlcv_cases isWord hwhole seg.1 seg.2 f.store call
        rw [hbars] at hcases
        obtain ⟨-, hcase⟩ | hcase := hcases
        · rw [hcase]
          have hwritten := h.written (by rw [hbars]; simp)
          unfold World.written at hwritten
          simp only [hbars] at hwritten
          exact hwritten
        · rw [hcase]
          exact h.tail

theorem Complete.reaches_plan (h : Complete isWord w)
    (hown : OwnDirectory isWord w.store request.symbol request.timeframe) :
    Reaches isWord w request (planOhlcvRead isWord w.store request.symbol request.timeframe
      request.start request.stop).missing := by
  cases hrange : availableRange isWord w.store request.symbol request.timeframe with
  | none =>
    refine ⟨h, hown, fun _ => ?_, fun e he => ?_⟩
    · simp [planOhlcvRead, hrange]
    · rw [hrange] at he
      cases he
  | some e =>
    refine ⟨h, hown, fun hnone => ?_, fun e' he' seg hseg => ?_⟩
    · rw [hrange] at hnone
      cases hnone
    · obtain rfl : e = e' := Option.some.inj (hrange.symm.trans he')
      have hentry := (h.of_availableRange hown hrange).2.2
      have hle : e.start ≤ e.stop := (List.min?_eq_some_iff.mp hentry.start).2 _
        (List.max?_eq_some_iff.mp hentry.stop).1
      simp only [planOhlcvRead, hrange] at hseg
      split at hseg
      · cases hseg
      · rcases List.mem_append.mp hseg with hhead | htail
        · split at hhead
          next hbefore =>
            rw [List.mem_singleton.mp hhead]
            exact ⟨hbefore.le.trans hle, le_rfl⟩
          · cases hhead
        · split at htail
          next hafter =>
            rw [List.mem_singleton.mp htail]
            exact ⟨le_rfl, hle.trans hafter.le⟩
          · cases htail

/-- The read of `auto` mode that fills the gaps of its range from the gateway. -/
def FillsGaps (isWord : Char → Bool) (w : World Quote) (env : ReadEnvironment Quote)
    (request : OhlcvRequest) : Prop :=
  env.dataSource = .auto ∧
    resolveOhlcvSource isWord env w.store env.first request.symbol request.timeframe = .remote

/-- The read fetches its whole range from the gateway and writes what it gets. -/
def FetchesThrough (isWord : Char → Bool) (w : World Quote) (env : ReadEnvironment Quote)
    (request : OhlcvRequest) : Prop :=
  ¬ FillsGaps isWord w env request ∧
    resolveOhlcvSource isWord env w.store env.second request.symbol request.timeframe = .remote ∧
    env.remoteSupported = true ∧ env.gatewayFails 0 = none ∧ env.writeStop 0 = none ∧
    gatewayBars w.market request.symbol request.timeframe (request.start.wall env.wallClock)
      (request.stop.wall env.wallClock) ≠ []

/-- The condition on a step: a read that writes has its directory to itself, a fetch of a whole range
leaves no bar between the range and the envelope, and no write fails part-way. -/
def KeepsEnvelope (isWord : Char → Bool) (w : World Quote) : Event Quote → Prop
  | .read env request =>
    (FillsGaps isWord w env request ∨ FetchesThrough isWord w env request →
      OwnDirectory isWord w.store request.symbol request.timeframe) ∧
    (FetchesThrough isWord w env request → Adjoins isWord w request.symbol request.timeframe
      (request.start.wall env.wallClock) (request.stop.wall env.wallClock)) ∧
    FailsWhole w env request.symbol request.timeframe
  | .newBar _ _ _ => True

instance (isWord : Char → Bool) (w : World Quote) (env : ReadEnvironment Quote)
    (request : OhlcvRequest) : Decidable (FillsGaps isWord w env request) :=
  inferInstanceAs (Decidable (_ ∧ _))

instance [DecidableEq Quote] (isWord : Char → Bool) (w : World Quote)
    (env : ReadEnvironment Quote) (request : OhlcvRequest) :
    Decidable (FetchesThrough isWord w env request) :=
  inferInstanceAs (Decidable (¬ _ ∧ _ ∧ _ ∧ _ ∧ _ ∧ _ ≠ []))

instance [DecidableEq Quote] (isWord : Char → Bool) (w : World Quote) (e : Event Quote) :
    Decidable (KeepsEnvelope isWord w e) :=
  match e with
  | .read env request => inferInstanceAs (Decidable
      ((FillsGaps isWord w env request ∨ FetchesThrough isWord w env request →
        OwnDirectory isWord w.store request.symbol request.timeframe) ∧
      (FetchesThrough isWord w env request → Adjoins isWord w request.symbol request.timeframe
        (request.start.wall env.wallClock) (request.stop.wall env.wallClock)) ∧
      (∀ outcome ∈ env.writeStops, ∀ stop ∈ outcome,
        ∀ bar ∈ w.market request.symbol request.timeframe.toUpper, stop ≤ bar.time)))
  | .newBar _ _ _ => isTrue trivial

theorem getOhlcvAutoRemote_complete (h : Complete isWord w)
    (hwhole : FailsWhole w env request.symbol request.timeframe)
    (hown : OwnDirectory isWord w.store request.symbol request.timeframe) :
    Complete isWord { w with store := (getOhlcvAutoRemote isWord env w request).2 } := by
  have hloop : Complete isWord { w with store := (fetchMissing isWord env w.market request 0
      (planOhlcvRead isWord w.store request.symbol request.timeframe request.start
        request.stop).missing { store := w.store }).store } :=
    fetchMissing_complete hwhole (h.reaches_plan hown)
  unfold getOhlcvAutoRemote
  dsimp only
  split
  · exact h
  · split
    · split
      · exact hloop
      · exact hloop
    · exact hloop
    · split
      · exact hloop
      · exact hloop

theorem getOhlcvAutoRemoteAware_complete {request : OhlcvRequest} (h : Complete isWord w)
    (hwhole : FailsWhole w env request.symbol request.timeframe)
    (hown : OwnDirectory isWord w.store request.symbol request.timeframe) :
    Complete isWord { w with store := (getOhlcvAutoRemoteAware isWord env w request).2 } := by
  unfold getOhlcvAutoRemoteAware
  split
  · exact h
  next hnone =>
    split
    · exact h
    · exact h
    next bar bars hreply =>
      -- an empty store has no envelope
      refine h.fetchThrough hwhole (remoteGetOhlcv_ok hreply).2 fun _ => ⟨hown, fun e he => ?_⟩
      cases hnone.symm.trans he

theorem Complete.read {request : OhlcvRequest} (h : Complete isWord w)
    (hkeeps : KeepsEnvelope isWord w (.read env request)) :
    Complete isWord (step isWord w (.read env request)) := by
  obtain ⟨hown, hadjoins, hwhole⟩ := hkeeps
  simp only [step, getOhlcv]
  split
  next hfills =>
    split
    next naive hnaive =>
      obtain ⟨hsymbol, htimeframe⟩ : naive.symbol = request.symbol ∧
          naive.timeframe = request.timeframe := by
        unfold OhlcvRequest.naive? at hnaive
        split at hnaive
        · cases hnaive
          exact ⟨rfl, rfl⟩
        · cases hnaive
      rw [← hsymbol, ← htimeframe] at hwhole hown
      exact getOhlcvAutoRemote_complete h hwhole (hown (.inl hfills))
    · exact getOhlcvAutoRemoteAware_complete h hwhole (hown (.inl hfills))
  next hfills =>
    split
    · exact h
    next hremote =>
      split
      · exact h
      next hsupported =>
        split
        · exact h
        · exact h
        next bar bars hreply =>
          obtain ⟨hanswers, hbars⟩ := remoteGetOhlcv_ok hreply
          refine h.fetchThrough hwhole hbars fun hwrites => ?_
          have hfetches : FetchesThrough isWord w env request :=
            ⟨hfills, hremote, by simpa using hsupported, hanswers, hwrites, by rw [hbars]; simp⟩
          exact ⟨hown (.inr hfetches), hadjoins hfetches⟩
    · split
      · exact h
      · exact h

/-- A bar that comes after all others lies in no envelope. -/
theorem Complete.newBar (h : Complete isWord w) (bar : OHLCV Quote) :
    Complete isWord (step isWord w (.newBar symbol timeframe bar)) := by
  simp only [step]
  split
  next hlast =>
    have hlate : ∀ b ∈ w.market symbol timeframe, b.time < bar.time := by simpa using hlast
    refine ⟨fun s t => ?_, fun e he => ?_, h.owned, h.apart⟩
    · dsimp only
      split
      next hsame =>
        obtain ⟨rfl, rfl⟩ := hsame
        refine List.pairwise_append.mpr ⟨h.market s t, List.pairwise_singleton _ _, ?_⟩
        intro b hb b' hb'
        rw [List.mem_singleton.mp hb']
        exact hlate b hb
      · exact h.market s t
    · have hentry := h.entries e he
      refine ⟨hentry.ordered, fun b hb => ?_, hentry.start, hentry.stop, fun b hb hstart hstop => ?_⟩
      · have hold := hentry.stored b hb
        dsimp only
        split
        · exact List.mem_append_left _ hold
        · exact hold
      · dsimp only at hb
        split at hb
        next hsame =>
          rcases List.mem_append.mp hb with hb | hb
          · exact hentry.complete b hb hstart hstop
          · -- the new bar is later than the last one stored
            obtain ⟨last, hlast, htime⟩ :=
              List.mem_map.mp (List.max?_eq_some_iff.mp hentry.stop).1
            have hmarket := hentry.stored last hlast
            rw [hsame.1, hsame.2] at hmarket
            rw [List.mem_singleton.mp hb, ← htime] at hstop
            exact absurd (hlate last hmarket) (not_lt.mpr hstop)
        · exact hentry.complete b hb hstart hstop
  · exact h

theorem Complete.step {e : Event Quote} (hkeeps : KeepsEnvelope isWord w e)
    (h : Complete isWord w) : Complete isWord (MarketData.step isWord w e) := by
  cases e with
  | read env request => exact h.read hkeeps
  | newBar symbol timeframe bar => exact h.newBar bar

theorem Complete.initial : Complete isWord ({} : World Quote) :=
  ⟨fun _ _ => List.Pairwise.nil, fun _ he => absurd he List.not_mem_nil,
    fun _ hne => absurd rfl hne, fun _ he => absurd he List.not_mem_nil⟩

/-- The read of `auto` mode goes to the gap filling path or is served by the store. -/
def ServedByStore (isWord : Char → Bool) (w : World Quote) (env : ReadEnvironment Quote)
    (request : ReadRequest) : Prop :=
  resolveOhlcvSource isWord env w.store env.first request.symbol request.timeframe = .remote ∨
    resolveOhlcvSource isWord env w.store env.second request.symbol request.timeframe = .localStore

theorem Complete.getOhlcv_covered (h : Complete isWord w)
    (hown : OwnDirectory isWord w.store request.symbol request.timeframe)
    (hcovers : envelopeCovers isWord w.store request.symbol request.timeframe request.start
      request.stop = true) (hauto : env.dataSource = .auto)
    (hserved : ServedByStore isWord w env request) :
    (getOhlcv isWord env w request.bounds).1 =
      .ok (gatewayBars w.market request.symbol request.timeframe request.start request.stop) := by
  have hread := h.readOhlcv_eq hown hcovers
  unfold getOhlcv
  by_cases hremote : resolveOhlcvSource isWord env w.store env.first request.symbol
      request.timeframe = .remote
  · rw [if_pos (by exact ⟨hauto, hremote⟩)]
    show (getOhlcvAutoRemote isWord env w request).1 = _
    unfold envelopeCovers at hcovers
    cases hrange : availableRange isWord w.store request.symbol request.timeframe with
    | none => simp [hrange] at hcovers
    | some range =>
      simp only [hrange, decide_eq_true_eq] at hcovers
      simp only [getOhlcvAutoRemote, planOhlcvRead, hrange, if_pos hcovers, if_true, hread]
  · rw [if_neg fun hfills => hremote hfills.2]
    simp only [ReadRequest.bounds, hserved.resolve_left hremote, Bound.naiveUtc, hread]

end Reads

/-- Every existing bar between the first and the last stored bar of a series is stored, and a read
of `auto` mode without offsets that finds its range covered returns the gateway's bars of the range. -/
theorem envelope_is_complete (isWord : Char → Bool) {events : List (Event Quote)}
    (h : Admissible (step isWord) (KeepsEnvelope isWord) {} events) (request : ReadRequest) :
    let w := run (step isWord) {} events
    OwnDirectory isWord w.store request.symbol request.timeframe →
      (∀ range, availableRange isWord w.store request.symbol request.timeframe = some range →
        ∀ bar ∈ w.market request.symbol request.timeframe.toUpper,
          range.start ≤ bar.time → bar.time ≤ range.stop →
            bar ∈ w.store.series (seriesDir isWord request.symbol request.timeframe)) ∧
      ∀ env : ReadEnvironment Quote, env.dataSource = .auto →
        ServedByStore isWord w env request →
        envelopeCovers isWord w.store request.symbol request.timeframe request.start
          request.stop = true →
        (getOhlcv isWord env w request.bounds).1 = .ok (gatewayBars w.market request.symbol
          request.timeframe request.start request.stop) := by
  intro w hown
  have hcomplete : Complete isWord w :=
    invariant_of_admissible _ h .initial fun _ _ hkeeps hinv => hinv.step hkeeps
  refine ⟨fun range hrange bar hbar hstart hstop => ?_, fun env hauto hserved hcovers => ?_⟩
  · obtain ⟨hsymbol, htimeframe, hentry⟩ := hcomplete.of_availableRange hown hrange
    rw [← hsymbol, ← htimeframe] at hbar
    exact hentry.complete bar hbar hstart hstop
  · exact hcomplete.getOhlcv_covered hown hcovers hauto hserved

def asciiWord (c : Char) : Bool := c.isAlphanum || c = '_'

def reading (source : DataSource) : ReadEnvironment ℕ :=
  { dataSource := source
    first := { mt5Selectable := false, remoteAvailable := true }
    second := { mt5Selectable := false, remoteAvailable := true } }

def winBars (start stop : Time) : ReadRequest := ⟨"WIN$N", "m5", start, stop⟩

/-- Five bars come into being. -/
def fiveBars : List (Event ℕ) :=
  [1, 2, 3, 4, 5].map fun n : ℕ => .newBar "WIN$N" "M5" ⟨n, n⟩

/-- Two explicit remote reads of the first and of the last bar. -/
def endsOnly : List (Event ℕ) :=
  fiveBars ++ [.read (reading .remote) (winBars 1 1).bounds,
    .read (reading .remote) (winBars 5 5).bounds]

/-- The read of `auto` mode finds the range covered and returns two of the five bars. -/
theorem remote_reads_leave_hole :
    let w := run (step asciiWord) {} endsOnly
    (getOhlcv asciiWord (reading .auto) w (winBars 1 5).bounds).1.toOption = some [⟨1, 1⟩, ⟨5, 5⟩] ∧
      gatewayBars w.market "WIN$N" "m5" 1 5 = [⟨1, 1⟩, ⟨2, 2⟩, ⟨3, 3⟩, ⟨4, 4⟩, ⟨5, 5⟩] := by
  decide +kernel

/-- Remote reads that overlap, one of which cannot write, and a read of `auto` mode whose gateway fails
at the tail. -/
def overlapping : List (Event ℕ) :=
  fiveBars ++ [.read (reading .remote) (winBars 2 3).bounds,
    .read { reading .remote with writeStops := [some 0] } (winBars 1 2).bounds,
    .read (reading .remote) (winBars 3 4).bounds,
    .read { reading .auto with
      gatewayFails := fun call => if call = 1 then some (.connectionError "") else none }
      (winBars 1 5).bounds]

theorem envelope_is_complete_overlapping :
    let w := run (step asciiWord) {} overlapping
    envelopeCovers asciiWord w.store "WIN$N" "m5" 1 4 = true ∧
      (getOhlcv asciiWord (reading .auto) w (winBars 1 4).bounds).1 =
        .ok [⟨1, 1⟩, ⟨2, 2⟩, ⟨3, 3⟩, ⟨4, 4⟩] := by
  intro w
  have hkeeps : Admissible (step asciiWord) (KeepsEnvelope asciiWord) {} overlapping := by
    decide +kernel
  have hown : OwnDirectory asciiWord w.store "WIN$N" "m5" := by decide +kernel
  have hcovers : envelopeCovers asciiWord w.store "WIN$N" "m5" 1 4 = true := by decide +kernel
  have hserved : ServedByStore asciiWord w (reading .auto) (winBars 1 4) :=
    .inl (by decide +kernel)
  have hbars : gatewayBars w.market "WIN$N" "m5" 1 4 =
      [⟨1, 1⟩, ⟨2, 2⟩, ⟨3, 3⟩, ⟨4, 4⟩] := by decide +kernel
  have hread := (envelope_is_complete asciiWord hkeeps (winBars 1 4) hown).2 (reading .auto) rfl
    hserved hcovers
  exact ⟨hcovers, hread.trans (congrArg Except.ok hbars)⟩

end QBackend.MarketData
