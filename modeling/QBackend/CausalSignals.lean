import QBackend.CausalNodes
import QBackend.EvaluationHistory

/-!
# Signals that do not look ahead

The evaluation of a plan on the first rows of a frame is the evaluation on the frame, cut after these
rows: the cached run commutes with the cut, node by node. This needs that no node looks back by a
negative number of bars. The validator does not rule that out: it looks at literals, and a reference
or its negation may resolve to a negative number.
-/

namespace QBackend.GenomeDsl

open CausalSeries PriceFloat FallibleSteps MemoRuns
open Execution (Time)

variable {F : Type} [PriceFloat F]

/-! ## The cached run -/

def DataFrame.take (n : ℕ) (df : DataFrame F) : DataFrame F :=
  fun column => (df column).map (Column.take n)

def CachedSeries.take (n : ℕ) (cached : CachedSeries F) : CachedSeries F :=
  ⟨cached.times.take n, takeOutputs n cached.columns⟩

section Columns

variable (n : ℕ)

omit [PriceFloat F] in
theorem readColumn_cuts (df : DataFrame F) (column : String) :
    MapsTo (Column.take n) (readColumn df column) (readColumn (DataFrame.take n df) column) := by
  unfold readColumn DataFrame.take
  cases df column with
  | none => exact mapsTo_error
  | some c => exact mapsTo_ok rfl

omit [PriceFloat F] in
theorem getKey_cuts (entries : Outputs F) (key : String) :
    MapsTo (Column.take n) (getKey entries key) (getKey (takeOutputs n entries) key) := by
  unfold getKey takeOutputs
  rw [lookup_map_snd]
  cases entries.lookup key with
  | none => exact mapsTo_error
  | some c => exact mapsTo_ok rfl

omit [PriceFloat F] in
theorem writeColumn_take (df : DataFrame F) (column : String) (c : Column F) :
    writeColumn (DataFrame.take n df) column (c.take n) = DataFrame.take n (writeColumn df column c) := by
  funext name
  unfold writeColumn DataFrame.take
  by_cases hname : name = column
  · subst hname
    simp
  · simp [Function.update_of_ne hname]

omit [PriceFloat F] in
theorem writeOutputs_cuts (compiled : CompiledNode) (df : DataFrame F) (outputs : Outputs F) :
    MapsTo (DataFrame.take n) (writeOutputs compiled df outputs)
      (writeOutputs compiled (DataFrame.take n df) (takeOutputs n outputs)) := by
  refine mapsTo_foldlM (fun df output => ?_) outputs df
  exact mapsTo_bind_same fun column => mapsTo_pure (writeColumn_take n df column output.2)

theorem times_take (frame : Frame F) : (frame.take n).times = frame.times.take n := List.map_take

theorem nodeMemo_commutes {n : ℕ} (hn : 0 < n) (frame : Frame F) (latents : Option (Latents F))
    {compiled : CompiledNode} (h : LooksBack compiled.node.kind compiled.resolvedParams) :
    (nodeMemo frame latents).Commutes (nodeMemo (frame.take n) (latents.map (Latents.take n)))
      (DataFrame.take n) (CachedSeries.take n) (fun cached => cached.times = frame.times)
      compiled where
  key := rfl
  keeps := rfl
  compute df := by
    refine mapsTo_bind (mapsTo_mapM _ fun binding _ => readColumn_cuts n df binding.column) ?_
    intro inputs
    refine mapsTo_bind (evaluateKind_cuts hn frame latents h inputs) fun outputs => ?_
    exact writeOutputs_cuts n compiled df outputs
  capture df := by
    have hcolumns : MapsTo (takeOutputs n)
        (compiled.columnByPort.mapM fun entry => do
          let column ← readColumn df entry.2
          pure (entry.1, column))
        (compiled.columnByPort.mapM fun entry => do
          let column ← readColumn (DataFrame.take n df) entry.2
          pure (entry.1, column)) :=
      mapsTo_mapM _ fun entry _ =>
        mapsTo_bind (readColumn_cuts n df entry.2) fun column => mapsTo_pure rfl
    refine mapsTo_bind hcolumns fun columns => mapsTo_pure ?_
    rw [times_take]
    rfl
  captured df cached hcached := by
    obtain ⟨columns, -, heq⟩ := bind_eq_ok.mp hcached
    exact (pure_eq_ok.mp heq) ▸ rfl
  restore df cached hcached := by
    have hpass : ∀ (df : DataFrame F) (entry : String × String), MapsTo (DataFrame.take n)
        (do let column ← getKey cached.columns entry.1
            pure (writeColumn df entry.2 (reindex frame.times cached.times column)))
        (do let column ← getKey (takeOutputs n cached.columns) entry.1
            pure (writeColumn (DataFrame.take n df) entry.2
              (reindex (frame.take n).times (cached.times.take n) column))) := by
      intro df entry
      refine mapsTo_bind (getKey_cuts n cached.columns entry.1) fun column => mapsTo_pure ?_
      rw [hcached, times_take, reindex_self, reindex_self, writeColumn_take]
    have hloop := mapsTo_foldlM (e := id) (g := fun df entry => do
      let column ← getKey (takeOutputs n cached.columns) entry.1
      pure (writeColumn df entry.2 (reindex (frame.take n).times (cached.times.take n) column)))
      hpass compiled.columnByPort df
    rw [List.map_id] at hloop
    exact hloop

end Columns

/-! ## Latent columns -/

/-- The encoder turns the rows up to a bar into the latent values of the bar. -/
def LatentModel.Causal (model : LatentModel F) : Prop :=
  ∀ frame n, model.encode (frame.take n) = (model.encode frame).map (List.take n)

theorem countP_le_take {times : List Time} (h : times.Pairwise (· ≤ ·)) (t : Time) (n : ℕ) :
    (times.take n).countP (fun s => decide (s ≤ t)) =
      min (times.countP fun s => decide (s ≤ t)) n := by
  induction times generalizing n with
  | nil => simp
  | cons s times ih =>
    obtain ⟨hs, htimes⟩ := List.pairwise_cons.mp h
    cases n with
    | zero => simp
    | succ n =>
      by_cases hle : s ≤ t
      · simp only [List.take_succ_cons, List.countP_cons, hle, decide_true, if_true, ih htimes]
        omega
      · have hnone : ∀ r ∈ times, ¬ r ≤ t := fun r hr hrt => hle ((hs r hr).trans hrt)
        have hzero : times.countP (fun s => decide (s ≤ t)) = 0 :=
          List.countP_eq_zero.mpr fun r hr => by simpa using hnone r hr
        have hzero' : (times.take n).countP (fun s => decide (s ≤ t)) = 0 :=
          List.countP_eq_zero.mpr fun r hr => by
            simpa using hnone r (List.mem_of_mem_take hr)
        simp [hle, hzero, hzero']

theorem times_sorted (frame : Frame F) : frame.times.Pairwise (· ≤ ·) := by
  unfold Frame.times
  rw [List.pairwise_map]
  refine frame.spaced.imp fun {a b} hab => ?_
  have hminute : (0 : ℤ) ≤ minute := by decide
  exact (Int.le_add_of_nonneg_right hminute).trans hab

theorem latentsOf_take {strategy : Strategy F} (h : ∀ model ∈ strategy.latentModel, model.Causal)
    (frame : Frame F) (n : ℕ) :
    latentsOf strategy (frame.take n) = (latentsOf strategy frame).map (Latents.take n) := by
  unfold latentsOf
  cases hmodel : strategy.latentModel with
  | none => rfl
  | some model =>
    have hencode := h model hmodel frame n
    have hwarmup : oosWarmupBars (frame.take n).times model.trainEnd =
        min (oosWarmupBars frame.times model.trainEnd) n := by
      rw [times_take]
      exact countP_le_take (times_sorted frame) model.trainEnd n
    simp only [Option.map_some, hencode, hwarmup, Latents.take]

/-! ## The signals -/

/-- Columns and signals of the first rows. -/
def Indicators.take (n : ℕ) (r : Indicators F) : Indicators F where
  columns := DataFrame.take n r.columns
  entryLongSignal := r.entryLongSignal.take n
  entryShortSignal := r.entryShortSignal.take n
  exitLongSignal := r.exitLongSignal.map (List.take n)
  exitShortSignal := r.exitShortSignal.map (List.take n)

theorem readSignal_cuts (n : ℕ) (df : DataFrame F) (column : String) :
    MapsTo (List.take n) (readSignal df column) (readSignal (DataFrame.take n df) column) :=
  mapsTo_bind (readColumn_cuts n df column) fun c => mapsTo_pure (c.signals_take n)

theorem readExitSignal_cuts (n : ℕ) (df : DataFrame F) (column : Option String) :
    MapsTo (Option.map (List.take n)) (readExitSignal df column)
      (readExitSignal (DataFrame.take n df) column) := by
  cases column with
  | none => exact mapsTo_ok rfl
  | some column =>
    have hsignal : readSignal (DataFrame.take n df) column =
        (readSignal df column).map (List.take n) := readSignal_cuts n df column
    show (readSignal (DataFrame.take n df) column).map some = _
    rw [hsignal]
    show _ = ((readSignal df column).map some).map (Option.map (List.take n))
    cases readSignal df column with
    | error e => rfl
    | ok signals => rfl

theorem assembleSignals_cuts (n : ℕ) (plan : ExecutionPlan) (df : DataFrame F) :
    MapsTo (Indicators.take n) (assembleSignals plan df)
      (assembleSignals plan (DataFrame.take n df)) := by
  unfold assembleSignals
  refine mapsTo_bind (readSignal_cuts n df _) fun entryLong => ?_
  refine mapsTo_bind (readSignal_cuts n df _) fun entryShort => ?_
  refine mapsTo_bind (readExitSignal_cuts n df _) fun exitLong => ?_
  refine mapsTo_bind (readExitSignal_cuts n df _) fun exitShort => ?_
  exact mapsTo_pure rfl

/-- No node of the genome looks back by a negative number of bars. -/
def Genome.LooksBack (genome : Genome) (trial : TrialParams) : Prop :=
  ∀ node ∈ genome.nodes, GenomeDsl.LooksBack node.kind (resolveNodeParams trial node)

/-- The evaluation on the first rows is the first rows of the evaluation. -/
theorem freshIndicators_cuts {strategy : Strategy F}
    (hmodel : ∀ model ∈ strategy.latentModel, model.Causal)
    (hback : strategy.genome.LooksBack strategy.trial) (frame : Frame F) {n : ℕ} (hn : 0 < n) :
    MapsTo (Indicators.take n) (freshIndicators strategy frame)
      (freshIndicators strategy (frame.take n)) := by
  cases hplan : strategy.plan with
  | error e =>
    have herror : ∀ frame : Frame F, freshIndicators strategy frame = .error e := by
      intro frame
      simp only [freshIndicators, computeIndicators, hplan]
    rw [herror, herror]
    exact mapsTo_error
  | ok plan =>
    rw [freshIndicators_eq frame hplan, freshIndicators_eq (frame.take n) hplan]
    have hrun : MapsTo (DataFrame.take n) (freshRun strategy plan frame).1
        (freshRun strategy plan (frame.take n)).1 := by
      unfold freshRun
      rw [latentsOf_take hmodel]
      have hpass : ∀ compiled ∈ plan.sortedNodes,
          (nodeMemo frame (latentsOf strategy frame)).Commutes
            (nodeMemo (frame.take n) ((latentsOf strategy frame).map (Latents.take n)))
            (DataFrame.take n) (CachedSeries.take n) (fun cached => cached.times = frame.times)
            compiled := by
        intro compiled hmem
        obtain ⟨-, hnode, hparams⟩ := plan_nodes hplan compiled hmem
        refine nodeMemo_commutes hn frame (latentsOf strategy frame) ?_
        rw [hparams]
        exact hback compiled.node hnode
      exact Memo.run_commutes hpass (fun _ h => by cases h) fun _ => none
    exact mapsTo_bind hrun fun df => assembleSignals_cuts n plan df

/-- Frames that agree up to a row have the same columns and signals up to it. -/
theorem signals_causal (strategy : Strategy F)
    (hmodel : ∀ model ∈ strategy.latentModel, model.Causal)
    (hback : strategy.genome.LooksBack strategy.trial) (frame frame' : Frame F) (i : ℕ)
    (hagree : frame.take (i + 1) = frame'.take (i + 1)) :
    (freshIndicators strategy frame).map (Indicators.take (i + 1)) =
      (freshIndicators strategy frame').map (Indicators.take (i + 1)) := by
  have hcut := freshIndicators_cuts hmodel hback frame (Nat.succ_pos i)
  have hcut' := freshIndicators_cuts hmodel hback frame' (Nat.succ_pos i)
  rw [← hagree] at hcut'
  exact hcut.symm.trans hcut'

/-! ## A shift by the threshold -/

section Shift

/-- Long where the shifted close is above the close; the number of bars is the threshold. -/
def shiftGenome : Genome where
  nodes :=
    [{ id := "n1", kind := .sourceClose },
      { id := "n2", kind := .transformShift, params := [("bars", .ref "threshold" false)]
        inputs := ["n1"] },
      { id := "n3", kind := .cmpGt, inputs := ["n2", "n1"] },
      { id := "n4", kind := .cmpLt, inputs := ["n2", "n1"] }]
  entryLong := "n3"
  entryShort := "n4"
  exitLong := "n4"
  exitShort := "n3"

def shiftStrategy (threshold : ℚ) : Strategy (Option ℚ) where
  genome := shiftGenome
  trial key := if key = "threshold" then some (.float threshold) else none

theorem inBounds_shift {threshold : ℚ} (h : -3 ≤ threshold ∧ threshold ≤ 3) :
    InBounds (shiftStrategy threshold).trial := by
  intro key value hvalue
  by_cases hkey : key = "threshold"
  · subst hkey
    refine ⟨⟨.float 0, .float (-3) 3⟩, rfl, ?_⟩
    cases hvalue
    exact decide_eq_true h
  · simp [shiftStrategy, hkey] at hvalue

/-- Two bars; the close of the second is given. -/
def closeFrame (close : ℚ) : Frame (Option ℚ) where
  rows := [risingRow 0, { risingRow 1 with close := some close }]
  spaced := by
    refine List.pairwise_cons.mpr ⟨fun row hrow => ?_, List.pairwise_singleton _ _⟩
    rw [List.mem_singleton.mp hrow]
    show (0 : ℤ) * minute + minute ≤ 1 * minute
    decide
  opens := by
    intro row hrow
    obtain rfl | hrow := List.mem_cons.mp hrow
    · rfl
    · rw [List.mem_singleton.mp hrow]
      rfl

theorem looksBack_shift : shiftGenome.LooksBack (shiftStrategy 1).trial := by
  intro node hnode key hkey bars hbars
  have hcases : (lookbackKeys node.kind = []) ∨
      (node.kind = .transformShift ∧
        intParam (resolveNodeParams (shiftStrategy 1).trial node) "bars" = .ok 1) := by
    simp only [shiftGenome, List.mem_cons, List.not_mem_nil, or_false] at hnode
    obtain rfl | rfl | rfl | rfl := hnode
    · exact .inl rfl
    · exact .inr ⟨rfl, rfl⟩
    · exact .inl rfl
    · exact .inl rfl
  obtain hnil | ⟨hkind, hone⟩ := hcases
  · rw [hnil] at hkey
    cases hkey
  · rw [hkind] at hkey
    rw [List.mem_singleton.mp hkey, hone] at hbars
    cases hbars
    decide

/-- A shift by one bar gives the same first signals whatever the second close. -/
theorem signals_causal_shift_back :
    Accepted (Option ℚ) (shiftStrategy 1).genome ∧ InBounds (shiftStrategy 1).trial ∧
      (freshIndicators (shiftStrategy 1) (closeFrame 1)).map (Indicators.take 1) =
        (freshIndicators (shiftStrategy 1) (closeFrame 3)).map (Indicators.take 1) :=
  ⟨by decide +kernel, inBounds_shift (by decide +kernel),
    signals_causal (shiftStrategy 1) (fun _ h => by cases h) looksBack_shift (closeFrame 1)
      (closeFrame 3) 0 rfl⟩

/-- A threshold of minus one is within its bounds, and shifts the next close to the bar. -/
theorem entry_reads_next_close :
    Accepted (Option ℚ) (shiftStrategy (-1)).genome ∧ InBounds (shiftStrategy (-1)).trial ∧
      (closeFrame 1).take 1 = (closeFrame 3).take 1 ∧
      (freshIndicators (shiftStrategy (-1)) (closeFrame 1)).map
          (fun r => r.entryLongSignal.take 1) ≠
        (freshIndicators (shiftStrategy (-1)) (closeFrame 3)).map
          (fun r => r.entryLongSignal.take 1) := by
  refine ⟨by decide +kernel, inBounds_shift (by decide +kernel), rfl, ?_⟩
  intro heq
  have hsignals := congrArg Except.toOption heq
  revert hsignals
  decide +kernel

end Shift

end QBackend.GenomeDsl
