import QBackend.NodeEvaluation
import QBackend.MemoRuns
import QBackend.KeyedCaches

/-!
# The composite strategy

`CompositeStrategy` of `composite_strategy.py`: the columns of a plan, computed node by node with
the series cache that the instance keeps from call to call. The cache is cleared when the length of
the frame changes. A series that is put back is aligned with the index of the frame. The latent frames
of a model are kept by the process, for all instances.
-/

namespace QBackend.GenomeDsl

open PriceFloat MemoRuns
open Execution (Time)
open KeyedCaches (Recent)

/-! ## Instances -/

/-- The encoder of a latent model and the end of its training data. -/
structure LatentModel (F : Type) [PriceFloat F] where
  encode : Frame F → List (List F)
  trainEnd : Time

/-- What an instance is made of and keeps. -/
structure Strategy (F : Type) [PriceFloat F] where
  genome : Genome
  trial : TrialParams
  latentModel : Option (LatentModel F) := none

/-- The series of a node with the index of the frame they were computed on. -/
structure CachedSeries (F : Type) where
  times : List Time
  columns : List (String × Column F)

/-- The number of bars with the first and the last time, under which a latent frame is kept. -/
abbrev BarsRange := ℕ × Option Time × Option Time

/-- `_MODEL_OUTPUT_CACHE` under the hash of the model. -/
abbrev LatentOutputs (F : Type) := Recent BarsRange (List (List F))

structure CompositeState (F : Type) where
  seriesCache : List (CacheKey × CachedSeries F) := []
  /-- The latent frame, with its number of rows. -/
  latentFrame : Option (ℕ × List (List F)) := none
  latentWarmup : Option ℕ := none
  /-- Not of the instance but of its process. -/
  outputs : LatentOutputs F := .empty
  lastDataLen : Option ℕ := none

/-- The columns of the nodes in the data frame. -/
abbrev DataFrame (F : Type) := String → Option (Column F)

section Evaluation

variable {F : Type} [PriceFloat F]

def Frame.times (frame : Frame F) : List Time := frame.rows.map Row.time

def Frame.barsRange (frame : Frame F) : BarsRange :=
  (frame.rows.length, frame.times.head?, frame.times.getLast?)

/-! ## Reading and writing columns -/

def readColumn (df : DataFrame F) (column : String) : Except Failure (Column F) :=
  match df column with
  | some c => .ok c
  | none => .error (.keyError column)

def writeColumn (df : DataFrame F) (column : String) (c : Column F) : DataFrame F :=
  Function.update df column (some c)

/-- Assignment of a series to a column: by position when the indexes are equal, else by time. -/
def reindex (times index : List Time) : Column F → Column F
  | .numbers xs =>
    if index = times then .numbers xs
    else .numbers (times.map fun t => ((index.zip xs).lookup t).getD nan)
  | .bools bs =>
    if index = times then .bools bs
    else .bools (times.map fun t => ((index.zip bs).lookup t).getD none)

/-- The outputs of a node go to the columns of its ports. -/
def writeOutputs (compiled : CompiledNode) (df : DataFrame F) (outputs : Outputs F) :
    Except Failure (DataFrame F) :=
  outputs.foldlM (fun df output => do
    let column ← getKey compiled.columnByPort output.1
    pure (writeColumn df column output.2)) df

/-- `_evaluate_node`. -/
def evaluateNode (frame : Frame F) (latents : Option (Latents F)) (df : DataFrame F)
    (compiled : CompiledNode) : Except Failure (DataFrame F) := do
  let inputs ← compiled.inputBindings.mapM fun binding => readColumn df binding.column
  let outputs ← evaluateKind frame latents compiled.node.kind compiled.resolvedParams inputs
  writeOutputs compiled df outputs

def captureSeries (frame : Frame F) (df : DataFrame F) (compiled : CompiledNode) :
    Except Failure (CachedSeries F) := do
  let columns ← compiled.columnByPort.mapM fun entry => do
    let column ← readColumn df entry.2
    pure (entry.1, column)
  pure ⟨frame.times, columns⟩

def restoreSeries (frame : Frame F) (df : DataFrame F) (compiled : CompiledNode)
    (cached : CachedSeries F) : Except Failure (DataFrame F) :=
  compiled.columnByPort.foldlM (fun df entry => do
    let column ← getKey cached.columns entry.1
    pure (writeColumn df entry.2 (reindex frame.times cached.times column))) df

/-- Exit policies are not cached. -/
def CacheKey.keeps : CacheKey → Bool
  | .mk kind _ _ => decide (kind.family ≠ .exit ∨ kind = .exitMiddleBand)

/-- The loop over the sorted nodes, for one frame and its latent columns. -/
def nodeMemo (frame : Frame F) (latents : Option (Latents F)) :
    Memo CompiledNode CacheKey (CachedSeries F) (DataFrame F) Failure where
  key := CompiledNode.cacheKey
  keeps := CacheKey.keeps
  compute := evaluateNode frame latents
  capture := captureSeries frame
  restore := restoreSeries frame

/-! ## Latent columns -/

def oosWarmupBars (times : List Time) (trainEnd : Time) : ℕ :=
  times.countP fun t => decide (t ≤ trainEnd)

/-- The latent frame of the process, else of the encoder. -/
def CompositeState.latentFrameFor (s : CompositeState F) (model : LatentModel F) (frame : Frame F) :
    CompositeState F :=
  match s.outputs.lookup frame.barsRange with
  | some latents =>
    { s with
      latentFrame := some (frame.rows.length, latents), latentWarmup := none
      outputs := s.outputs.moveToEnd frame.barsRange }
  | none =>
    { s with
      latentFrame := some (frame.rows.length, model.encode frame), latentWarmup := none
      outputs := s.outputs.put 32 frame.barsRange (model.encode frame) }

/-- The latent frame and the warm-up, computed when they are not there. -/
def CompositeState.fetchLatents (s : CompositeState F) (model : LatentModel F) (frame : Frame F) :
    CompositeState F :=
  let stale := match s.latentFrame with
    | some (rows, _) => decide (rows ≠ frame.rows.length)
    | none => true
  let s := if stale then s.latentFrameFor model frame else s
  match s.latentWarmup with
  | some _ => s
  | none => { s with latentWarmup := some (oosWarmupBars frame.times model.trainEnd) }

/-- The latent columns as the state has them; a strategy without a model has none. -/
def CompositeState.latents (s : CompositeState F) (strategy : Strategy F) : Option (Latents F) :=
  match strategy.latentModel, s.latentFrame, s.latentWarmup with
  | some _, some frame, some warmup => some ⟨frame.2, warmup⟩
  | _, _, _ => none

/-! ## The loop -/

/-- One pass: a latent node that is not cached fetches the latent frame first. -/
def visitNode (strategy : Strategy F) (frame : Frame F) (s : CompositeState F) (df : DataFrame F)
    (compiled : CompiledNode) : Except Failure (DataFrame F) × CompositeState F :=
  let s := match strategy.latentModel with
    | some model =>
      if compiled.node.kind = NodeKind.indLatent ∧
          (s.seriesCache.lookup compiled.cacheKey).isNone then
        s.fetchLatents model frame
      else s
    | none => s
  let result := (nodeMemo frame (s.latents strategy)).step s.seriesCache df compiled
  (result.1, { s with seriesCache := result.2 })

def visitNodes (strategy : Strategy F) (frame : Frame F) :
    List CompiledNode → CompositeState F → DataFrame F →
      Except Failure (DataFrame F) × CompositeState F
  | [], s, df => (.ok df, s)
  | compiled :: rest, s, df =>
    match visitNode strategy frame s df compiled with
    | (.error e, s') => (.error e, s')
    | (.ok df', s') => visitNodes strategy frame rest s' df'

/-! ## Signals -/

/-- The node columns with the signals that are read off them. -/
structure Indicators (F : Type) where
  columns : DataFrame F
  entryLongSignal : List Bool
  entryShortSignal : List Bool
  exitLongSignal : Option (List Bool)
  exitShortSignal : Option (List Bool)

def readSignal (df : DataFrame F) (column : String) : Except Failure (List Bool) := do
  let c ← readColumn df column
  pure c.signals

def readExitSignal (df : DataFrame F) (column : Option String) :
    Except Failure (Option (List Bool)) :=
  match column with
  | some column => (readSignal df column).map some
  | none => .ok none

def assembleSignals (plan : ExecutionPlan) (df : DataFrame F) : Except Failure (Indicators F) := do
  let entryLong ← readSignal df plan.entryLongColumn
  let entryShort ← readSignal df plan.entryShortColumn
  -- the middle band of the long exit sets both sides
  let exitColumns := match plan.exitLong.policy, plan.exitLong.middleColumns with
    | .middleBand, some (long, short) => (some long, some short)
    | _, _ => (plan.exitLong.column, plan.exitShort.column)
  let exitLong ← readExitSignal df exitColumns.1
  let exitShort ← readExitSignal df exitColumns.2
  pure ⟨df, entryLong, entryShort, exitLong, exitShort⟩

/-! ## `compute_indicators` -/

/-- The caches are dropped when the length of the frame is not that of the last one. -/
def CompositeState.prepare (s : CompositeState F) (frame : Frame F) : CompositeState F :=
  if s.lastDataLen = some frame.rows.length then s
  else { outputs := s.outputs, lastDataLen := some frame.rows.length }

def Strategy.plan (strategy : Strategy F) : Except Failure ExecutionPlan :=
  compileGenome F strategy.genome strategy.trial

def computeIndicators (strategy : Strategy F) (s : CompositeState F) (frame : Frame F) :
    Except Failure (Indicators F) × CompositeState F :=
  let s := s.prepare frame
  match strategy.plan with
  | .error e => (.error e, s)
  | .ok plan =>
    match visitNodes strategy frame plan.sortedNodes s (fun _ => none) with
    | (.error e, s') => (.error e, s')
    | (.ok df, s') => (assembleSignals plan df, s')

/-- What a fresh instance gives for the frame alone. -/
def freshIndicators (strategy : Strategy F) (frame : Frame F) : Except Failure (Indicators F) :=
  (computeIndicators strategy {} frame).1

/-- A call: its frame, and the latent frames that the process keeps when it is made. -/
structure Call (F : Type) [PriceFloat F] where
  frame : Frame F
  outputs : LatentOutputs F := .empty

/-- A sequence of calls of one instance, between which others use the process as well. -/
def computeAll (strategy : Strategy F) :
    CompositeState F → List (Call F) → List (Except Failure (Indicators F))
  | _, [] => []
  | s, call :: calls =>
    let result := computeIndicators strategy { s with outputs := call.outputs } call.frame
    result.1 :: computeAll strategy result.2 calls

end Evaluation

end QBackend.GenomeDsl
