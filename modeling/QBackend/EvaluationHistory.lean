import QBackend.SeriesCache

/-!
# Calls one after another

What `compute_indicators` gives after other calls of the same instance. The caches go only when the
length of the frame changes, so a frame of the same length with other rows is answered from the
series of the last one. Where a frame of the same length is the same frame, each call gives what a
fresh instance would.
-/

namespace QBackend.GenomeDsl

open FallibleSteps MemoRuns TopologicalOrder

section History

variable {F : Type} [PriceFloat F]

/-! ## The nodes of a plan -/

theorem compilePlan_sortedNodes {genome : Genome} {trial : TrialParams} {plan : ExecutionPlan}
    (h : compilePlan genome trial = .ok plan) :
    List.Forall₂ (fun id compiled => compileById genome trial id = .ok compiled)
      (kahn genome.ids genome.parents) plan.sortedNodes := by
  simp only [compilePlan, bind_eq_ok, pure_eq_ok] at h
  obtain ⟨_, -, order, horder, nodes, hnodes, _, -, _, -, _, -, _, -, _, -, _, -, _, -, rfl⟩ := h
  have hkahn : order = kahn genome.ids genome.parents := by
    simp only [topologicalSort] at horder
    split at horder
    · exact (Except.ok.inj horder).symm
    · cases horder
  rw [← hkahn]
  exact forall₂_of_mapM hnodes

theorem plan_nodes {strategy : Strategy F} {plan : ExecutionPlan} (h : strategy.plan = .ok plan) :
    ∀ compiled ∈ plan.sortedNodes, compiled.columnByPort = columnByPort compiled.node ∧
      compiled.node ∈ strategy.genome.nodes ∧
      compiled.resolvedParams = resolveNodeParams strategy.trial compiled.node := by
  simp only [Strategy.plan, compileGenome, bind_eq_ok] at h
  obtain ⟨_, -, h⟩ := h
  have hall := compilePlan_sortedNodes h
  intro compiled hmem
  obtain ⟨i, hi, rfl⟩ := List.getElem_of_mem hmem
  have hcompiled := hall.get (hall.length_eq ▸ hi) hi
  obtain ⟨fuel, -, hfrom⟩ := compileById_spec hcompiled
  exact ⟨hfrom.columns, (compileById_id hcompiled).1, hfrom.params⟩

/-! ## The run of a fresh instance -/

/-- The run over the nodes that a fresh instance makes for the frame. -/
def freshRun (strategy : Strategy F) (plan : ExecutionPlan) (frame : Frame F) :
    Except Failure (DataFrame F) × List (CacheKey × CachedSeries F) :=
  (nodeMemo frame (latentsOf strategy frame)).run [] (fun _ => none) plan.sortedNodes

/-- The caches hold nothing but what the fresh run of the frame leaves in them. -/
structure CachesOf (strategy : Strategy F) (plan : ExecutionPlan) (frame : Frame F)
    (s : CompositeState F) : Prop where
  series : Extends s.seriesCache (freshRun strategy plan frame).2
  latents : LatentsCurrent strategy frame s

theorem cachesOf_cleared {strategy : Strategy F} (plan : ExecutionPlan) {frame : Frame F}
    {outputs : LatentOutputs F} (h : Served strategy frame outputs) (len : Option ℕ) :
    CachesOf strategy plan frame { outputs, lastDataLen := len } where
  series := Extends.nil _
  latents := ⟨h, fun _ _ => ⟨.inl rfl, .inl rfl⟩⟩

theorem served_empty (strategy : Strategy F) (frame : Frame F) :
    Served strategy frame .empty := nofun

theorem visitNodes_eq_freshRun {strategy : Strategy F} {plan : ExecutionPlan} {frame : Frame F}
    {s : CompositeState F} (hplan : strategy.plan = .ok plan)
    (h : CachesOf strategy plan frame s) :
    (visitNodes strategy frame plan.sortedNodes s (fun _ => none)).1 =
        (freshRun strategy plan frame).1 ∧
      CachesOf strategy plan frame
        (visitNodes strategy frame plan.sortedNodes s (fun _ => none)).2 ∧
      (visitNodes strategy frame plan.sortedNodes s (fun _ => none)).2.lastDataLen =
        s.lastDataLen := by
  obtain ⟨h₁, h₂, h₃, h₄⟩ := visitNodes_eq h.latents (fun _ => none)
    fun compiled hmem => (plan_nodes hplan compiled hmem).2.1
  have hrestores : ∀ compiled ∈ plan.sortedNodes,
      (nodeMemo frame (latentsOf strategy frame)).Restores compiled := fun compiled hmem =>
    nodeMemo_restores frame (latentsOf strategy frame) (plan_nodes hplan compiled hmem).1
  obtain ⟨hresult, -, hcache⟩ := Memo.run_resume hrestores Memo.Clean.nil
    (Extends.nil s.seriesCache) h.series
  refine ⟨h₁.trans hresult, ⟨?_, h₃⟩, h₄⟩
  rw [h₂]
  exact hcache

/-! ## One call -/

/-- The state after a call on the frame: its length is remembered and the caches are its own. -/
structure CalledOn (strategy : Strategy F) (plan : ExecutionPlan) (frame : Frame F)
    (s : CompositeState F) : Prop where
  len : s.lastDataLen = some frame.rows.length
  caches : CachesOf strategy plan frame s

/-- A call from caches of the frame gives the result of the fresh run. -/
theorem computeIndicators_of_caches {strategy : Strategy F} {plan : ExecutionPlan}
    {frame : Frame F} {s : CompositeState F} (hplan : strategy.plan = .ok plan)
    (hlen : (s.prepare frame).lastDataLen = some frame.rows.length)
    (h : CachesOf strategy plan frame (s.prepare frame)) :
    (computeIndicators strategy s frame).1 =
        (freshRun strategy plan frame).1.bind (assembleSignals plan) ∧
      CalledOn strategy plan frame (computeIndicators strategy s frame).2 := by
  obtain ⟨hresult, hcaches, hkeep⟩ := visitNodes_eq_freshRun hplan h
  simp only [computeIndicators, hplan]
  rcases hv : visitNodes strategy frame plan.sortedNodes (s.prepare frame) (fun _ => none) with
    ⟨r, s'⟩
  rw [hv] at hresult hcaches hkeep
  simp only at hresult hcaches hkeep
  rw [← hresult]
  cases r with
  | error e => exact ⟨rfl, hkeep.trans hlen, hcaches⟩
  | ok df => exact ⟨rfl, hkeep.trans hlen, hcaches⟩

theorem prepare_fresh (frame : Frame F) (s : CompositeState F)
    (h : s.lastDataLen ≠ some frame.rows.length) :
    s.prepare frame = { outputs := s.outputs, lastDataLen := some frame.rows.length } := by
  simp [CompositeState.prepare, h]

theorem freshIndicators_eq {strategy : Strategy F} {plan : ExecutionPlan} (frame : Frame F)
    (hplan : strategy.plan = .ok plan) :
    freshIndicators strategy frame =
        (freshRun strategy plan frame).1.bind (assembleSignals plan) := by
  have hprep := prepare_fresh frame ({} : CompositeState F) (by simp)
  refine (computeIndicators_of_caches hplan ?_ ?_).1
  · rw [hprep]
  · rw [hprep]
    exact cachesOf_cleared plan (served_empty strategy frame) _

theorem computeIndicators_eq_fresh {strategy : Strategy F} {plan : ExecutionPlan}
    {frame : Frame F} {s : CompositeState F} (hplan : strategy.plan = .ok plan)
    (h : s.lastDataLen ≠ some frame.rows.length ∨ CalledOn strategy plan frame s)
    (hserved : Served strategy frame s.outputs) :
    (computeIndicators strategy s frame).1 = freshIndicators strategy frame ∧
      CalledOn strategy plan frame (computeIndicators strategy s frame).2 := by
  rw [freshIndicators_eq frame hplan]
  rcases h with hlen | hcalled
  · have hprep := prepare_fresh frame s hlen
    refine computeIndicators_of_caches hplan ?_ ?_
    · rw [hprep]
    · rw [hprep]
      exact cachesOf_cleared plan hserved _
  · have hprep : s.prepare frame = s := by
      simp [CompositeState.prepare, hcalled.len]
    refine computeIndicators_of_caches hplan ?_ ?_
    · rw [hprep]
      exact hcalled.len
    · rw [hprep]
      exact hcalled.caches

/-! ## Every sequence of calls -/

/-- A frame as long as the one before it is that frame. -/
def RepeatsOrResizes (before frame : Frame F) : Prop :=
  before.rows.length = frame.rows.length → before = frame

theorem CalledOn.in_process {strategy : Strategy F} {plan : ExecutionPlan} {frame : Frame F}
    {s : CompositeState F} {outputs : LatentOutputs F} (h : CalledOn strategy plan frame s)
    (hserved : Served strategy frame outputs) : CalledOn strategy plan frame { s with outputs } :=
  ⟨h.len, h.caches.series, hserved, h.caches.latents.2⟩

theorem computeAll_after {strategy : Strategy F} {plan : ExecutionPlan}
    (hplan : strategy.plan = .ok plan) {before : Frame F} {s : CompositeState F}
    (hs : CalledOn strategy plan before s) {calls : List (Call F)}
    (h : (before :: calls.map Call.frame).IsChain RepeatsOrResizes)
    (hserved : ∀ call ∈ calls, Served strategy call.frame call.outputs) :
    computeAll strategy s calls = calls.map fun call => freshIndicators strategy call.frame := by
  induction calls generalizing before s with
  | nil => rfl
  | cons call calls ih =>
    obtain ⟨hstep, hrest⟩ := List.isChain_cons_cons.mp h
    obtain ⟨hcall, hcalls⟩ := List.forall_mem_cons.mp hserved
    have hstate : s.lastDataLen ≠ some call.frame.rows.length ∨
        CalledOn strategy plan call.frame { s with outputs := call.outputs } := by
      by_cases hlen : before.rows.length = call.frame.rows.length
      · have hsame := hstep hlen ▸ hs
        exact .inr (hsame.in_process hcall)
      · left
        rw [hs.len]
        simpa using hlen
    obtain ⟨hresult, hcalled⟩ :=
      computeIndicators_eq_fresh (s := { s with outputs := call.outputs }) hplan hstate hcall
    simp only [computeAll, List.map_cons, hresult, ih hcalled hrest hcalls]

theorem computeAll_of_plan_error {strategy : Strategy F} {e : Failure}
    (hplan : strategy.plan = .error e) (s : CompositeState F) (calls : List (Call F)) :
    computeAll strategy s calls = calls.map fun call => freshIndicators strategy call.frame := by
  induction calls generalizing s with
  | nil => rfl
  | cons call calls ih =>
    simp only [computeAll, List.map_cons, ih]
    simp only [freshIndicators, computeIndicators, hplan]

/-- Every call gives what a fresh instance gives for its frame alone, as long as no frame follows
another one of the same length and the process keeps no latents of another frame with the same number
of bars between the same times. -/
theorem every_call_is_fresh (strategy : Strategy F) (calls : List (Call F))
    (h : (calls.map Call.frame).IsChain RepeatsOrResizes)
    (hserved : ∀ call ∈ calls, Served strategy call.frame call.outputs) :
    computeAll strategy {} calls = calls.map fun call => freshIndicators strategy call.frame := by
  cases hplan : strategy.plan with
  | error e => exact computeAll_of_plan_error hplan {} calls
  | ok plan =>
    cases calls with
    | nil => rfl
    | cons call calls =>
      obtain ⟨hcall, hcalls⟩ := List.forall_mem_cons.mp hserved
      obtain ⟨hresult, hcalled⟩ := computeIndicators_eq_fresh
        (s := { outputs := call.outputs }) hplan (.inl (by simp)) hcall
      simp only [computeAll, List.map_cons, hresult, computeAll_after hplan hcalled h hcalls]

end History

/-! ## A window that slides by one bar -/

section SlidingWindow

def risingRow (bar : ℤ) : Row (Option ℚ) where
  time := bar * minute
  opn := some 1
  high := some 2
  low := some 1
  close := some 2
  volume := some 1
  exog _ := none

/-- Two bars from the given one on; every bar closes above its open. -/
def risingFrame (bar : ℤ) : Frame (Option ℚ) where
  rows := [risingRow bar, risingRow (bar + 1)]
  spaced := by
    simp only [List.pairwise_cons, List.mem_singleton, forall_eq, List.Pairwise.nil,
      List.not_mem_nil, false_implies, implies_true, and_true, risingRow]
    rw [Int.add_mul, Int.one_mul]
  opens := by
    intro r hr
    rcases List.mem_cons.mp hr with rfl | hr
    · rfl
    · rw [List.mem_singleton.mp hr]
      rfl

/-- Long while the close is above the open. -/
def risingGenome : Genome where
  nodes :=
    [{ id := "n1", kind := .sourceClose },
      { id := "n2", kind := .sourceOpen },
      { id := "n3", kind := .cmpGt, inputs := ["n1", "n2"] },
      { id := "n4", kind := .cmpLt, inputs := ["n1", "n2"] }]
  entryLong := "n3"
  entryShort := "n4"
  exitLong := "n4"
  exitShort := "n3"

def risingStrategy : Strategy (Option ℚ) where
  genome := risingGenome
  trial _ := none

def entryLongSignals (results : List (Except Failure (Indicators (Option ℚ)))) :
    List (Option (List Bool)) :=
  results.map fun r => r.toOption.map Indicators.entryLongSignal

/-- The second frame is answered with the series of the first, aligned by time: its new bar has no
signal, which a fresh instance gives. -/
theorem sliding_window_is_stale : Accepted (Option ℚ) risingGenome ∧
    computeAll risingStrategy {} [⟨risingFrame 0, .empty⟩, ⟨risingFrame 1, .empty⟩] ≠
      [risingFrame 0, risingFrame 1].map (freshIndicators risingStrategy) := by
  refine ⟨by decide +kernel, fun h => ?_⟩
  have hsignals := congrArg entryLongSignals h
  revert hsignals
  decide +kernel

/-- The same signals, with a latent node whose model encodes the closes. -/
def encodedStrategy : Strategy (Option ℚ) where
  genome := { risingGenome with nodes := risingGenome.nodes ++ [{ id := "n5", kind := .indLatent }] }
  trial _ := none
  latentModel := some { encode := fun frame => [frame.rows.map Row.close], trainEnd := 0 }

/-- A frame, the same again from the latents that the process kept, and a shorter one. -/
def repeatedCalls : List (Call (Option ℚ)) :=
  let kept : LatentOutputs (Option ℚ) :=
    KeyedCaches.Recent.empty.put 32 (risingFrame 0).barsRange [[some 2, some 2]]
  [⟨risingFrame 0, .empty⟩, ⟨risingFrame 0, kept⟩, ⟨(risingFrame 0).take 1, kept⟩]

theorem repeated_and_resized_frames : computeAll encodedStrategy {} repeatedCalls =
    repeatedCalls.map fun call => freshIndicators encodedStrategy call.frame := by
  have hchain : (repeatedCalls.map Call.frame).IsChain RepeatsOrResizes := by
    refine List.isChain_cons_cons.mpr ⟨fun _ => rfl, List.isChain_cons_cons.mpr ⟨?_, .singleton _⟩⟩
    intro hlen
    exact absurd hlen (by decide)
  refine every_call_is_fresh encodedStrategy _ hchain fun call hcall _ model hmodel latents hkept => ?_
  obtain rfl := Option.some.inj hmodel
  rcases hcall with _ | ⟨_, _ | ⟨_, _ | ⟨_, ⟨⟩⟩⟩⟩
  · cases hkept
  · exact (Option.some.inj hkept).symm
  · cases hkept

end SlidingWindow

end QBackend.GenomeDsl
