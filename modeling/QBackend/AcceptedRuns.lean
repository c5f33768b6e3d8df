import QBackend.AcceptedGenomes

/-!
# Genomes that run

When the evaluation of a genome that the validator accepts raises nothing. The validator knows the
parameters that a node may have; the evaluation looks up those that it must have. An exit policy is
a node with a port, which the validator lets be an input, but no column is written for it. The
strategy that is built reads the literals of an exit rule policy as numbers, which no check asks for.
-/

namespace QBackend.GenomeDsl

open FallibleSteps MemoRuns TopologicalOrder

variable {F : Type} [PriceFloat F]

/-! ## The exit strategy -/

/-- `resolve_exit_params_from_policy`. A reference is not negated. -/
def resolveExitParamsFromPolicy (params : List (String × ParamValue)) (trial : TrialParams)
    (name : String) : Option Value :=
  match params.lookup name with
  | some (.lit value) => some value
  | some (.ref param _) =>
    some ((trial param).getD (((genomeParamBounds.lookup param).map ParamSpec.default).getD (.int 0)))
  | none => (genomeParamBounds.lookup ("exit_" ++ name)).map ParamSpec.default

/-- The parameters that `_refresh_exit_strategy` makes the exit strategy of. -/
def Strategy.exitParams (strategy : Strategy F) (name : String) : Option Value :=
  match strategy.genome.exitRulePolicy.bind ExitRulePolicy.params with
  | some params => resolveExitParamsFromPolicy params strategy.trial name
  | none => strategy.trial name

/-- The parameter that `is_enabled` reads. -/
def Strategy.enableValue (strategy : Strategy F) (rule : ExitRuleInfo) : Value :=
  (strategy.exitParams rule.enableParam).getD (.int 0)

/-- The rules that count bars read an integer. -/
def ExitRuleInfo.countsBars (rule : ExitRuleInfo) : Bool :=
  ["max_bars_in_trade", "donchian_exit_period"].contains rule.enableParam

def Strategy.isEnabled (strategy : Strategy F) (rule : ExitRuleInfo) : Except Failure Bool :=
  if rule.countsBars then do return decide (0 < (← (strategy.enableValue rule).toInt))
  else do
    let value : F ← (strategy.enableValue rule).toFloat
    return PriceFloat.lt (PriceFloat.ofRat 0) value

/-- `ExitStrategy.__init__`: the rules that are on. -/
def Strategy.exitStrategy (strategy : Strategy F) : Except Failure (List ExitRuleInfo) := do
  let rules ← exitRules.mapM fun rule => return (rule, ← strategy.isEnabled rule)
  return (rules.filter Prod.snd).map Prod.fst

/-! ## The condition -/

/-- The columns of truth values. -/
def truthColumns (genome : Genome) : List String :=
  genome.nodes.flatMap fun node =>
    ((nodeSpec node.kind).ports.filter fun port => port.2 = .boolSeries).map fun port =>
      columnName node.id port.1

/-- Nodes that compute with numbers read no truth values, which the validator allows and for which
pandas computes with objects. -/
def TruthKeptApart (genome : Genome) : Prop :=
  ∀ node ∈ genome.nodes, node.kind.family ∉ [NodeFamily.cmp, .logic, .exit] →
    ∀ raw ∈ node.inputs, refColumn raw ∉ truthColumns genome

/-- The columns that a node reads are written by nodes before it, or the node is answered with the
series of a node before it. -/
def ReadsWritten (genome : Genome) (trial : TrialParams) (before : List GenomeNode)
    (node : GenomeNode) : Prop :=
  (∀ raw ∈ node.inputs, refColumn raw ∈ writtenColumns before) ∨
    ∃ earlier ∈ before, cacheKeyOf genome trial earlier = cacheKeyOf genome trial node

/-- The same for a frame that may be empty, with the nodes as they are evaluated. -/
structure Runs (strategy : Strategy F) (frame : Frame F) : Prop where
  holding : HoldingKnown strategy.genome strategy.trial
  computes : ∀ node ∈ strategy.genome.nodes,
    Computes frame (latentsOf strategy frame) node.kind
      (resolveNodeParams strategy.trial node) node.inputs.length
  reads : ∀ before node after, strategy.genome.sortedNodes = before ++ node :: after →
    ReadsWritten strategy.genome strategy.trial before node

/-! ## The columns of a run -/

section Runs

variable {genome : Genome} {trial : TrialParams} {frame : Frame F} {latents : Option (Latents F)}
  {compiled : CompiledNode} {df df' : DataFrame F}

/-- Every column has a value for each row. -/
def SizedColumns (frame : Frame F) (df : DataFrame F) : Prop :=
  ∀ column c, df column = some c → c.length = frame.rows.length

omit [PriceFloat F] in
theorem isSome_foldl_writeColumn (pairs : List (String × Column F)) (df : DataFrame F)
    (column : String) :
    ((pairs.foldl (fun df pair => writeColumn df pair.1 pair.2) df) column).isSome ↔
      (df column).isSome ∨ column ∈ pairs.map Prod.fst := by
  induction pairs generalizing df with
  | nil => simp
  | cons pair pairs ih =>
    rw [List.foldl_cons, ih, List.map_cons, List.mem_cons, ← or_assoc]
    refine or_congr_left ?_
    unfold writeColumn
    by_cases heq : column = pair.1
    · simp [heq]
    · simp [heq]

theorem sizedColumns_foldl_writeColumn {pairs : List (String × Column F)}
    (hpairs : ∀ pair ∈ pairs, pair.2.length = frame.rows.length) (hdf : SizedColumns frame df) :
    SizedColumns frame (pairs.foldl (fun df pair => writeColumn df pair.1 pair.2) df) := by
  induction pairs generalizing df with
  | nil => exact hdf
  | cons pair pairs ih =>
    refine ih (fun p hp => hpairs p (List.mem_cons_of_mem pair hp)) ?_
    intro column c hc
    by_cases heq : column = pair.1
    · subst heq
      have hwritten : some pair.2 = some c := (Function.update_self _ _ df).symm.trans hc
      exact Option.some.inj hwritten ▸ hpairs pair List.mem_cons_self
    · exact hdf column c ((Function.update_of_ne heq _ df).symm.trans hc)

/-! ## Reading -/

omit [PriceFloat F] in
theorem readInputs_succeeds {bindings : List InputBinding} :
    Succeeds (bindings.mapM fun binding => readColumn df binding.column) ↔
      ∀ binding ∈ bindings, (df binding.column).isSome := by
  constructor
  · rintro ⟨inputs, hinputs⟩ binding hbinding
    obtain ⟨c, hc⟩ := exists_ok_of_mapM hinputs hbinding
    rw [readColumn_eq_ok.mp hc]
    rfl
  · intro h
    refine exists_mapM_ok fun binding hbinding => ?_
    obtain ⟨c, hc⟩ := Option.isSome_iff_exists.mp (h binding hbinding)
    exact ⟨c, readColumn_eq_ok.mpr hc⟩

theorem readInputs_sized {bindings : List InputBinding} {inputs : List (Column F)}
    (h : bindings.mapM (fun binding => readColumn df binding.column) = .ok inputs)
    (hdf : SizedColumns frame df) :
    inputs.length = bindings.length ∧ ∀ column ∈ inputs, column.length = frame.rows.length := by
  refine ⟨(forall₂_of_mapM h).length_eq.symm, fun column hcolumn => ?_⟩
  obtain ⟨binding, -, hread⟩ := (mem_of_mapM h).mp hcolumn
  exact hdf _ _ (readColumn_eq_ok.mp hread)

/-! ## One node -/

/-- What a node leaves in the columns. -/
structure Adds (frame : Frame F) (node : GenomeNode) (df df' : DataFrame F) : Prop where
  columns : ∀ column, (df' column).isSome ↔ (df column).isSome ∨
    node.kind.Writes ∧ column ∈ (nodePorts node).map (columnName node.id)
  sized : SizedColumns frame df → SizedColumns frame df'

theorem adds_foldl {node : GenomeNode} (hw : node.kind.Writes) {pairs : List (String × Column F)}
    (hnames : (pairs.map Prod.fst).Perm ((nodePorts node).map (columnName node.id)))
    (hsized : ∀ pair ∈ pairs, pair.2.length = frame.rows.length) (df : DataFrame F) :
    Adds frame node df (pairs.foldl (fun df pair => writeColumn df pair.1 pair.2) df) where
  columns column := by
    rw [isSome_foldl_writeColumn, hnames.mem_iff, and_iff_right hw]
  sized := sizedColumns_foldl_writeColumn hsized

theorem adds_policy {node : GenomeNode} (hw : ¬ node.kind.Writes) (df : DataFrame F) :
    Adds frame node df df where
  columns column := by simp [hw]
  sized hdf := hdf

theorem evaluateNode_adds (hcolumns : compiled.columnByPort = columnByPort compiled.node)
    (hlatents : ∀ l ∈ latents, l.Aligned frame.rows.length) (hdf : SizedColumns frame df)
    (h : evaluateNode frame latents df compiled = .ok df') : Adds frame compiled.node df df' := by
  obtain ⟨inputs, hinputs, h⟩ := bind_eq_ok.mp h
  obtain ⟨outputs, houtputs, h⟩ := bind_eq_ok.mp h
  by_cases hw : compiled.node.kind.Writes
  · have hports := evaluateKind_ports frame latents _ _ inputs hw outputs houtputs
    have hsized := evaluateKind_sized frame (readInputs_sized hinputs hdf).2 hlatents _ _ outputs
      houtputs
    rw [writeOutputs_eq hcolumns fun p hp => hports.mem_iff.mp hp] at h
    obtain rfl := Except.ok.inj h
    refine adds_foldl hw ?_ (fun pair hpair => ?_) df
    · have hmapped := hports.map (columnName compiled.node.id)
      rwa [List.map_map] at hmapped ⊢
    · obtain ⟨output, houtput, rfl⟩ := List.mem_map.mp hpair
      exact hsized output houtput
  · rw [evaluateKind_policy hw] at houtputs
    obtain rfl := Except.ok.inj houtputs
    obtain rfl := Except.ok.inj h
    exact adds_policy hw df

theorem evaluateNode_succeeds (hcolumns : compiled.columnByPort = columnByPort compiled.node)
    (hcount : (nodeSpec compiled.node.kind).minInputs ≤ compiled.inputBindings.length)
    (hdf : SizedColumns frame df) :
    Succeeds (evaluateNode frame latents df compiled) ↔
      (∀ binding ∈ compiled.inputBindings, (df binding.column).isSome) ∧
        Computes frame latents compiled.node.kind compiled.resolvedParams
          compiled.inputBindings.length := by
  unfold evaluateNode
  rw [← readInputs_succeeds]
  refine succeeds_bind_of fun inputs hinputs => ?_
  obtain ⟨hlength, hsized⟩ := readInputs_sized hinputs hdf
  rw [← hlength, ← succeeds_iff_computes frame hsized (hlength ▸ hcount)]
  refine (succeeds_bind_of fun outputs houtputs => iff_true_intro ?_).trans (and_true _).to_iff
  by_cases hw : compiled.node.kind.Writes
  · have hports := evaluateKind_ports frame latents _ _ inputs hw outputs houtputs
    rw [writeOutputs_eq hcolumns fun p hp => hports.mem_iff.mp hp]
    exact succeeds_ok
  · rw [evaluateKind_policy hw] at houtputs
    obtain rfl := Except.ok.inj houtputs
    exact succeeds_ok

theorem restore_pairs {columns : Outputs F} {entries : List (String × String)}
    (h : ∀ entry ∈ entries, ∃ col, columns.lookup entry.1 = some col ∧
      col.length = frame.rows.length) (df : DataFrame F) :
    ∃ pairs : List (String × Column F), entries.foldlM (fun df entry => do
        let column ← getKey columns entry.1
        pure (writeColumn df entry.2 (reindex frame.times frame.times column))) df =
          (.ok (pairs.foldl (fun df pair => writeColumn df pair.1 pair.2) df) :
            Except Failure (DataFrame F)) ∧
      pairs.map Prod.fst = entries.map Prod.snd ∧
      ∀ pair ∈ pairs, pair.2.length = frame.rows.length := by
  induction entries generalizing df with
  | nil => exact ⟨[], rfl, rfl, fun _ h => by cases h⟩
  | cons entry entries ih =>
    obtain ⟨col, hcol, hlen⟩ := h entry List.mem_cons_self
    obtain ⟨pairs, hfold, hnames, hsized⟩ :=
      ih (fun e he => h e (List.mem_cons_of_mem entry he)) (writeColumn df entry.2 col)
    refine ⟨(entry.2, col) :: pairs, ?_, ?_, ?_⟩
    · rw [List.foldlM_cons, getKey_eq_ok.mpr hcol]
      refine bind_eq_ok.mpr ⟨writeColumn df entry.2 col, ?_, hfold⟩
      exact bind_eq_ok.mpr ⟨col, rfl, by rw [reindex_self]; rfl⟩
    · rw [List.map_cons, List.map_cons, hnames]
    · intro pair hpair
      obtain rfl | hpair := List.mem_cons.mp hpair
      · exact hlen
      · exact hsized pair hpair

theorem restoreSeries_adds {columns : Outputs F}
    (hcompiled : compiled.columnByPort = columnByPort compiled.node)
    (hw : compiled.node.kind.Writes)
    (hlook : ∀ port ∈ nodePorts compiled.node, ∃ col, columns.lookup port = some col ∧
      col.length = frame.rows.length) (df : DataFrame F) :
    ∃ df', restoreSeries frame df compiled ⟨frame.times, columns⟩ = .ok df' ∧
      Adds frame compiled.node df df' := by
  have hentries : ∀ entry ∈ compiled.columnByPort, ∃ col, columns.lookup entry.1 = some col ∧
      col.length = frame.rows.length := by
    intro entry hentry
    rw [hcompiled] at hentry
    obtain ⟨port, hport, rfl⟩ := List.mem_map.mp hentry
    exact hlook port.1 (List.mem_map_of_mem hport)
  obtain ⟨pairs, hfold, hnames, hsized⟩ := restore_pairs hentries df
  refine ⟨_, hfold, adds_foldl hw (List.Perm.of_eq ?_) hsized df⟩
  rw [hnames, hcompiled, columnByPort, nodePorts, List.map_map, List.map_map]
  rfl

/-! ## The run over the nodes -/

/-- What the cached run keeps: the columns there are those of the nodes done, what is cached is
the series of one of them, and the requirements of all of them were met. -/
structure Present (frame : Frame F) (latents : Option (Latents F)) (done : List CompiledNode)
    (cache : List (CacheKey × CachedSeries F)) (df : DataFrame F) : Prop where
  columns : ∀ column, (df column).isSome ↔
    column ∈ writtenColumns (done.map CompiledNode.node)
  sized : SizedColumns frame df
  cached : ∀ key series, cache.lookup key = some series → series.times = frame.times ∧
    ∃ c ∈ done, c.cacheKey = key ∧ c.node.kind.Writes ∧
      ∀ port ∈ nodePorts c.node, ∃ col, series.columns.lookup port = some col ∧
        col.length = frame.rows.length
  kept : ∀ c ∈ done, c.node.kind.Writes → ∃ series, cache.lookup c.cacheKey = some series
  met : ∀ c ∈ done, Computes frame latents c.node.kind c.resolvedParams
    c.inputBindings.length

theorem present_start (frame : Frame F) (latents : Option (Latents F)) :
    Present frame latents [] [] fun _ => none where
  columns _ := by simp
  sized _ _ h := by cases h
  cached _ _ h := by cases h
  kept _ h := by cases h
  met _ h := by cases h

/-- The condition of a node after the nodes done. -/
def NodeRuns (frame : Frame F) (latents : Option (Latents F)) (done : List CompiledNode)
    (compiled : CompiledNode) : Prop :=
  Computes frame latents compiled.node.kind compiled.resolvedParams
      compiled.inputBindings.length ∧
    ((∀ binding ∈ compiled.inputBindings,
        binding.column ∈ writtenColumns (done.map CompiledNode.node)) ∨
      ∃ c ∈ done, c.cacheKey = compiled.cacheKey)

theorem compiled_key {id : String} (h : compileById genome trial id = .ok compiled) :
    ∃ keys, compiled.cacheKey = .mk compiled.node.kind compiled.resolvedParams keys ∧
      keys.length = compiled.inputBindings.length := by
  obtain ⟨keys, hkey, hbound, -⟩ := compiled_inputs h
  exact ⟨keys, hkey, hbound.length_eq.symm⟩

theorem sameKey {c : CompiledNode} {id id' : String} (hc : compileById genome trial id = .ok c)
    (h : compileById genome trial id' = .ok compiled) (hkey : c.cacheKey = compiled.cacheKey) :
    c.node.kind = compiled.node.kind ∧ c.resolvedParams = compiled.resolvedParams ∧
      c.inputBindings.length = compiled.inputBindings.length := by
  obtain ⟨keys, hk, hlen⟩ := compiled_key hc
  obtain ⟨keys', hk', hlen'⟩ := compiled_key h
  obtain ⟨hkind, hparams, hkeys⟩ := CacheKey.mk.inj (hk.symm.trans (hkey.trans hk'))
  exact ⟨hkind, hparams, by rw [← hlen, ← hlen', hkeys]⟩

variable {done : List CompiledNode} {cache : List (CacheKey × CachedSeries F)}

theorem Present.snoc (h : Present frame latents done cache df)
    {cache' : List (CacheKey × CachedSeries F)} (hadds : Adds frame compiled.node df df')
    (hcached : ∀ key series, cache'.lookup key = some series → cache.lookup key = some series ∨
      (key = compiled.cacheKey ∧ series.times = frame.times ∧ compiled.node.kind.Writes ∧
        ∀ port ∈ nodePorts compiled.node, ∃ col, series.columns.lookup port = some col ∧
          col.length = frame.rows.length))
    (hext : Extends cache cache')
    (hkept : compiled.node.kind.Writes → ∃ series, cache'.lookup compiled.cacheKey = some series)
    (hmet : Computes frame latents compiled.node.kind compiled.resolvedParams
      compiled.inputBindings.length) :
    Present frame latents (done ++ [compiled]) cache' df' where
  columns column := by
    rw [hadds.columns, h.columns, List.map_append, List.map_singleton, mem_writtenColumns_snoc]
  sized := hadds.sized h.sized
  cached key series hs := by
    obtain hold | ⟨rfl, htimes, hw, hports⟩ := hcached key series hs
    · obtain ⟨htimes, c, hc, hrest⟩ := h.cached key series hold
      exact ⟨htimes, c, List.mem_append_left _ hc, hrest⟩
    · exact ⟨htimes, compiled, List.mem_append_right _ (List.mem_singleton_self _), rfl, hw, hports⟩
  kept c hc hw := by
    obtain hc | hc := List.mem_append.mp hc
    · exact (h.kept c hc hw).imp fun series hs => hext _ _ hs
    · obtain rfl := List.mem_singleton.mp hc
      exact hkept hw
  met c hc := by
    obtain hc | hc := List.mem_append.mp hc
    · exact h.met c hc
    · obtain rfl := List.mem_singleton.mp hc
      exact hmet

theorem Present.restore (h : Present frame latents done cache df)
    (hdone : ∀ c ∈ done, ∃ id, compileById genome trial id = .ok c) {id : String}
    (hcompiled : compileById genome trial id = .ok compiled) {series : CachedSeries F}
    (hl : cache.lookup compiled.cacheKey = some series) :
    NodeRuns frame latents done compiled ∧ ∃ df',
      (nodeMemo frame latents).step cache df compiled = (.ok df', cache) ∧
        Present frame latents (done ++ [compiled]) cache df' := by
  obtain ⟨htimes, c, hc, hkey, hw, hports⟩ := h.cached _ _ hl
  obtain ⟨cid, hcid⟩ := hdone c hc
  obtain ⟨hkind, hparams, hlen⟩ := sameKey hcid hcompiled hkey
  have hmet : Computes frame latents compiled.node.kind compiled.resolvedParams
      compiled.inputBindings.length := by
    rw [← hkind, ← hparams, ← hlen]
    exact h.met c hc
  have hw' : compiled.node.kind.Writes := hkind ▸ hw
  have hlook : ∀ port ∈ nodePorts compiled.node, ∃ col, series.columns.lookup port = some col ∧
      col.length = frame.rows.length := by
    intro port hport
    refine hports port ?_
    unfold nodePorts
    rw [hkind]
    exact hport
  obtain ⟨df', hrestore, hadds⟩ :=
    restoreSeries_adds (compileById_columns hcompiled) hw' hlook df
  refine ⟨⟨hmet, .inr ⟨c, hc, hkey⟩⟩, df', ?_, ?_⟩
  · have hs : series = ⟨frame.times, series.columns⟩ := by rw [← htimes]
    simp only [Memo.step, nodeMemo, hl]
    rw [hs, hrestore]
  · exact h.snoc hadds (fun _ _ hs => .inl hs) (Extends.refl cache) (fun _ => ⟨series, hl⟩) hmet

theorem Present.compute (h : Present frame latents done cache df) {id : String}
    (hcompiled : compileById genome trial id = .ok compiled)
    (hlatents : ∀ l ∈ latents, l.Aligned frame.rows.length)
    (hmet : Computes frame latents compiled.node.kind compiled.resolvedParams
      compiled.inputBindings.length)
    (hl : cache.lookup compiled.cacheKey = none)
    (heval : evaluateNode frame latents df compiled = .ok df') :
    ∃ cache', (nodeMemo frame latents).step cache df compiled = (.ok df', cache') ∧
      Present frame latents (done ++ [compiled]) cache' df' := by
  have hcolumns := compileById_columns hcompiled
  have hadds := evaluateNode_adds hcolumns hlatents h.sized heval
  obtain ⟨keys, hkey, -⟩ := compiled_key hcompiled
  by_cases hw : compiled.node.kind.Writes
  · have hwritten : ∀ port ∈ nodePorts compiled.node,
        ∃ col, df' (columnName compiled.node.id port) = some col := fun port hport =>
      Option.isSome_iff_exists.mp
        ((hadds.columns _).mpr (.inr ⟨hw, List.mem_map_of_mem hport⟩))
    obtain ⟨series, hcapture, htimes, hports⟩ := captureSeries_ok frame hcolumns hwritten
    refine ⟨(compiled.cacheKey, series) :: cache, ?_, h.snoc hadds ?_ (Extends.cons_of_none hl _)
      (fun _ => ⟨series, List.lookup_cons_self⟩) hmet⟩
    · have hk : compiled.cacheKey.keeps = true := by
        rw [hkey]
        exact decide_eq_true hw
      simp only [Memo.step, nodeMemo, hl, heval, hk, hcapture, if_true]
    · intro key s hs
      by_cases hne : key = compiled.cacheKey
      · subst hne
        rw [List.lookup_cons_self] at hs
        obtain rfl := Option.some.inj hs
        refine .inr ⟨rfl, htimes, hw, fun port hport => ?_⟩
        obtain ⟨col, hcol, hdf⟩ := hports port hport
        exact ⟨col, hcol, hadds.sized h.sized _ _ hdf⟩
      · rw [lookup_cons_of_ne _ _ hne] at hs
        exact .inl hs
  · have hk : compiled.cacheKey.keeps = false := by
      rw [hkey]
      exact decide_eq_false hw
    refine ⟨cache, ?_, h.snoc hadds (fun _ _ hs => .inl hs) (Extends.refl cache)
      (fun hw' => absurd hw' hw) hmet⟩
    simp only [Memo.step, nodeMemo, hl, heval, hk, Bool.false_eq_true, if_false]

theorem bindings_length {id : String} (h : compileById genome trial id = .ok compiled) :
    compiled.inputBindings.length = compiled.node.inputs.length := by
  obtain ⟨-, -, -, hports, -⟩ := compiled_inputs h
  have hlength := congrArg List.length hports
  rwa [List.length_map, GenomeNode.inputPorts, List.length_map] at hlength

theorem inputs_of_policy {node : GenomeNode} (hw : ¬ node.kind.Writes)
    (hcount : node.inputs.length ≤ (nodeSpec node.kind).maxInputs) : node.inputs = [] := by
  have hmax : (nodeSpec node.kind).maxInputs = 0 := by
    revert hw
    cases node.kind <;> first | exact fun _ => rfl | exact fun hw => absurd (by decide) hw
  rw [hmax] at hcount
  exact List.eq_nil_of_length_eq_zero (Nat.le_zero.mp hcount)

theorem Memo.computed_of_step {Job Key Val Env ε : Type} [DecidableEq Key]
    {m : Memo Job Key Val Env ε} {cache cache' : List (Key × Val)} {env env' : Env} {job : Job}
    (hl : cache.lookup (m.key job) = none) (h : m.step cache env job = (.ok env', cache')) :
    m.compute env job = .ok env' := by
  rcases m.step_cases cache env job with ⟨v, hv, -⟩ | ⟨-, ⟨e, hs, -⟩ | ⟨env'', hc, -, hs⟩ |
      ⟨env'', v, hc, -, -, hs⟩⟩
  · rw [hl] at hv
    cases hv
  all_goals
    rw [hs] at h
    obtain ⟨henv, -⟩ := Prod.mk.inj h
    cases henv
  · exact hc
  · exact hc

section Advances

variable (hnd : genome.ids.Nodup) (hconnected : ∀ node ∈ genome.nodes, WellConnected genome node)
  (hlatents : ∀ l ∈ latents, l.Aligned frame.rows.length)
  (hdone : ∀ c ∈ done, ∃ id, compileById genome trial id = .ok c) {id : String}
  (hcompiled : compileById genome trial id = .ok compiled)

include hconnected hcompiled in
theorem Present.evaluates (h : Present frame latents done cache df) :
    Succeeds (evaluateNode frame latents df compiled) ↔
      (∀ binding ∈ compiled.inputBindings,
          binding.column ∈ writtenColumns (done.map CompiledNode.node)) ∧
        Computes frame latents compiled.node.kind compiled.resolvedParams
          compiled.inputBindings.length := by
  have harity := (hconnected _ (compileById_id hcompiled).1).arity
  rw [← bindings_length hcompiled] at harity
  rw [evaluateNode_succeeds (compileById_columns hcompiled) harity.1 h.sized]
  simp only [h.columns]

include hconnected hdone hcompiled in
/-- Where the key is not cached no node done has it, unless it is that of an exit policy, which
reads nothing. -/
theorem Present.nodeRuns_iff (h : Present frame latents done cache df)
    (hl : cache.lookup compiled.cacheKey = none) :
    NodeRuns frame latents done compiled ↔
      (∀ binding ∈ compiled.inputBindings,
          binding.column ∈ writtenColumns (done.map CompiledNode.node)) ∧
        Computes frame latents compiled.node.kind compiled.resolvedParams
          compiled.inputBindings.length := by
  refine and_comm.trans (and_congr_left fun _ => or_iff_left_of_imp ?_)
  rintro ⟨c, hc, hkey⟩ binding hbinding
  have harity := (hconnected _ (compileById_id hcompiled).1).arity
  obtain ⟨cid, hcid⟩ := hdone c hc
  have hpolicy : ¬ compiled.node.kind.Writes := by
    intro hw
    obtain ⟨series, hs⟩ := h.kept c hc ((sameKey hcid hcompiled hkey).1 ▸ hw)
    rw [hkey, hl] at hs
    cases hs
  have hnone := bindings_length hcompiled
  rw [inputs_of_policy hpolicy harity.2] at hnone
  rw [List.eq_nil_of_length_eq_zero hnone] at hbinding
  cases hbinding

include hconnected hlatents hdone hcompiled in
theorem advances :
    (nodeMemo frame latents).Advances (Present frame latents) (NodeRuns frame latents) done
      compiled := by
  constructor
  · intro cache df h
    cases hl : cache.lookup compiled.cacheKey with
    | some series =>
      obtain ⟨hruns, df', hstep, -⟩ := h.restore hdone hcompiled hl
      rw [hstep]
      exact iff_of_true succeeds_ok hruns
    | none =>
      rw [h.nodeRuns_iff hconnected hdone hcompiled hl,
        ← h.evaluates hconnected hcompiled]
      constructor
      · rintro ⟨df', hdf⟩
        exact ⟨df', Memo.computed_of_step hl (Prod.ext hdf rfl)⟩
      · rintro ⟨df', heval⟩
        have hmet := ((h.evaluates hconnected hcompiled).mp ⟨df', heval⟩).2
        obtain ⟨cache', hstep, -⟩ := h.compute hcompiled hlatents hmet hl heval
        rw [hstep]
        exact succeeds_ok
  · intro cache df df' cache' h hstep
    cases hl : cache.lookup compiled.cacheKey with
    | some series =>
      obtain ⟨-, df'', hrestored, hpresent⟩ := h.restore hdone hcompiled hl
      obtain ⟨hdf, hcache⟩ := Prod.mk.inj (hrestored.symm.trans hstep)
      obtain rfl := Except.ok.inj hdf
      exact hcache ▸ hpresent
    | none =>
      have heval : evaluateNode frame latents df compiled = .ok df' :=
        Memo.computed_of_step hl hstep
      have hmet := ((h.evaluates hconnected hcompiled).mp ⟨df', heval⟩).2
      obtain ⟨cache'', hcomputed, hpresent⟩ := h.compute hcompiled hlatents hmet hl heval
      obtain ⟨-, hcache⟩ := Prod.mk.inj (hcomputed.symm.trans hstep)
      exact hcache ▸ hpresent

end Advances

/-! ## Nodes of the genome and compiled nodes -/

theorem bindings_columns {id : String} (h : compileById genome trial id = .ok compiled) :
    compiled.inputBindings.map InputBinding.column = compiled.node.inputs.map refColumn := by
  obtain ⟨keys, -, hbound, hports, hids⟩ := compiled_inputs h
  have hcolumn : ∀ binding ∈ compiled.inputBindings,
      binding.column = columnName binding.nodeId binding.port := by
    intro binding hbinding
    obtain ⟨i, hi, rfl⟩ := List.getElem_of_mem hbinding
    exact (hbound.get hi (hbound.length_eq ▸ hi)).column
  calc compiled.inputBindings.map InputBinding.column
      = compiled.inputBindings.map fun binding => columnName binding.nodeId binding.port :=
        List.map_congr_left hcolumn
    _ = List.zipWith columnName (compiled.inputBindings.map InputBinding.nodeId)
          (compiled.inputBindings.map InputBinding.port) := by
        rw [List.zipWith_map, List.zipWith_self]
    _ = compiled.node.inputs.map refColumn := by
        rw [hports, hids, GenomeNode.parents, GenomeNode.inputPorts, List.zipWith_map,
          List.zipWith_self]
        rfl

theorem cacheKeyOf_node {id : String} (h : compileById genome trial id = .ok compiled) :
    cacheKeyOf genome trial compiled.node = some compiled.cacheKey := by
  unfold cacheKeyOf
  rw [(compileById_id h).2, h]
  rfl

theorem nodeRuns_node (hdone : ∀ c ∈ done, ∃ id, compileById genome trial id = .ok c) {id : String}
    (hcompiled : compileById genome trial id = .ok compiled) :
    NodeRuns frame latents done compiled ↔
      Computes frame latents compiled.node.kind (resolveNodeParams trial compiled.node)
          compiled.node.inputs.length ∧
        ReadsWritten genome trial (done.map CompiledNode.node) compiled.node := by
  obtain ⟨fuel, -, hfrom⟩ := compileById_spec hcompiled
  have hreads : (∀ binding ∈ compiled.inputBindings,
        binding.column ∈ writtenColumns (done.map CompiledNode.node)) ↔
      ∀ raw ∈ compiled.node.inputs,
        refColumn raw ∈ writtenColumns (done.map CompiledNode.node) := by
    rw [← List.forall_mem_map (f := InputBinding.column), bindings_columns hcompiled,
      List.forall_mem_map]
  have hkeys : (∃ c ∈ done, c.cacheKey = compiled.cacheKey) ↔
      ∃ earlier ∈ done.map CompiledNode.node,
        cacheKeyOf genome trial earlier = cacheKeyOf genome trial compiled.node := by
    simp only [List.mem_map, exists_exists_and_eq_and]
    refine exists_congr fun c => and_congr_right fun hc => ?_
    obtain ⟨cid, hcid⟩ := hdone c hc
    rw [cacheKeyOf_node hcid, cacheKeyOf_node hcompiled, Option.some.injEq]
  unfold NodeRuns ReadsWritten
  rw [hreads, hkeys, hfrom.params, bindings_length hcompiled]

end Runs

/-! ## Whole strategies -/

section Strategies

variable {strategy : Strategy F} {frame : Frame F} {plan : ExecutionPlan}

theorem Accepted.plan_eq (h : Accepted F strategy.genome) :
    strategy.plan = compilePlan strategy.genome strategy.trial := by
  have hvalid : validateGenome F strategy.genome defaultMaxDepth defaultMaxNodeCount = .ok () := h
  unfold Strategy.plan compileGenome
  rw [hvalid]
  rfl

theorem plan_nodes_of {genome : Genome} {trial : TrialParams}
    (hplan : compilePlan genome trial = .ok plan) :
    plan.sortedNodes.map CompiledNode.node = genome.sortedNodes := by
  have hall := compilePlan_sortedNodes hplan
  unfold Genome.sortedNodes
  generalize kahn genome.ids genome.parents = ids at hall
  generalize plan.sortedNodes = nodes at hall
  induction hall with
  | nil => rfl
  | cons hcompiled _ ih =>
    obtain ⟨fuel, -, hfrom⟩ := compileById_spec hcompiled
    rw [List.map_cons, List.filterMap_cons_some hfrom.node, ih]

theorem readExitSignal_succeeds {df : DataFrame F} {column : Option String}
    (h : ∀ c ∈ column, (df c).isSome) : Succeeds (readExitSignal df column) := by
  cases column with
  | none => exact succeeds_ok
  | some column =>
    obtain ⟨c, hc⟩ := Option.isSome_iff_exists.mp (h column rfl)
    unfold readExitSignal readSignal
    simp only [readColumn_eq_ok.mpr hc]
    exact succeeds_ok

theorem assembleSignals_succeeds {columns : List String} {df : DataFrame F}
    (hreads : plan.ReadsFrom columns) (hdf : ∀ column ∈ columns, (df column).isSome) :
    Succeeds (assembleSignals plan df) := by
  obtain ⟨entryLong, hentryLong⟩ :=
    Option.isSome_iff_exists.mp (hdf _ hreads.entryLong)
  obtain ⟨entryShort, hentryShort⟩ :=
    Option.isSome_iff_exists.mp (hdf _ hreads.entryShort)
  have hexit : ∀ exit : ResolvedExit, exit.ReadsFrom columns →
      Succeeds (readExitSignal df exit.column) := fun exit h =>
    readExitSignal_succeeds fun c hc => hdf c (h.column c hc)
  have hband : ∀ pair ∈ plan.exitLong.middleColumns,
      Succeeds (readExitSignal df (some pair.1)) ∧ Succeeds (readExitSignal df (some pair.2)) := by
    intro pair hpair
    obtain ⟨hlong, hshort⟩ := hreads.exitLong.middle pair hpair
    exact ⟨readExitSignal_succeeds fun c hc => Option.some.inj hc ▸ hdf _ hlong,
      readExitSignal_succeeds fun c hc => Option.some.inj hc ▸ hdf _ hshort⟩
  unfold assembleSignals
  refine succeeds_bind.mpr ⟨entryLong.signals, ?_, succeeds_bind.mpr ⟨entryShort.signals, ?_, ?_⟩⟩
  · exact bind_of_ok (readColumn_eq_ok.mpr hentryLong) rfl
  · exact bind_of_ok (readColumn_eq_ok.mpr hentryShort) rfl
  split
  next long short _ hmiddle =>
    obtain ⟨⟨exitLong, hlong⟩, exitShort, hshort⟩ := hband (long, short) hmiddle
    exact ⟨_, bind_of_ok hlong (bind_of_ok hshort rfl)⟩
  · obtain ⟨exitLong, hlong⟩ := hexit plan.exitLong hreads.exitLong
    obtain ⟨exitShort, hshort⟩ := hexit plan.exitShort hreads.exitShort
    exact ⟨_, bind_of_ok hlong (bind_of_ok hshort rfl)⟩

theorem exists_compiled {genome : Genome} {trial : TrialParams}
    (hplan : compilePlan genome trial = .ok plan) :
    ∀ c ∈ plan.sortedNodes, ∃ id, compileById genome trial id = .ok c := by
  intro c hc
  obtain ⟨i, hi, rfl⟩ := List.getElem_of_mem hc
  have hall := compilePlan_sortedNodes hplan
  exact ⟨_, hall.get (hall.length_eq ▸ hi) hi⟩

theorem freshIndicators_succeeds (haccepted : Accepted F strategy.genome)
    (hlatents : ∀ l ∈ latentsOf strategy frame, l.Aligned frame.rows.length)
    (hplan : strategy.plan = .ok plan) :
    Succeeds (freshIndicators strategy frame) ↔
      ∀ before compiled after, plan.sortedNodes = before ++ compiled :: after →
        NodeRuns frame (latentsOf strategy frame) before compiled := by
  have hcompile := compilePlan_of_plan hplan
  have hcompiled := exists_compiled hcompile
  have hadvances : ∀ before compiled after, plan.sortedNodes = before ++ compiled :: after →
      (nodeMemo frame (latentsOf strategy frame)).Advances
        (Present frame (latentsOf strategy frame)) (NodeRuns frame (latentsOf strategy frame))
        ([] ++ before) compiled := by
    intro before compiled after hsplit
    obtain ⟨id, hid⟩ := hcompiled compiled (by simp [hsplit])
    exact advances (fun node hn => (validateNode_ok (haccepted.node hn)).2.2) hlatents
      (fun c hc => hcompiled c (by rw [hsplit]; exact List.mem_append_left _ hc)) hid
  obtain ⟨hrun, hend⟩ :=
    Memo.run_succeeds hadvances (present_start frame (latentsOf strategy frame))
  simp only [List.nil_append] at hrun hend
  rw [freshIndicators_eq frame hplan, ← hrun]
  refine (succeeds_bind_of (P := True) fun df hdf => iff_true_intro ?_).trans (and_true _).to_iff
  obtain ⟨cache, hpresent⟩ := hend df hdf
  refine assembleSignals_succeeds (haccepted.plan_readsFrom hcompile) fun column hcolumn => ?_
  rw [hpresent.columns, plan_nodes_of hcompile]
  exact hcolumn

theorem Accepted.runs_iff (haccepted : Accepted F strategy.genome)
    (hlatents : ∀ l ∈ latentsOf strategy frame, l.Aligned frame.rows.length) :
    Succeeds strategy.plan ∧ Succeeds (freshIndicators strategy frame) ↔
      Runs strategy frame := by
  have hholding : Succeeds strategy.plan ↔ HoldingKnown strategy.genome strategy.trial := by
    rw [haccepted.plan_eq]
    exact haccepted.compilePlan_succeeds
  suffices hnodes : ∀ plan, strategy.plan = .ok plan → (Succeeds (freshIndicators strategy frame) ↔
      (∀ node ∈ strategy.genome.nodes, Computes frame (latentsOf strategy frame) node.kind
        (resolveNodeParams strategy.trial node) node.inputs.length) ∧
      ∀ before node after, strategy.genome.sortedNodes = before ++ node :: after →
        ReadsWritten strategy.genome strategy.trial before node) by
    constructor
    · rintro ⟨⟨plan, hplan⟩, hruns⟩
      obtain ⟨hcomputes, hreads⟩ := (hnodes plan hplan).mp hruns
      exact ⟨hholding.mp ⟨plan, hplan⟩, hcomputes, hreads⟩
    · intro h
      obtain ⟨plan, hplan⟩ := hholding.mpr h.holding
      exact ⟨⟨plan, hplan⟩, (hnodes plan hplan).mpr ⟨h.computes, h.reads⟩⟩
  intro plan hplan
  have hcompile := compilePlan_of_plan hplan
  have hmap := plan_nodes_of hcompile
  have hcompiled := exists_compiled hcompile
  have hnode : ∀ before compiled after, plan.sortedNodes = before ++ compiled :: after →
      (NodeRuns frame (latentsOf strategy frame) before compiled ↔ _) :=
    fun before compiled after hsplit => by
      obtain ⟨id, hid⟩ := hcompiled compiled (by simp [hsplit])
      exact nodeRuns_node (fun c hc => hcompiled c (by
        rw [hsplit]
        exact List.mem_append_left _ hc)) hid
  rw [freshIndicators_succeeds haccepted hlatents hplan]
  constructor
  · intro hruns
    refine ⟨fun node hn => ?_, fun before node after hsplit => ?_⟩
    · have hsorted := haccepted.mem_sortedNodes hn
      rw [← hmap] at hsorted
      obtain ⟨compiled, hmem, rfl⟩ := List.mem_map.mp hsorted
      obtain ⟨before, after, hsplit⟩ := List.append_of_mem hmem
      exact ((hnode before compiled after hsplit).mp (hruns before compiled after hsplit)).1
    · rw [← hmap] at hsplit
      obtain ⟨done, rest, hplanned, rfl, hrest⟩ := List.map_eq_append_iff.mp hsplit
      obtain ⟨compiled, later, rfl, rfl, -⟩ := List.map_eq_cons_iff.mp hrest
      exact ((hnode done compiled later hplanned).mp (hruns done compiled later hplanned)).2
  · rintro ⟨hcomputes, hreads⟩ before compiled after hsplit
    refine (hnode before compiled after hsplit).mpr ⟨hcomputes _ ?_, hreads _ _
      (after.map CompiledNode.node) ?_⟩
    · obtain ⟨id, hid⟩ := hcompiled compiled (by simp [hsplit])
      exact (compileById_id hid).1
    · rw [← hmap, hsplit, List.map_append, List.map_cons]

theorem Accepted.minInputs_le {genome : Genome} (h : Accepted F genome) {node : GenomeNode}
    (hn : node ∈ genome.nodes) : (nodeSpec node.kind).minInputs ≤ node.inputs.length :=
  (validateNode_ok (h.node hn)).2.2.arity.1

end Strategies

/-! ## Genomes that are accepted and raise -/

section Raising

/-- Two comparisons with another node or two. -/
def extendedStrategy (extra : List GenomeNode) (exit : String) : Strategy (Option ℚ) where
  genome :=
    { nodes :=
        [{ id := "close", kind := .sourceClose },
          { id := "open", kind := .sourceOpen },
          { id := "up", kind := .cmpGt, inputs := ["close", "open"] },
          { id := "down", kind := .cmpLt, inputs := ["close", "open"] }] ++ extra
      entryLong := "up"
      entryShort := "down"
      exitLong := exit
      exitShort := exit }
  trial _ := none

end Raising

end QBackend.GenomeDsl
