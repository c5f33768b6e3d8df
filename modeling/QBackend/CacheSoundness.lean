import QBackend.EvaluationHistory

/-!
# The cache against direct evaluation

Direct evaluation computes every node from the values of the nodes and ports that it is bound to.
The cache key of a node leaves the ports out, and columns are found by names that can coincide.
Where neither is ambiguous, the columns that a fresh instance computes with its cache are those of
direct evaluation.
-/

namespace QBackend.GenomeDsl

open FallibleSteps MemoRuns TopologicalOrder
open Execution (Time)

section Direct

variable {F : Type} [PriceFloat F]

/-! ## Direct evaluation -/

/-- The values of nodes, by id and port. -/
abbrev Values (F : Type) := String → String → Option (Column F)

def readValue (values : Values F) (binding : InputBinding) : Except Failure (Column F) :=
  match values binding.nodeId binding.port with
  | some c => .ok c
  | none => .error (.keyError binding.column)

/-- A node from the values of its inputs. -/
def evaluateDirect (frame : Frame F) (latents : Option (Latents F)) (values : Values F)
    (compiled : CompiledNode) : Except Failure (Values F) := do
  let inputs ← compiled.inputBindings.mapM (readValue values)
  let outputs ← evaluateKind frame latents compiled.node.kind compiled.resolvedParams inputs
  pure (Function.update values compiled.node.id fun port => outputs.lookup port)

/-- Every node of the plan, in order, without a cache. -/
def directValues (strategy : Strategy F) (frame : Frame F) : Except Failure (Values F) := do
  let plan ← strategy.plan
  plan.sortedNodes.foldlM (evaluateDirect frame (latentsOf strategy frame)) fun _ _ => none

/-- The columns that a fresh instance computes for the frame. -/
def computeColumns (strategy : Strategy F) (frame : Frame F) : Except Failure (DataFrame F) := do
  let plan ← strategy.plan
  (visitNodes strategy frame plan.sortedNodes (CompositeState.prepare {} frame) fun _ => none).1

def nodePorts (node : GenomeNode) : List String := (nodeSpec node.kind).ports.map Prod.fst

/-- The columns of a genome, node by node and port by port. -/
def columnsOf (genome : Genome) (df : DataFrame F) : List (List (Option (Column F))) :=
  genome.nodes.map fun node => (nodePorts node).map fun port => df (columnName node.id port)

def valuesOf (genome : Genome) (values : Values F) : List (List (Option (Column F))) :=
  genome.nodes.map fun node => (nodePorts node).map (values node.id)

/-! ## When names are not ambiguous -/

def GenomeNode.inputPorts (node : GenomeNode) : List String :=
  node.inputs.map fun raw => (parseInputRef raw).2

def cacheKeyOf (genome : Genome) (trial : TrialParams) (node : GenomeNode) : Option CacheKey :=
  (compileById genome trial node.id).toOption.map CompiledNode.cacheKey

/-- Nodes with one cache key read the same ports. -/
def PortsSeparated (genome : Genome) (trial : TrialParams) : Prop :=
  ∀ a ∈ genome.nodes, ∀ b ∈ genome.nodes,
    cacheKeyOf genome trial a = cacheKeyOf genome trial b → a.inputPorts = b.inputPorts

/-- Different ports and nodes have different columns. -/
def ColumnsSeparated (genome : Genome) : Prop :=
  ∀ a ∈ genome.nodes, ∀ b ∈ genome.nodes, ∀ p ∈ nodePorts a, ∀ q ∈ nodePorts b,
    columnName a.id p = columnName b.id q → a.id = b.id ∧ p = q

instance (genome : Genome) (trial : TrialParams) : Decidable (PortsSeparated genome trial) :=
  inferInstanceAs (Decidable (∀ a ∈ genome.nodes, ∀ b ∈ genome.nodes,
    cacheKeyOf genome trial a = cacheKeyOf genome trial b → a.inputPorts = b.inputPorts))

instance (genome : Genome) : Decidable (ColumnsSeparated genome) :=
  inferInstanceAs (Decidable (∀ a ∈ genome.nodes, ∀ b ∈ genome.nodes,
    ∀ p ∈ nodePorts a, ∀ q ∈ nodePorts b,
      columnName a.id p = columnName b.id q → a.id = b.id ∧ p = q))

/-! ## The ports that a node writes -/

/-- What a kind whose series are kept writes. -/
def WritesPorts (kind : NodeKind) (outputs : Outputs F) : Prop :=
  (outputs.map Prod.fst).Perm ((nodeSpec kind).ports.map Prod.fst)

omit [PriceFloat F] in
theorem writesPorts_rfl {kind : NodeKind} {outputs : Outputs F}
    (h : outputs.map Prod.fst = (nodeSpec kind).ports.map Prod.fst) : WritesPorts kind outputs := by
  unfold WritesPorts
  rw [h]

theorem evaluateKind_ports (frame : Frame F) (latents : Option (Latents F)) (kind : NodeKind)
    (params : Params) (inputs : List (Column F))
    (hk : kind.family ≠ .exit ∨ kind = .exitMiddleBand) :
    Returns (evaluateKind frame latents kind params inputs) (WritesPorts kind) := by
  cases kind
  case indTsmom =>
    simp only [evaluateKind, NodeKind.family, evaluateIndicator, evaluateTsmom]
    repeat' refine returns_bind fun _ => ?_
    refine returns_pure ?_
    have hperm : ["momentum", "volatility", "buy_signal", "sell_signal"].Perm
        ["buy_signal", "sell_signal", "momentum", "volatility"] := by decide
    exact hperm
  case indLatent =>
    simp only [evaluateKind, NodeKind.family, evaluateIndicator, evaluateLatent]
    cases latents with
    | none => exact returns_ok (writesPorts_rfl rfl)
    | some l =>
      refine returns_bind fun index => ?_
      split
      · exact returns_pure (writesPorts_rfl rfl)
      · exact returns_error
  case exitOppositeSignal => simp [NodeKind.family] at hk
  case exitFixedHolding => simp [NodeKind.family] at hk
  case exitRebalance => simp [NodeKind.family] at hk
  all_goals
    simp only [evaluateKind, NodeKind.family, evaluateExog, evaluateIndicator, evaluateTrendBlend,
      evaluateTransform, evaluateFeatureNode, evaluateSessionDistance, evaluateBoolNode,
      evaluateLogic, evaluateComparison, evaluateCross, evaluateTouch, evaluateBreakout,
      evaluateMiddleBand]
    repeat' (first | split | refine returns_bind fun _ => ?_)
    all_goals exact returns_ok (writesPorts_rfl rfl)

/-! ## Compiled nodes of a genome -/

theorem mem_nodePorts_of_lookup {node : GenomeNode} {port column : String}
    (h : (columnByPort node).lookup port = some column) :
    port ∈ nodePorts node ∧ column = columnName node.id port := by
  obtain ⟨l₁, l₂, hl, -⟩ := List.lookup_eq_some_iff.mp h
  have hmem : (port, column) ∈ columnByPort node := by
    rw [hl]
    simp
  obtain ⟨entry, hentry, heq⟩ := List.mem_map.mp hmem
  obtain ⟨rfl, rfl⟩ := Prod.mk.inj heq
  exact ⟨List.mem_map_of_mem hentry, rfl⟩

theorem lookup_columnByPort (node : GenomeNode) {port : String} (h : port ∈ nodePorts node) :
    (columnByPort node).lookup port = some (columnName node.id port) := by
  unfold nodePorts at h
  unfold columnByPort
  generalize (nodeSpec node.kind).ports = ports at h ⊢
  induction ports with
  | nil => cases h
  | cons entry entries ih =>
    by_cases heq : port = entry.1
    · subst heq
      exact List.lookup_cons_self
    · rw [List.map_cons, lookup_cons_of_ne _ _ heq]
      refine ih ?_
      rcases List.mem_cons.mp h with h | h
      · exact absurd h heq
      · exact h

/-- The inputs of a compiled node: where they are read and what they are compiled to. -/
structure BoundInput (genome : Genome) (trial : TrialParams) (binding : InputBinding)
    (key : CacheKey) : Prop where
  column : binding.column = columnName binding.nodeId binding.port
  parent : ∃ parent, compileById genome trial binding.nodeId = .ok parent ∧
    parent.cacheKey = key ∧ binding.port ∈ nodePorts parent.node

theorem compiled_inputs {genome : Genome} {trial : TrialParams} {id : String}
    {compiled : CompiledNode} (h : compileById genome trial id = .ok compiled) :
    ∃ keys, compiled.cacheKey = .mk compiled.node.kind compiled.resolvedParams keys ∧
      List.Forall₂ (BoundInput genome trial) compiled.inputBindings keys ∧
      compiled.inputBindings.map InputBinding.port = compiled.node.inputPorts ∧
      compiled.inputBindings.map InputBinding.nodeId = compiled.node.parents := by
  obtain ⟨fuel, hfuel, hfrom⟩ := compileById_spec h
  obtain ⟨parents, hp, hb, hc, hk⟩ := hfrom.inputs
  refine ⟨parents.map CompiledNode.cacheKey, hk, ?_, ?_, ?_⟩
  · clear hk
    generalize compiled.node.inputs = raws at hp hb
    generalize compiled.inputBindings = bindings at hb hc
    induction hp generalizing bindings with
    | nil =>
      cases hb
      exact .nil
    | @cons raw parent raws parents hparent _ ih =>
      cases hb with
      | @cons _ binding _ bindings hbinding hb =>
        cases hc with
        | cons hcolumn hc =>
          have hcompiled : compileById genome trial binding.nodeId = .ok parent := by
            rw [hbinding.1]
            exact compileNode_mono_le (by omega) hparent
          rw [compileById_columns hcompiled] at hcolumn
          obtain ⟨hport, hname⟩ := mem_nodePorts_of_lookup hcolumn
          rw [(compileById_id hcompiled).2] at hname
          exact .cons ⟨hname, parent, hcompiled, rfl, hport⟩ (ih bindings hb hc)
  · clear hp hc hk
    unfold GenomeNode.inputPorts
    generalize compiled.node.inputs = raws at hb ⊢
    generalize compiled.inputBindings = bindings at hb ⊢
    induction hb with
    | nil => rfl
    | cons hbinding _ ih => simp [hbinding.2, ih]
  · clear hp hc hk
    unfold GenomeNode.parents
    generalize compiled.node.inputs = raws at hb ⊢
    generalize compiled.inputBindings = bindings at hb ⊢
    induction hb with
    | nil => rfl
    | cons hbinding _ ih => simp [hbinding.1, ih]

/-! ## Writing a list of columns -/

omit [PriceFloat F] in
/-- Columns written one after another, no two of them the same. -/
theorem foldl_writeColumn {pairs : List (String × Column F)} (hnd : (pairs.map Prod.fst).Nodup)
    (df : DataFrame F) (column : String) :
    (pairs.foldl (fun df pair => writeColumn df pair.1 pair.2) df) column =
      (pairs.lookup column).or (df column) := by
  induction pairs generalizing df with
  | nil => rfl
  | cons pair pairs ih =>
    obtain ⟨hpair, hnd⟩ := List.nodup_cons.mp hnd
    rw [List.foldl_cons, ih hnd]
    by_cases heq : column = pair.1
    · subst heq
      have hnone : pairs.lookup pair.1 = none := by
        rw [List.lookup_eq_none_iff]
        intro p hp
        have hne : pair.1 ≠ p.1 := fun h => hpair (h ▸ List.mem_map_of_mem hp)
        simpa using hne
      have hself : (pair :: pairs).lookup pair.1 = some pair.2 := List.lookup_cons_self
      rw [hnone, hself]
      simp [writeColumn]
    · have hskip : (pair :: pairs).lookup column = pairs.lookup column :=
        lookup_cons_of_ne pair.2 pairs heq
      rw [hskip, writeColumn, Function.update_of_ne heq]

omit [PriceFloat F] in
theorem lookup_map_key {f : String → String} {entries : Outputs F} {key : String}
    (hf : ∀ entry ∈ entries, f entry.1 = f key → entry.1 = key) :
    (entries.map fun entry => (f entry.1, entry.2)).lookup (f key) = entries.lookup key := by
  induction entries with
  | nil => rfl
  | cons entry entries ih =>
    rw [List.map_cons]
    by_cases heq : entry.1 = key
    · subst heq
      have hself : (entry :: entries).lookup entry.1 = some entry.2 := List.lookup_cons_self
      rw [List.lookup_cons_self, hself]
    · have hne : f key ≠ f entry.1 := fun h => heq (hf entry (by simp) h.symm)
      have hskip : (entry :: entries).lookup key = entries.lookup key :=
        lookup_cons_of_ne entry.2 entries (Ne.symm heq)
      rw [lookup_cons_of_ne entry.2 _ hne, hskip]
      exact ih fun e he => hf e (List.mem_cons_of_mem entry he)

/-- What the columns are after a node has written its ports. -/
structure Wrote (node : GenomeNode) (outputs : Outputs F) (df df' : DataFrame F) : Prop where
  ports : ∀ port ∈ nodePorts node, df' (columnName node.id port) =
    (outputs.lookup port).or (df (columnName node.id port))
  others : ∀ column, (∀ port ∈ nodePorts node, column ≠ columnName node.id port) →
    df' column = df column

omit [PriceFloat F] in
theorem wrote_foldl {node : GenomeNode} {outputs : Outputs F}
    (hinj : ∀ p ∈ nodePorts node, ∀ q ∈ nodePorts node,
      columnName node.id p = columnName node.id q → p = q)
    (hports : ∀ p ∈ outputs.map Prod.fst, p ∈ nodePorts node)
    (hnd : (outputs.map Prod.fst).Nodup) (df : DataFrame F) :
    Wrote node outputs df ((outputs.map fun o => (columnName node.id o.1, o.2)).foldl
      (fun df pair => writeColumn df pair.1 pair.2) df) := by
  have hmem : ∀ o ∈ outputs, o.1 ∈ nodePorts node := fun o ho =>
    hports o.1 (List.mem_map_of_mem ho)
  have hcolumns : ((outputs.map fun o => (columnName node.id o.1, o.2)).map Prod.fst).Nodup := by
    have hmap : (outputs.map fun o => (columnName node.id o.1, o.2)).map Prod.fst =
        (outputs.map Prod.fst).map (columnName node.id) := by
      simp only [List.map_map]
      rfl
    rw [hmap]
    exact List.Nodup.map_on (fun p hp q hq => hinj p (hports p hp) q (hports q hq)) hnd
  constructor
  · intro port hport
    rw [foldl_writeColumn hcolumns, lookup_map_key fun o ho => hinj o.1 (hmem o ho) port hport]
  · intro column hcolumn
    rw [foldl_writeColumn hcolumns]
    have hnone : (outputs.map fun o => (columnName node.id o.1, o.2)).lookup column = none := by
      rw [List.lookup_eq_none_iff]
      intro pair hpair
      obtain ⟨o, ho, rfl⟩ := List.mem_map.mp hpair
      simpa using hcolumn o.1 (hmem o ho)
    rw [hnone]
    rfl

omit [PriceFloat F] in
theorem writeOutputs_eq {compiled : CompiledNode} {outputs : Outputs F} {df : DataFrame F}
    (hcols : compiled.columnByPort = columnByPort compiled.node)
    (hports : ∀ p ∈ outputs.map Prod.fst, p ∈ nodePorts compiled.node) :
    writeOutputs compiled df outputs =
      .ok ((outputs.map fun o => (columnName compiled.node.id o.1, o.2)).foldl
        (fun df pair => writeColumn df pair.1 pair.2) df) := by
  unfold writeOutputs
  induction outputs generalizing df with
  | nil => rfl
  | cons output outputs ih =>
    have hkey : getKey compiled.columnByPort output.1 =
        .ok (columnName compiled.node.id output.1) := by
      rw [hcols, getKey_eq_ok]
      have hport := hports output.1 (by simp)
      have hlook := lookup_columnByPort compiled.node hport
      exact hlook
    rw [List.foldlM_cons, hkey]
    exact ih fun p hp => hports p (by simp only [List.map_cons, List.mem_cons]; exact .inr hp)

/-! ## The two runs side by side -/

section Tracks

variable {genome : Genome} {trial : TrialParams} {frame : Frame F} {latents : Option (Latents F)}

/-- The cached run and the direct one after the nodes `done`: the columns are the values, what is
cached are values, and nodes with one key have the same values. -/
structure Tracks (genome : Genome) (frame : Frame F) (latents : Option (Latents F))
    (done : List CompiledNode) (cache : List (CacheKey × CachedSeries F)) (df : DataFrame F)
    (values : Values F) : Prop where
  agree : ∀ node ∈ genome.nodes, ∀ port ∈ nodePorts node,
    df (columnName node.id port) = values node.id port
  cached : ∀ key series, cache.lookup key = some series → ∃ c ∈ done, c.cacheKey = key ∧
    series.times = frame.times ∧
    ∀ port ∈ nodePorts c.node, ∃ col, series.columns.lookup port = some col ∧
      values c.node.id port = some col
  sameKey : ∀ a ∈ done, ∀ b ∈ done, a.cacheKey = b.cacheKey →
    values a.node.id = values b.node.id
  evaluated : ∀ c ∈ done, ∃ inputs outputs, c.inputBindings.mapM (readValue values) = .ok inputs ∧
    evaluateKind frame latents c.node.kind c.resolvedParams inputs = .ok outputs ∧
    values c.node.id = fun port => outputs.lookup port
  fresh : ∀ id, (∀ c ∈ done, c.node.id ≠ id) → values id = fun _ => none

theorem tracks_start (genome : Genome) (frame : Frame F) (latents : Option (Latents F)) :
    Tracks genome frame latents [] [] (fun _ => none) (fun _ _ => none) where
  agree _ _ _ _ := rfl
  cached _ _ h := by cases h
  sameKey _ h := by cases h
  evaluated _ h := by cases h
  fresh _ _ := rfl

omit [PriceFloat F] in
theorem readValue_congr {values values' : Values F} {binding : InputBinding}
    (h : values binding.nodeId = values' binding.nodeId) :
    readValue values binding = readValue values' binding := by
  simp only [readValue, h]

omit [PriceFloat F] in
theorem readInputs_congr {values values' : Values F} {bindings : List InputBinding}
    (h : ∀ b ∈ bindings, values b.nodeId = values' b.nodeId) :
    bindings.mapM (readValue values) = bindings.mapM (readValue values') := by
  induction bindings with
  | nil => rfl
  | cons b bindings ih =>
    rw [List.mapM_cons, List.mapM_cons, readValue_congr (h b (by simp)),
      ih fun b' hb' => h b' (List.mem_cons_of_mem b hb')]

omit [PriceFloat F] in
/-- The inputs read from columns are those read from values. -/
theorem readInputs_eq {df : DataFrame F} {values : Values F} {compiled : CompiledNode}
    {id : String} (hc : compileById genome trial id = .ok compiled)
    (hagree : ∀ node ∈ genome.nodes, ∀ port ∈ nodePorts node,
      df (columnName node.id port) = values node.id port) :
    compiled.inputBindings.mapM (fun b => readColumn df b.column) =
      compiled.inputBindings.mapM (readValue values) := by
  obtain ⟨keys, -, hbound, -, -⟩ := compiled_inputs hc
  generalize compiled.inputBindings = bindings at hbound ⊢
  induction hbound with
  | nil => rfl
  | @cons b key bindings keys hb _ ih =>
    obtain ⟨parent, hparent, -, hport⟩ := hb.parent
    obtain ⟨hmem, hid⟩ := compileById_id hparent
    have hread : readColumn df b.column = readValue values b := by
      have hvalue := hagree parent.node hmem b.port hport
      rw [hid] at hvalue
      cases hv : values b.nodeId b.port with
      | none => simp [readColumn, readValue, hb.column, hvalue, hv]
      | some value => simp [readColumn, readValue, hb.column, hvalue, hv]
    rw [List.mapM_cons, List.mapM_cons, hread, ih]

omit [PriceFloat F] in
theorem mapM_readValue_forall₂ {values : Values F} {as bs : List InputBinding}
    (h : List.Forall₂ (fun a b => values a.nodeId = values b.nodeId ∧ a.port = b.port) as bs)
    {inputs : List (Column F)} (hb : bs.mapM (readValue values) = .ok inputs) :
    as.mapM (readValue values) = .ok inputs := by
  refine mapM_eq_ok_of_forall₂ ?_
  have hall := forall₂_of_mapM hb
  clear hb
  induction h generalizing inputs with
  | nil =>
    cases hall
    exact .nil
  | @cons a b as bs hab _ ih =>
    cases hall with
    | @cons _ c _ inputs hc hall =>
      refine .cons ?_ (ih hall)
      have hval : values b.nodeId b.port = some c := by
        unfold readValue at hc
        cases hv : values b.nodeId b.port with
        | none => simp [hv] at hc
        | some d => simpa [hv] using hc
      simp only [readValue, hab.1, hab.2, hval]

theorem inputs_of_sameKey {done : List CompiledNode} {cache : List (CacheKey × CachedSeries F)}
    {df : DataFrame F} {values : Values F} (ht : Tracks genome frame latents done cache df values)
    (hports : PortsSeparated genome trial)
    (hdone : ∀ c ∈ done, ∃ id, compileById genome trial id = .ok c)
    {m n : CompiledNode} {id : String} (hm : compileById genome trial id = .ok m)
    (hparents : ∀ p ∈ m.node.parents, ∃ c ∈ done, c.node.id = p)
    (hn : n ∈ done) (hkey : m.cacheKey = n.cacheKey) {inputs : List (Column F)}
    (hread : n.inputBindings.mapM (readValue values) = .ok inputs)
    (hnparents : ∀ p ∈ n.node.parents, ∃ c ∈ done, c.node.id = p) :
    m.inputBindings.mapM (readValue values) = .ok inputs := by
  obtain ⟨idn, hcn⟩ := hdone n hn
  obtain ⟨hmmem, hmid⟩ := compileById_id hm
  obtain ⟨hnmem, hnid⟩ := compileById_id hcn
  obtain ⟨mkeys, hmk, hmb, hmports, hmpar⟩ := compiled_inputs hm
  obtain ⟨nkeys, hnk, hnb, hnports, hnpar⟩ := compiled_inputs hcn
  have hkeys : mkeys = nkeys := by
    rw [hmk, hnk] at hkey
    simpa using (CacheKey.mk.inj hkey).2.2
  have hsame : m.inputBindings.map InputBinding.port = n.inputBindings.map InputBinding.port := by
    rw [hmports, hnports]
    refine hports m.node hmmem n.node hnmem ?_
    rw [cacheKeyOf, cacheKeyOf, hmid, hnid, hm, hcn]
    exact congrArg some hkey
  rw [← hmpar] at hparents
  rw [← hnpar] at hnparents
  refine mapM_readValue_forall₂ ?_ hread
  subst hkeys
  clear hread hmk hnk hmports hnports hmpar hnpar
  generalize m.inputBindings = ms at hmb hsame hparents
  generalize n.inputBindings = ns at hnb hsame hnparents
  induction hmb generalizing ns with
  | nil =>
    cases hnb
    exact .nil
  | @cons a key ms keys ha _ ih =>
    cases hnb with
    | @cons b _ ns _ hb hnb =>
      simp only [List.map_cons, List.cons.injEq] at hsame
      obtain ⟨pa, hpa, hka, -⟩ := ha.parent
      obtain ⟨pb, hpb, hkb, -⟩ := hb.parent
      obtain ⟨ca, hca, hida⟩ := hparents a.nodeId (by simp)
      obtain ⟨cb, hcb, hidb⟩ := hnparents b.nodeId (by simp)
      have hpa' : ca = pa := by
        obtain ⟨i, hi⟩ := hdone ca hca
        rw [← (compileById_id hi).2, hida, hpa] at hi
        exact (Except.ok.inj hi).symm
      have hpb' : cb = pb := by
        obtain ⟨i, hi⟩ := hdone cb hcb
        rw [← (compileById_id hi).2, hidb, hpb] at hi
        exact (Except.ok.inj hi).symm
      have hvalues := ht.sameKey ca hca cb hcb (by rw [hpa', hpb', hka, hkb])
      rw [hida, hidb] at hvalues
      refine .cons ⟨hvalues, hsame.1⟩ (ih ?_ ns hnb hsame.2 ?_)
      · exact fun p hp => hparents p (List.mem_cons_of_mem _ hp)
      · exact fun p hp => hnparents p (List.mem_cons_of_mem _ hp)

/-- A place in the order: the nodes before have all their inputs among them, and so has `m`. -/
structure Position (genome : Genome) (trial : TrialParams) (done : List CompiledNode)
    (m : CompiledNode) : Prop where
  before : ∀ c ∈ done, ∃ id, compileById genome trial id = .ok c
  closed : ∀ c ∈ done, ∀ p ∈ c.node.parents, ∃ d ∈ done, d.node.id = p
  compiled : ∃ id, compileById genome trial id = .ok m
  parents : ∀ p ∈ m.node.parents, ∃ d ∈ done, d.node.id = p
  fresh : ∀ c ∈ done, c.node.id ≠ m.node.id

variable {done : List CompiledNode} {cache cache' : List (CacheKey × CachedSeries F)}
  {df df' : DataFrame F} {values : Values F} {m : CompiledNode}

omit [PriceFloat F] in
theorem bindings_ne_of_parents {c : CompiledNode} {id : String}
    (hc : ∃ i, compileById genome trial i = .ok c)
    (hparents : ∀ p ∈ c.node.parents, ∃ d ∈ done, d.node.id = p)
    (hfresh : ∀ d ∈ done, d.node.id ≠ id) : ∀ b ∈ c.inputBindings, b.nodeId ≠ id := by
  intro b hb
  obtain ⟨i, hi⟩ := hc
  obtain ⟨-, -, -, -, hpar⟩ := compiled_inputs hi
  obtain ⟨d, hd, hid⟩ := hparents b.nodeId (by rw [← hpar]; exact List.mem_map_of_mem hb)
  rw [← hid]
  exact hfresh d hd

/-- A node that was evaluated under the key of `m` had the inputs of `m`. -/
theorem Tracks.outputs_of_sameKey (ht : Tracks genome frame latents done cache df values)
    (hpos : Position genome trial done m) (hports : PortsSeparated genome trial) {a : CompiledNode}
    (ha : a ∈ done) (hkey : a.cacheKey = m.cacheKey) :
    a.node.kind = m.node.kind ∧ ∃ inputs outputs,
      m.inputBindings.mapM (readValue values) = .ok inputs ∧
      evaluateKind frame latents m.node.kind m.resolvedParams inputs = .ok outputs ∧
      values a.node.id = fun port => outputs.lookup port := by
  obtain ⟨id, hm⟩ := hpos.compiled
  obtain ⟨inputs, outputs, hins, houts, hvals⟩ := ht.evaluated a ha
  have hread := inputs_of_sameKey ht hports hpos.before hm hpos.parents ha hkey.symm hins
    (hpos.closed a ha)
  obtain ⟨ia, hia⟩ := hpos.before a ha
  obtain ⟨akeys, hak, -, -, -⟩ := compiled_inputs hia
  obtain ⟨mkeys, hmk, -, -, -⟩ := compiled_inputs hm
  rw [hak, hmk] at hkey
  obtain ⟨hkind, hparams, -⟩ := CacheKey.mk.inj hkey
  rw [hkind, hparams] at houts
  exact ⟨hkind, inputs, outputs, hread, houts, hvals⟩

/-- Both runs after `m`, when its inputs were there and it was evaluated. -/
theorem Tracks.extend (ht : Tracks genome frame latents done cache df values)
    (hpos : Position genome trial done m) (hnd : genome.ids.Nodup)
    (hports : PortsSeparated genome trial) (hcols : ColumnsSeparated genome)
    {inputs : List (Column F)} {outputs : Outputs F}
    (hread : m.inputBindings.mapM (readValue values) = .ok inputs)
    (heval : evaluateKind frame latents m.node.kind m.resolvedParams inputs = .ok outputs)
    (hwrote : Wrote m.node outputs df df')
    (hcache : ∀ key series, cache'.lookup key = some series → cache.lookup key = some series ∨
      (key = m.cacheKey ∧ series.times = frame.times ∧
        ∀ port ∈ nodePorts m.node, ∃ col, series.columns.lookup port = some col ∧
          outputs.lookup port = some col)) :
    Tracks genome frame latents (done ++ [m]) cache' df'
      (Function.update values m.node.id fun port => outputs.lookup port) := by
  obtain ⟨id, hm⟩ := hpos.compiled
  have hmmem := (compileById_id hm).1
  have hself : Function.update values m.node.id (fun port => outputs.lookup port) m.node.id =
      fun port => outputs.lookup port := Function.update_self _ _ _
  have hold : ∀ c ∈ done,
      Function.update values m.node.id (fun port => outputs.lookup port) c.node.id =
        values c.node.id := fun c hc => Function.update_of_ne (hpos.fresh c hc) _ _
  have hreads : ∀ c : CompiledNode, (∃ i, compileById genome trial i = .ok c) →
      (∀ p ∈ c.node.parents, ∃ d ∈ done, d.node.id = p) →
      c.inputBindings.mapM (readValue
        (Function.update values m.node.id fun port => outputs.lookup port)) =
        c.inputBindings.mapM (readValue values) := fun c hc hp =>
    readInputs_congr fun b hb =>
      Function.update_of_ne (bindings_ne_of_parents hc hp hpos.fresh b hb) _ _
  have hsame : ∀ a ∈ done, a.cacheKey = m.cacheKey →
      values a.node.id = fun port => outputs.lookup port := by
    intro a ha hkey
    obtain ⟨-, ins, outs, hins, houts, hvals⟩ := ht.outputs_of_sameKey hpos hports ha hkey
    obtain rfl := Except.ok.inj (hread.symm.trans hins)
    obtain rfl := Except.ok.inj (heval.symm.trans houts)
    exact hvals
  constructor
  · -- the columns are the values
    intro node hnode port hport
    by_cases hid : node.id = m.node.id
    · have hnm : node = m.node := KeyedTables.eq_of_mem_of_key hnd hnode hmmem hid
      subst hnm
      have hnone : df (columnName m.node.id port) = none := by
        rw [ht.agree m.node hnode port hport, ht.fresh m.node.id hpos.fresh]
      rw [hwrote.ports port hport, hnone, hself]
      exact Option.or_none
    · rw [Function.update_of_ne hid, hwrote.others, ht.agree node hnode port hport]
      intro q hq heq
      exact hid (hcols node hnode m.node hmmem port hport q hq heq).1
  · intro key series hlook
    rcases hcache key series hlook with hlook | ⟨rfl, htimes, hseries⟩
    · obtain ⟨c, hc, hkey, htimes, hseries⟩ := ht.cached key series hlook
      refine ⟨c, List.mem_append_left _ hc, hkey, htimes, fun port hport => ?_⟩
      rw [hold c hc]
      exact hseries port hport
    · refine ⟨m, by simp, rfl, htimes, fun port hport => ?_⟩
      rw [hself]
      exact hseries port hport
  · intro a ha b hb hkey
    rcases List.mem_append.mp ha with ha | ha <;> rcases List.mem_append.mp hb with hb | hb
    · rw [hold a ha, hold b hb]
      exact ht.sameKey a ha b hb hkey
    · rw [List.mem_singleton.mp hb, hold a ha, hself]
      exact hsame a ha (List.mem_singleton.mp hb ▸ hkey)
    · rw [List.mem_singleton.mp ha, hold b hb, hself]
      exact (hsame b hb (List.mem_singleton.mp ha ▸ hkey.symm)).symm
    · rw [List.mem_singleton.mp ha, List.mem_singleton.mp hb]
  · intro c hc
    rcases List.mem_append.mp hc with hc | hc
    · obtain ⟨ins, outs, hins, houts, hvals⟩ := ht.evaluated c hc
      refine ⟨ins, outs, ?_, houts, ?_⟩
      · rw [hreads c (hpos.before c hc) (hpos.closed c hc)]
        exact hins
      · rw [hold c hc]
        exact hvals
    · rw [List.mem_singleton.mp hc]
      refine ⟨inputs, outputs, ?_, heval, hself⟩
      rw [hreads m hpos.compiled hpos.parents]
      exact hread
  · intro i hi
    have hne : i ≠ m.node.id := fun heq => hi m (by simp) heq.symm
    rw [Function.update_of_ne hne]
    exact ht.fresh i fun c hc => hi c (List.mem_append_left _ hc)

theorem columnName_injOn (hcols : ColumnsSeparated genome) {node : GenomeNode}
    (hnode : node ∈ genome.nodes) : ∀ p ∈ nodePorts node, ∀ q ∈ nodePorts node,
      columnName node.id p = columnName node.id q → p = q := fun p hp q hq heq =>
  (hcols node hnode node hnode p hp q hq heq).2

theorem restoreSeries_wrote {columns outputs : Outputs F}
    (hcompiled : m.columnByPort = columnByPort m.node)
    (hinj : ∀ p ∈ nodePorts m.node, ∀ q ∈ nodePorts m.node,
      columnName m.node.id p = columnName m.node.id q → p = q)
    (hlook : ∀ port ∈ nodePorts m.node, ∃ col, columns.lookup port = some col ∧
      outputs.lookup port = some col) (df : DataFrame F) :
    ∃ df', restoreSeries frame df m ⟨frame.times, columns⟩ = .ok df' ∧
      Wrote m.node outputs df df' := by
  let target : DataFrame F := fun column =>
    ((nodePorts m.node).find? fun p => columnName m.node.id p = column).bind fun p =>
      outputs.lookup p
  have htarget : ∀ port ∈ nodePorts m.node,
      target (columnName m.node.id port) = outputs.lookup port := by
    intro port hport
    have hfound : ((nodePorts m.node).find? fun p =>
        columnName m.node.id p = columnName m.node.id port) = some port := by
      cases hf : (nodePorts m.node).find? fun p =>
          columnName m.node.id p = columnName m.node.id port with
      | none =>
        have hnot := List.find?_eq_none.mp hf port hport
        simp at hnot
      | some p =>
        have hp := List.mem_of_find?_eq_some hf
        have hname : columnName m.node.id p = columnName m.node.id port := by
          simpa using List.find?_some hf
        rw [hinj p hp port hport hname]
    simp only [target, hfound, Option.bind_some]
  have hcolumns : ∀ column, column ∈ m.columnByPort.map Prod.snd ↔
      ∃ port ∈ nodePorts m.node, column = columnName m.node.id port := by
    intro column
    simp only [hcompiled, columnByPort, nodePorts, List.map_map, List.mem_map,
      Function.comp_apply]
    constructor
    · rintro ⟨entry, hentry, rfl⟩
      exact ⟨entry.1, ⟨entry, hentry, rfl⟩, rfl⟩
    · rintro ⟨_, ⟨entry, hentry, rfl⟩, rfl⟩
      exact ⟨entry, hentry, rfl⟩
  have hentries : ∀ entry ∈ m.columnByPort,
      ∃ c, columns.lookup entry.1 = some c ∧ target entry.2 = some c := by
    intro entry hentry
    rw [hcompiled] at hentry
    obtain ⟨port, hport, rfl⟩ := List.mem_map.mp hentry
    have hmem : port.1 ∈ nodePorts m.node := List.mem_map_of_mem hport
    obtain ⟨col, hcol, hout⟩ := hlook port.1 hmem
    exact ⟨col, hcol, (htarget port.1 hmem).trans hout⟩
  refine ⟨_, restore_columns hentries, ?_, ?_⟩
  · intro port hport
    obtain ⟨col, -, hout⟩ := hlook port hport
    rw [if_pos ((hcolumns _).mpr ⟨port, hport, rfl⟩), htarget port hport, hout]
    rfl
  · intro column hother
    rw [if_neg fun hmem => ?_]
    obtain ⟨port, hport, rfl⟩ := (hcolumns column).mp hmem
    exact hother port hport rfl

theorem captureSeries_ok (frame : Frame F) (hcompiled : m.columnByPort = columnByPort m.node)
    (hwritten : ∀ port ∈ nodePorts m.node, ∃ col, df' (columnName m.node.id port) = some col) :
    ∃ series, captureSeries frame df' m = .ok series ∧ series.times = frame.times ∧
      ∀ port ∈ nodePorts m.node, ∃ col, series.columns.lookup port = some col ∧
        df' (columnName m.node.id port) = some col := by
  have hreads : ∀ entries : List (String × String),
      (∀ entry ∈ entries, ∃ col, df' entry.2 = some col) →
      ∃ columns, entries.mapM (fun entry => do
        let column ← readColumn df' entry.2
        pure (entry.1, column)) = (.ok columns : Except Failure _) := by
    intro entries
    induction entries with
    | nil => exact fun _ => ⟨[], rfl⟩
    | cons entry entries ih =>
      intro hentries
      obtain ⟨columns, hcolumns⟩ := ih fun e he => hentries e (List.mem_cons_of_mem entry he)
      obtain ⟨col, hcol⟩ := hentries entry (by simp)
      refine ⟨(entry.1, col) :: columns, ?_⟩
      rw [List.mapM_cons, readColumn_eq_ok.mpr hcol, hcolumns]
      rfl
  have hentries : ∀ entry ∈ m.columnByPort, ∃ col, df' entry.2 = some col := by
    intro entry hentry
    rw [hcompiled] at hentry
    obtain ⟨port, hport, rfl⟩ := List.mem_map.mp hentry
    exact hwritten port.1 (List.mem_map_of_mem hport)
  obtain ⟨columns, hcolumns⟩ := hreads m.columnByPort hentries
  have hkept := captured_columns (by rw [hcompiled]; exact columnByPort_ports_nodup m.node) hcolumns
  refine ⟨⟨frame.times, columns⟩, ?_, rfl, fun port hport => ?_⟩
  · unfold captureSeries
    rw [hcolumns]
    rfl
  · have hentry : (port, columnName m.node.id port) ∈ m.columnByPort := by
      rw [hcompiled]
      obtain ⟨entry, hentry, rfl⟩ := List.mem_map.mp hport
      exact List.mem_map.mpr ⟨entry, hentry, rfl⟩
    exact hkept _ hentry

theorem evaluateKind_policy {kind : NodeKind} (h : ¬(kind.family ≠ .exit ∨ kind = .exitMiddleBand))
    (params : Params) (inputs : List (Column F)) :
    evaluateKind frame latents kind params inputs = .ok [] := by
  cases kind <;> first | rfl | exact absurd (by decide) h

theorem evaluateDirect_ok {inputs : List (Column F)} {outputs : Outputs F}
    (hread : m.inputBindings.mapM (readValue values) = .ok inputs)
    (heval : evaluateKind frame latents m.node.kind m.resolvedParams inputs = .ok outputs) :
    evaluateDirect frame latents values m =
      .ok (Function.update values m.node.id fun port => outputs.lookup port) :=
  bind_eq_ok.mpr ⟨inputs, hread, bind_eq_ok.mpr ⟨outputs, heval, rfl⟩⟩

theorem evaluate_error {e : Failure}
    (hreads : m.inputBindings.mapM (fun b => readColumn df b.column) =
      m.inputBindings.mapM (readValue values))
    (h : (m.inputBindings.mapM (readValue values) >>= fun inputs =>
      evaluateKind frame latents m.node.kind m.resolvedParams inputs) = .error e) :
    evaluateNode frame latents df m = .error e ∧
      evaluateDirect frame latents values m = .error e := by
  unfold evaluateNode evaluateDirect
  rw [hreads]
  cases hread : m.inputBindings.mapM (readValue values) with
  | error e' =>
    rw [hread] at h
    cases h
    exact ⟨rfl, rfl⟩
  | ok inputs =>
    rw [hread] at h
    have heval : evaluateKind frame latents m.node.kind m.resolvedParams inputs = .error e := h
    simp only [bind, Except.bind, heval]
    exact ⟨trivial, trivial⟩

theorem evaluateNode_eq {inputs : List (Column F)} {outputs : Outputs F}
    (hreads : m.inputBindings.mapM (fun b => readColumn df b.column) =
      m.inputBindings.mapM (readValue values))
    (hread : m.inputBindings.mapM (readValue values) = .ok inputs)
    (heval : evaluateKind frame latents m.node.kind m.resolvedParams inputs = .ok outputs) :
    evaluateNode frame latents df m = writeOutputs m df outputs := by
  unfold evaluateNode
  rw [hreads, hread]
  simp only [bind, Except.bind, heval]

theorem step_error {e : Failure} (hl : cache.lookup m.cacheKey = none)
    (h : evaluateNode frame latents df m = .error e) :
    ((nodeMemo frame latents).step cache df m).1 = .error e := by
  simp only [Memo.step, nodeMemo, hl, h]

section Steps

variable (ht : Tracks genome frame latents done cache df values)
  (hpos : Position genome trial done m) (hnd : genome.ids.Nodup)
  (hports : PortsSeparated genome trial) (hcols : ColumnsSeparated genome)

include ht hpos hnd hports hcols

/-- The series that an earlier node left: it has the same inputs, so it evaluates to the same. -/
theorem Tracks.hit {series : CachedSeries F} (hl : cache.lookup m.cacheKey = some series) :
    ∃ df' values', (nodeMemo frame latents).step cache df m = (.ok df', cache) ∧
      evaluateDirect frame latents values m = .ok values' ∧
      Tracks genome frame latents (done ++ [m]) cache df' values' := by
  obtain ⟨id, hm⟩ := hpos.compiled
  obtain ⟨c, hc, hkey, htimes, hseries⟩ := ht.cached _ _ hl
  obtain ⟨hkind, ins, outs, hread, houts, hvals⟩ := ht.outputs_of_sameKey hpos hports hc hkey
  have hlook : ∀ port ∈ nodePorts m.node, ∃ col, series.columns.lookup port = some col ∧
      outs.lookup port = some col := by
    intro port hport
    have hport' : port ∈ nodePorts c.node := by
      unfold nodePorts
      rw [hkind]
      exact hport
    obtain ⟨col, hcol, hval⟩ := hseries port hport'
    rw [hvals] at hval
    exact ⟨col, hcol, hval⟩
  obtain ⟨df', hrestore, hwrote⟩ := restoreSeries_wrote (compileById_columns hm)
    (columnName_injOn hcols (compileById_id hm).1) hlook df
  refine ⟨df', _, ?_, evaluateDirect_ok hread houts,
    ht.extend hpos hnd hports hcols hread houts hwrote fun key s hs => .inl hs⟩
  have hs : series = ⟨frame.times, series.columns⟩ := by rw [← htimes]
  simp only [Memo.step, nodeMemo, hl]
  rw [hs, hrestore]

/-- A node that is evaluated and kept. -/
theorem Tracks.kept {inputs : List (Column F)} {outputs : Outputs F} (hl : cache.lookup m.cacheKey = none)
    (hread : m.inputBindings.mapM (readValue values) = .ok inputs)
    (heval : evaluateKind frame latents m.node.kind m.resolvedParams inputs = .ok outputs)
    (hkeeps : m.node.kind.family ≠ .exit ∨ m.node.kind = .exitMiddleBand) :
    ∃ df' cache', (nodeMemo frame latents).step cache df m = (.ok df', cache') ∧
      Tracks genome frame latents (done ++ [m]) cache' df'
        (Function.update values m.node.id fun port => outputs.lookup port) := by
  obtain ⟨id, hm⟩ := hpos.compiled
  have hcompiled := compileById_columns hm
  obtain ⟨mkeys, hmk, -, -, -⟩ := compiled_inputs hm
  have hnode := evaluateNode_eq (readInputs_eq hm ht.agree) hread heval
  have hwrites := evaluateKind_ports frame latents m.node.kind m.resolvedParams inputs
    hkeeps outputs heval
  have hmemports : ∀ p ∈ outputs.map Prod.fst, p ∈ nodePorts m.node := fun p hp =>
    hwrites.mem_iff.mp hp
  have hnodup : (outputs.map Prod.fst).Nodup :=
    hwrites.nodup_iff.mpr (ports_nodup m.node.kind)
  have hwrote := wrote_foldl (columnName_injOn hcols (compileById_id hm).1) hmemports hnodup df
  rw [writeOutputs_eq hcompiled hmemports] at hnode
  generalize hdf' : (outputs.map fun o => (columnName m.node.id o.1, o.2)).foldl
    (fun df pair => writeColumn df pair.1 pair.2) df = df' at hnode hwrote
  have hout : ∀ port ∈ nodePorts m.node, ∃ col, outputs.lookup port = some col ∧
      df' (columnName m.node.id port) = some col := by
    intro port hport
    have hsome : (outputs.lookup port).isSome := by
      rw [List.lookup_isSome_iff]
      obtain ⟨o, ho, rfl⟩ := List.mem_map.mp (hwrites.mem_iff.mpr hport)
      exact ⟨o, ho, by simp⟩
    obtain ⟨col, hcol⟩ := Option.isSome_iff_exists.mp hsome
    exact ⟨col, hcol, by rw [hwrote.ports port hport, hcol]; rfl⟩
  obtain ⟨series, hcapture, htimes, hseries⟩ := captureSeries_ok frame
    hcompiled fun port hport => (hout port hport).imp fun _ h => h.2
  refine ⟨df', (m.cacheKey, series) :: cache, ?_,
    ht.extend hpos hnd hports hcols hread heval hwrote ?_⟩
  · have hk : m.cacheKey.keeps = true := by
      rw [hmk]
      exact decide_eq_true hkeeps
    simp only [Memo.step, nodeMemo, hl, hnode, hk, hcapture, if_true]
  · intro key s hs
    by_cases hkey : key = m.cacheKey
    · subst hkey
      rw [List.lookup_cons_self] at hs
      obtain rfl := Option.some.inj hs
      refine .inr ⟨rfl, htimes, fun port hport => ?_⟩
      obtain ⟨col, hcol, hread'⟩ := hseries port hport
      obtain ⟨col', hcol', hdf⟩ := hout port hport
      rw [hread'] at hdf
      obtain rfl := Option.some.inj hdf
      exact ⟨col, hcol, hcol'⟩
    · exact .inl (by rwa [lookup_cons_of_ne _ _ hkey] at hs)

/-- An exit policy writes nothing and is not kept. -/
theorem Tracks.policy {inputs : List (Column F)} {outputs : Outputs F} (hl : cache.lookup m.cacheKey = none)
    (hread : m.inputBindings.mapM (readValue values) = .ok inputs)
    (heval : evaluateKind frame latents m.node.kind m.resolvedParams inputs = .ok outputs)
    (hkeeps : ¬(m.node.kind.family ≠ .exit ∨ m.node.kind = .exitMiddleBand)) :
    (nodeMemo frame latents).step cache df m = (.ok df, cache) ∧
      Tracks genome frame latents (done ++ [m]) cache df
        (Function.update values m.node.id fun port => outputs.lookup port) := by
  obtain ⟨id, hm⟩ := hpos.compiled
  obtain ⟨mkeys, hmk, -, -, -⟩ := compiled_inputs hm
  have hnode := evaluateNode_eq (readInputs_eq hm ht.agree) hread heval
  have hnil : outputs = [] := by
    rw [evaluateKind_policy hkeeps] at heval
    exact (Except.ok.inj heval).symm
  subst hnil
  have hwrote : Wrote m.node ([] : Outputs F) df df := ⟨fun _ _ => rfl, fun _ _ => rfl⟩
  refine ⟨?_, ht.extend hpos hnd hports hcols hread heval hwrote fun key s hs => .inl hs⟩
  have hk : m.cacheKey.keeps = false := by
    rw [hmk]
    exact decide_eq_false hkeeps
  have hwrite : evaluateNode frame latents df m = .ok df := hnode
  simp only [Memo.step, nodeMemo, hl, hwrite, hk, Bool.false_eq_true, if_false]

theorem Tracks.step :
    (∃ e, ((nodeMemo frame latents).step cache df m).1 = .error e ∧
        evaluateDirect frame latents values m = .error e) ∨
      ∃ df' cache' values', (nodeMemo frame latents).step cache df m = (.ok df', cache') ∧
        evaluateDirect frame latents values m = .ok values' ∧
        Tracks genome frame latents (done ++ [m]) cache' df' values' := by
  cases hl : cache.lookup m.cacheKey with
  | some series =>
    obtain ⟨df', values', h⟩ := ht.hit hpos hnd hports hcols hl
    exact .inr ⟨df', cache, values', h⟩
  | none =>
    cases hboth : m.inputBindings.mapM (readValue values) >>= fun inputs =>
        evaluateKind frame latents m.node.kind m.resolvedParams inputs with
    | error e =>
      obtain ⟨id, hm⟩ := hpos.compiled
      obtain ⟨hnode, hdirect⟩ := evaluate_error (readInputs_eq hm ht.agree) hboth
      exact .inl ⟨e, step_error hl hnode, hdirect⟩
    | ok outputs =>
      obtain ⟨inputs, hread, heval⟩ := bind_eq_ok.mp hboth
      have hdirect := evaluateDirect_ok hread heval
      by_cases hkeeps : m.node.kind.family ≠ .exit ∨ m.node.kind = .exitMiddleBand
      · obtain ⟨df', cache', hstep, htracks⟩ := ht.kept hpos hnd hports hcols hl hread heval hkeeps
        exact .inr ⟨df', cache', _, hstep, hdirect, htracks⟩
      · obtain ⟨hstep, htracks⟩ := ht.policy hpos hnd hports hcols hl hread heval hkeeps
        exact .inr ⟨df, cache, _, hstep, hdirect, htracks⟩

end Steps

/-- The results of the two runs: the same exception, or the same columns. -/
def Agrees (genome : Genome) : Except Failure (DataFrame F) → Except Failure (Values F) → Prop
  | .ok df, .ok values => ∀ node ∈ genome.nodes, ∀ port ∈ nodePorts node,
      df (columnName node.id port) = values node.id port
  | .error e, .error e' => e = e'
  | _, _ => False

/-- An order of compiled nodes in which each has its inputs before it, and no id comes twice. -/
structure WellOrdered (genome : Genome) (trial : TrialParams) (nodes : List CompiledNode) : Prop
    where
  compiled : ∀ c ∈ nodes, ∃ id, compileById genome trial id = .ok c
  parents : ∀ before m after, nodes = before ++ m :: after →
    ∀ p ∈ m.node.parents, ∃ d ∈ before, d.node.id = p
  nodup : (nodes.map fun c => c.node.id).Nodup

theorem WellOrdered.position {nodes before after : List CompiledNode}
    (h : WellOrdered genome trial nodes) (hsplit : nodes = before ++ m :: after) :
    Position genome trial before m where
  before c hc := h.compiled c (by rw [hsplit]; exact List.mem_append_left _ hc)
  closed c hc p hp := by
    obtain ⟨b₁, b₂, rfl⟩ := List.append_of_mem hc
    obtain ⟨d, hd, hid⟩ := h.parents b₁ c (b₂ ++ m :: after) (by simp [hsplit]) p hp
    exact ⟨d, List.mem_append_left _ hd, hid⟩
  compiled := h.compiled m (by simp [hsplit])
  parents := h.parents before m after hsplit
  fresh c hc heq := by
    have hnd := h.nodup
    rw [hsplit, List.map_append, List.map_cons] at hnd
    have hdisj := (List.nodup_append.mp hnd).2.2
    exact hdisj _ (List.mem_map_of_mem hc) _ (by simp) heq

/-- The rest of the nodes in both runs, by induction on that rest. -/
theorem Tracks.run {nodes rest : List CompiledNode} (hnd : genome.ids.Nodup)
    (hports : PortsSeparated genome trial) (hcols : ColumnsSeparated genome)
    (hord : WellOrdered genome trial nodes) (hsplit : nodes = done ++ rest)
    (ht : Tracks genome frame latents done cache df values) :
    Agrees genome ((nodeMemo frame latents).run cache df rest).1
      (rest.foldlM (evaluateDirect frame latents) values) := by
  induction rest generalizing done cache df values with
  | nil => exact ht.agree
  | cons m rest ih =>
    rcases ht.step (hord.position hsplit) hnd hports hcols with ⟨e, hstep, hdirect⟩ |
        ⟨df', cache', values', hstep, hdirect, ht'⟩
    · rcases hs : (nodeMemo frame latents).step cache df m with ⟨r, cache'⟩
      rw [hs] at hstep
      simp only at hstep
      subst hstep
      simp only [Memo.run, hs, List.foldlM_cons, hdirect]
      exact rfl
    · simp only [Memo.run, hstep, List.foldlM_cons, hdirect]
      exact ih (by simp [hsplit]) ht'

end Tracks

/-! ## Plans -/

theorem map_id_of_forall₂ {genome : Genome} {trial : TrialParams} {ids : List String}
    {nodes : List CompiledNode}
    (h : List.Forall₂ (fun id c => compileById genome trial id = .ok c) ids nodes) :
    nodes.map (fun c => c.node.id) = ids := by
  induction h with
  | nil => rfl
  | cons hc _ ih => rw [List.map_cons, (compileById_id hc).2, ih]

theorem wellOrdered_sortedNodes {genome : Genome} {trial : TrialParams} {plan : ExecutionPlan}
    (hnd : genome.ids.Nodup) (h : compilePlan genome trial = .ok plan) :
    WellOrdered genome trial plan.sortedNodes := by
  have hall := compilePlan_sortedNodes h
  have hids := map_id_of_forall₂ hall
  constructor
  · intro c hc
    obtain ⟨i, hi, rfl⟩ := List.getElem_of_mem hc
    exact ⟨_, hall.get (hall.length_eq ▸ hi) hi⟩
  · intro before m after hsplit p hp
    have hm : ∃ id, compileById genome trial id = .ok m := by
      have hmem : m ∈ plan.sortedNodes := by simp [hsplit]
      obtain ⟨i, hi, rfl⟩ := List.getElem_of_mem hmem
      exact ⟨_, hall.get (hall.length_eq ▸ hi) hi⟩
    obtain ⟨id, hm⟩ := hm
    have horder : kahn genome.ids genome.parents =
        before.map (fun c => c.node.id) ++ m.node.id :: after.map (fun c => c.node.id) := by
      rw [← hids, hsplit]
      simp
    have hparent : p ∈ genome.parents m.node.id := by
      rw [parents_of_mem hnd (compileById_id hm).1]
      exact hp
    exact List.mem_map.mp ((kahn_parentsFirst hnd).mem_before horder hparent)
  · rw [hids]
    exact kahn_nodup hnd

/-- Where no two nodes with one cache key read different ports and no two ports have one column,
the columns computed with the cache are those of direct evaluation, exceptions included. -/
theorem cached_columns_are_direct (strategy : Strategy F) (frame : Frame F)
    (haccepted : Accepted F strategy.genome)
    (hports : PortsSeparated strategy.genome strategy.trial)
    (hcols : ColumnsSeparated strategy.genome) :
    (computeColumns strategy frame).map (columnsOf strategy.genome) =
      (directValues strategy frame).map (valuesOf strategy.genome) := by
  unfold computeColumns directValues
  cases hplan : strategy.plan with
  | error e => rfl
  | ok plan =>
    have hnd := haccepted.nodup
    have hcompiled : compilePlan strategy.genome strategy.trial = .ok plan := by
      simp only [Strategy.plan, compileGenome, bind_eq_ok] at hplan
      obtain ⟨_, -, hplan⟩ := hplan
      exact hplan
    have hprep := prepare_fresh frame ({} : CompositeState F) (by simp)
    have hcurrent : LatentsCurrent strategy frame (CompositeState.prepare {} frame) := by
      rw [hprep]
      exact (cachesOf_cleared plan (served_empty strategy frame) _).latents
    have hrun := (visitNodes_eq hcurrent (fun _ => none)
      fun compiled hmem => (plan_nodes hplan compiled hmem).2.1).1
    rw [hprep] at hrun
    have hagrees := Tracks.run hnd hports hcols (wellOrdered_sortedNodes hnd hcompiled)
      (List.nil_append _).symm
      (tracks_start strategy.genome frame (latentsOf strategy frame))
    show ((visitNodes strategy frame plan.sortedNodes (CompositeState.prepare {} frame)
        fun _ => none).1).map _ =
      (plan.sortedNodes.foldlM (evaluateDirect frame (latentsOf strategy frame))
        fun _ _ => none).map _
    rw [hprep, hrun]
    revert hagrees
    cases ((nodeMemo frame (latentsOf strategy frame)).run [] (fun _ => none)
        plan.sortedNodes).1 with
    | error e =>
      cases plan.sortedNodes.foldlM (evaluateDirect frame (latentsOf strategy frame))
          fun _ _ => none with
      | error e' => exact fun h => congrArg Except.error h
      | ok values => exact fun h => h.elim
    | ok df =>
      cases plan.sortedNodes.foldlM (evaluateDirect frame (latentsOf strategy frame))
          fun _ _ => none with
      | error e' => exact fun h => h.elim
      | ok values =>
        intro h
        have hlists : columnsOf strategy.genome df = valuesOf strategy.genome values :=
          List.map_congr_left fun node hnode => List.map_congr_left fun port hport =>
            h node hnode port hport
        exact congrArg Except.ok hlists

end Direct

/-! ## Two ports of one channel -/

section Channel

/-- A bar of the given minute between 1 and 3 that closes at 2. -/
def channelRow (bar : ℤ) : Row (Option ℚ) where
  time := bar * minute
  opn := some 2
  high := some 3
  low := some 1
  close := some 2
  volume := some 1
  exog _ := none

def channelFrame : Frame (Option ℚ) where
  rows := [channelRow 0, channelRow 1]
  spaced := by decide +kernel
  opens := by
    intro r hr
    rcases List.mem_cons.mp hr with rfl | hr
    · rfl
    · rw [List.mem_singleton.mp hr]
      rfl

/-- The close against the upper and the lower side of a Donchian channel. -/
def channelGenome (second : String) : Genome where
  nodes :=
    [{ id := "close", kind := .sourceClose },
      { id := "d", kind := .indDonchian, params := [("period", .lit (.int 1))] },
      { id := "above", kind := .cmpGt, inputs := ["close", "d:donchian_upper"] },
      { id := "inside", kind := .cmpGt, inputs := ["close", second] }]
  entryLong := "above"
  entryShort := "inside"
  exitLong := "inside"
  exitShort := "above"

def channelStrategy (second : String) : Strategy (Option ℚ) where
  genome := channelGenome second
  trial _ := none

/-- The second comparison is with the lower side, but it gets the column of the first. -/
theorem second_port_gets_first_column :
    Accepted (Option ℚ) (channelGenome "d:donchian_lower") ∧
      (computeColumns (channelStrategy "d:donchian_lower") channelFrame).map
          (columnsOf (channelGenome "d:donchian_lower")) ≠
        (directValues (channelStrategy "d:donchian_lower") channelFrame).map
          (valuesOf (channelGenome "d:donchian_lower")) := by
  refine ⟨by decide +kernel, fun h => ?_⟩
  have hoption := congrArg Except.toOption h
  revert hoption
  decide +kernel

/-- With the upper side twice the two comparisons are the same and the cache is right. -/
theorem same_port_twice :
    Accepted (Option ℚ) (channelGenome "d:donchian_upper") ∧
      (computeColumns (channelStrategy "d:donchian_upper") channelFrame).map
          (columnsOf (channelGenome "d:donchian_upper")) =
        (directValues (channelStrategy "d:donchian_upper") channelFrame).map
          (valuesOf (channelGenome "d:donchian_upper")) :=
  ⟨by decide +kernel, cached_columns_are_direct (channelStrategy "d:donchian_upper") channelFrame
    (by decide +kernel) (by decide +kernel) (by decide +kernel)⟩

end Channel

end QBackend.GenomeDsl
