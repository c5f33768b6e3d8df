import QBackend.EvaluableNodes
import QBackend.ExitSides

/-!
# Compiling the genomes that the validator accepts

A genome that the validator accepts is compiled, unless its holding period is not there: the
validator knows the parameters that a node may have, the compiler looks one up that it must have.
The columns of the signals of the plan are columns that nodes write.
-/

namespace QBackend.GenomeDsl

open FallibleSteps MemoRuns TopologicalOrder

/-! ## Columns by name -/

/-- The exit policies other than the middle band write nothing. -/
def NodeKind.Writes (kind : NodeKind) : Prop := kind.family ≠ .exit ∨ kind = .exitMiddleBand

instance (kind : NodeKind) : Decidable kind.Writes :=
  inferInstanceAs (Decidable (kind.family ≠ .exit ∨ kind = .exitMiddleBand))

/-- The columns of the nodes that write. -/
def writtenColumns (nodes : List GenomeNode) : List String :=
  nodes.flatMap fun node =>
    if node.kind.Writes then (nodePorts node).map (columnName node.id) else []

/-- The column that a reference is read from. -/
def refColumn (ref : String) : String := columnName (parseInputRef ref).1 (parseInputRef ref).2

@[simp] theorem writtenColumns_nil : writtenColumns [] = [] := rfl

theorem mem_writtenColumns_snoc {nodes : List GenomeNode} {node : GenomeNode} {column : String} :
    column ∈ writtenColumns (nodes ++ [node]) ↔
      column ∈ writtenColumns nodes ∨
        node.kind.Writes ∧ column ∈ (nodePorts node).map (columnName node.id) := by
  unfold writtenColumns
  rw [List.flatMap_append, List.mem_append, List.flatMap_singleton]
  by_cases hw : node.kind.Writes
  · simp [hw]
  · simp [hw]

theorem mem_writtenColumns {nodes : List GenomeNode} {node : GenomeNode} (hn : node ∈ nodes)
    (hw : node.kind.Writes) {port : String} (hport : port ∈ nodePorts node) :
    columnName node.id port ∈ writtenColumns nodes := by
  refine List.mem_flatMap.mpr ⟨node, hn, ?_⟩
  rw [if_pos hw]
  exact List.mem_map_of_mem hport

/-! ## The condition -/

/-- The nodes in the order in which they are evaluated. -/
def Genome.sortedNodes (genome : Genome) : List GenomeNode :=
  (kahn genome.ids genome.parents).filterMap genome.node?

/-- The node that the holding period is taken from, if there is one. -/
def Genome.holdingNode (genome : Genome) : Option GenomeNode :=
  ([genome.exitLong, genome.exitShort].filterMap fun ref =>
    genome.node? (parseInputRef ref).1).find? fun node => node.kind = .exitFixedHolding

/-- The holding period of the plan is there. -/
def HoldingKnown (genome : Genome) (trial : TrialParams) : Prop :=
  ∀ node ∈ genome.holdingNode,
    HasInt (resolveNodeParams trial node) "holding_period" fun _ => True

variable {F : Type} [PriceFloat F]

/-! ## Every accepted genome compiles -/

section Compiles

variable {genome : Genome} {trial : TrialParams}

theorem mem_nodePorts {node : GenomeNode} {port : String} {type : OutputType}
    (h : portOutputType node.kind port = some type) : port ∈ nodePorts node := by
  obtain ⟨l₁, l₂, hports, -⟩ := List.lookup_eq_some_iff.mp h
  refine List.mem_map.mpr ⟨(port, type), ?_, rfl⟩
  rw [hports]
  exact List.mem_append_right l₁ List.mem_cons_self

theorem getKey_columnByPort {node : GenomeNode} {port : String} {type : OutputType}
    (h : portOutputType node.kind port = some type) :
    getKey (columnByPort node) port = .ok (columnName node.id port) :=
  getKey_eq_ok.mpr (lookup_columnByPort node (mem_nodePorts h))

theorem compileNode_succeeds (hnd : genome.ids.Nodup) {node : GenomeNode} (hn : node ∈ genome.nodes)
    (hconnected : WellConnected genome node) {fuel : ℕ}
    (hparents : ∀ id ∈ node.parents, Succeeds (compileNode genome trial fuel id)) :
    Succeeds (compileNode genome trial (fuel + 1) node.id) := by
  have hnode : genome.getNode node.id = .ok node := getNode_eq_ok.mpr (node?_of_mem hnd hn)
  have hinput : ∀ raw ∈ node.inputs, Succeeds (do
      let parent ← compileNode genome trial fuel (parseInputRef raw).1
      let column ← getKey parent.columnByPort (parseInputRef raw).2
      pure (InputBinding.mk (parseInputRef raw).1 (parseInputRef raw).2 column,
        parent.cacheKey)) := by
    intro raw hraw
    obtain ⟨parent, hparent⟩ := hparents (parseInputRef raw).1 (List.mem_map_of_mem hraw)
    obtain ⟨source, type, hsource, htype, -⟩ := hconnected.inputs raw hraw
    have hcolumns : parent.columnByPort = columnByPort parent.node := by
      cases fuel with
      | zero => cases hparent
      | succ fuel => exact (compileNode_spec hparent).columns
    have hparentNode : genome.node? (parseInputRef raw).1 = some parent.node := by
      cases fuel with
      | zero => cases hparent
      | succ fuel => exact (compileNode_spec hparent).node
    obtain rfl := Option.some.inj (hsource.symm.trans hparentNode)
    have hkey : getKey parent.columnByPort (parseInputRef raw).2 =
        .ok (columnName parent.node.id (parseInputRef raw).2) := by
      rw [hcolumns]
      exact getKey_columnByPort htype
    exact succeeds_bind.mpr ⟨parent, hparent, succeeds_bind.mpr ⟨_, hkey, succeeds_pure⟩⟩
  obtain ⟨inputs, hinputs⟩ := exists_mapM_ok hinput
  exact succeeds_bind.mpr ⟨node, hnode, succeeds_bind.mpr ⟨inputs, hinputs, succeeds_pure⟩⟩

variable (trial) in
theorem compileNode_of_parentsFirst (hnd : genome.ids.Nodup)
    (hconnected : ∀ node ∈ genome.nodes, WellConnected genome node) {order : List String}
    (h : ParentsFirst genome.parents order) (hids : ∀ id ∈ order, id ∈ genome.ids) :
    ∀ id ∈ order, Succeeds (compileNode genome trial order.length id) := by
  induction h with
  | nil => simp
  | @snoc order last _ hparents ih =>
    have hbefore := ih fun id hid => hids id (List.mem_append_left _ hid)
    intro id hid
    rw [List.length_append, List.length_singleton]
    obtain hid | hid := List.mem_append.mp hid
    · obtain ⟨compiled, hcompiled⟩ := hbefore id hid
      exact ⟨compiled, compileNode_mono hcompiled⟩
    · obtain rfl := List.mem_singleton.mp hid
      obtain ⟨node, hnode, rfl⟩ := List.mem_map.mp (hids id (List.mem_append_right _ hid))
      refine compileNode_succeeds hnd hnode (hconnected node hnode) fun parent hparent => ?_
      refine hbefore parent (hparents parent ?_)
      rw [parents_of_mem hnd hnode]
      exact hparent

variable (trial) in
theorem Accepted.compileById (h : Accepted F genome) {id : String} (hid : id ∈ genome.ids) :
    Succeeds (compileById genome trial id) := by
  have hcompiles := compileNode_of_parentsFirst trial h.nodup
    (fun node hn => (validateNode_ok (h.node hn)).2.2) (kahn_parentsFirst h.nodup)
    (fun _ hn => mem_of_mem_kahn h.nodup hn) id (h.mem_kahn hid)
  rw [h.length_kahn, Genome.ids, List.length_map] at hcompiles
  exact hcompiles

/-! ## Signals -/

/-- The reference is to a port of type bool. -/
def BoolRef (genome : Genome) (ref : String) : Prop :=
  ∃ node, genome.node? (parseInputRef ref).1 = some node ∧
    portOutputType node.kind (parseInputRef ref).2 = some .boolSeries

theorem requireBoolRef_ok {label ref : String} (h : requireBoolRef genome label ref = .ok ()) :
    BoolRef genome ref := by
  unfold requireBoolRef at h
  split at h
  · cases h
  next node hnode =>
    split at h
    · cases h
    next type htype =>
      rw [ensure_eq_ok] at h
      exact ⟨node, hnode, h ▸ htype⟩

theorem requireExitRef_ok {label ref : String} (h : requireExitRef genome label ref = .ok ()) :
    ∃ node, genome.node? (parseInputRef ref).1 = some node ∧
      (node.kind.family = .exit ∨ portOutputType node.kind (parseInputRef ref).2 =
        some .boolSeries) := by
  unfold requireExitRef at h
  split at h
  · cases h
  next node hnode =>
    refine ⟨node, hnode, ?_⟩
    by_cases hfamily : node.kind.family = .exit
    · exact .inl hfamily
    · rw [if_neg hfamily] at h
      obtain ⟨node', hnode', htype⟩ := requireBoolRef_ok h
      obtain rfl := Option.some.inj (hnode.symm.trans hnode')
      exact .inr htype

theorem Accepted.refs (h : Accepted F genome) :
    BoolRef genome genome.entryLong ∧ BoolRef genome genome.entryShort ∧
      ∀ ref ∈ [genome.exitLong, genome.exitShort],
        ∃ node, genome.node? (parseInputRef ref).1 = some node ∧
          (node.kind.family = .exit ∨ portOutputType node.kind (parseInputRef ref).2 =
            some .boolSeries) := by
  have hsignals := h.signals
  simp only [validateSignalRefs, seq_eq_ok] at hsignals
  obtain ⟨hlong, hshort, hexitLong, hexitShort⟩ := hsignals
  refine ⟨requireBoolRef_ok hlong, requireBoolRef_ok hshort, ?_⟩
  intro ref href
  simp only [List.mem_cons, List.not_mem_nil, or_false] at href
  obtain rfl | rfl := href
  · exact requireExitRef_ok hexitLong
  · exact requireExitRef_ok hexitShort

theorem writes_of_bool {kind : NodeKind} {port : String}
    (h : portOutputType kind port = some .boolSeries) : kind.Writes := by
  obtain ⟨l₁, l₂, hports, -⟩ := List.lookup_eq_some_iff.mp h
  have hmem : (port, OutputType.boolSeries) ∈ (nodeSpec kind).ports := by
    rw [hports]
    exact List.mem_append_right l₁ List.mem_cons_self
  by_contra hnot
  have hpolicy : (nodeSpec kind).ports = [("out", .exitPolicy)] := by
    cases kind <;> first | rfl | exact absurd (by decide) hnot
  rw [hpolicy] at hmem
  cases List.mem_singleton.mp hmem

theorem Accepted.mem_sortedNodes (h : Accepted F genome) {node : GenomeNode}
    (hn : node ∈ genome.nodes) : node ∈ genome.sortedNodes :=
  List.mem_filterMap.mpr
    ⟨node.id, h.mem_kahn (List.mem_map_of_mem hn), node?_of_mem h.nodup hn⟩

theorem Accepted.boolRef_written (h : Accepted F genome) {ref : String} (href : BoolRef genome ref) :
    refColumn ref ∈ writtenColumns genome.sortedNodes := by
  obtain ⟨node, hnode, htype⟩ := href
  have hn : node ∈ genome.nodes := KeyedTables.mem_of_lookup hnode
  have hid : node.id = (parseInputRef ref).1 := KeyedTables.key_of_lookup hnode
  have hmem := mem_writtenColumns (h.mem_sortedNodes hn) (writes_of_bool htype) (mem_nodePorts htype)
  rwa [hid] at hmem

variable (trial) in
theorem Accepted.compiled_of_ref (h : Accepted F genome) {ref : String} {node : GenomeNode}
    (hnode : genome.node? (parseInputRef ref).1 = some node) :
    ∃ compiled, GenomeDsl.compileById genome trial (parseInputRef ref).1 = .ok compiled ∧
      compiled.node = node ∧ compiled.columnByPort = columnByPort node ∧
      compiled.resolvedParams = resolveNodeParams trial node ∧ node.id = (parseInputRef ref).1 := by
  have hn : node ∈ genome.nodes := KeyedTables.mem_of_lookup hnode
  have hid : node.id = (parseInputRef ref).1 := KeyedTables.key_of_lookup hnode
  obtain ⟨compiled, hcompiled⟩ :=
    h.compileById trial (List.mem_map.mpr ⟨node, hn, hid⟩)
  obtain ⟨fuel, -, hfrom⟩ := compileById_spec hcompiled
  obtain rfl := Option.some.inj (hnode.symm.trans hfrom.node)
  exact ⟨compiled, hcompiled, rfl, hfrom.columns, hfrom.params, hid⟩

theorem Accepted.resolveSignalColumn (h : Accepted F genome) {ref : String}
    (href : BoolRef genome ref) :
    GenomeDsl.resolveSignalColumn genome trial ref = .ok (refColumn ref) := by
  obtain ⟨node, hnode, htype⟩ := href
  obtain ⟨compiled, hcompiled, -, hcolumns, -, hid⟩ := h.compiled_of_ref trial hnode
  refine bind_eq_ok.mpr ⟨compiled, hcompiled, ?_⟩
  rw [hcolumns, getKey_columnByPort htype, hid]
  rfl

/-! ## Exits -/

/-- Every column that the exit reads is one of the given ones. -/
structure ResolvedExit.ReadsFrom (exit : ResolvedExit) (columns : List String) : Prop where
  column : ∀ column ∈ exit.column, column ∈ columns
  middle : ∀ pair ∈ exit.middleColumns, pair.1 ∈ columns ∧ pair.2 ∈ columns

theorem readsFrom_none {policy : ExitPolicyKind} {columns : List String} :
    ResolvedExit.ReadsFrom { policy := policy } columns where
  column := fun _ h => by cases h
  middle := fun _ h => by cases h

theorem readsFrom_column {policy : ExitPolicyKind} {column : String} {columns : List String}
    (h : column ∈ columns) :
    ResolvedExit.ReadsFrom { policy := policy, column := some column } columns where
  column := fun _ hc => Option.some.inj hc ▸ h
  middle := fun _ hc => by cases hc

/-- An exit that was accepted is resolved to columns that are written. -/
theorem Accepted.resolveExit (h : Accepted F genome) {ref : String} {compiled : CompiledNode}
    (hcompiled : GenomeDsl.compileById genome trial (parseInputRef ref).1 = .ok compiled)
    (href : compiled.node.kind.family = .exit ∨
      portOutputType compiled.node.kind (parseInputRef ref).2 = some .boolSeries)
    {entryLong entryShort : String}
    (hlong : entryLong ∈ writtenColumns genome.sortedNodes)
    (hshort : entryShort ∈ writtenColumns genome.sortedNodes) (side : Side) :
    ∃ exit, GenomeDsl.resolveExit compiled entryLong entryShort ref side = .ok exit ∧
      exit.ReadsFrom (writtenColumns genome.sortedNodes) := by
  obtain ⟨hn, hid⟩ := compileById_id hcompiled
  have hcolumns := compileById_columns hcompiled
  have hsorted := h.mem_sortedNodes hn
  unfold GenomeDsl.resolveExit
  split
  · exact ⟨_, rfl, readsFrom_none⟩
  · exact ⟨_, rfl, readsFrom_none⟩
  · refine ⟨_, rfl, readsFrom_column ?_⟩
    split
    · exact hshort
    · exact hlong
  next hkind =>
    have hport : ∀ port ∈ ["exit_long", "exit_short"],
        getKey compiled.columnByPort port = .ok (columnName compiled.node.id port) ∧
          columnName compiled.node.id port ∈ writtenColumns genome.sortedNodes := by
      intro port hport
      have hmem : port ∈ nodePorts compiled.node := by
        unfold nodePorts
        rw [hkind]
        exact hport
      rw [hcolumns, getKey_eq_ok.mpr (lookup_columnByPort _ hmem)]
      exact ⟨rfl, mem_writtenColumns hsorted (.inr hkind) hmem⟩
    obtain ⟨hkeyLong, hmemLong⟩ := hport "exit_long" (by simp)
    obtain ⟨hkeyShort, hmemShort⟩ := hport "exit_short" (by simp)
    refine ⟨_, bind_eq_ok.mpr ⟨_, hkeyLong, bind_eq_ok.mpr ⟨_, hkeyShort, rfl⟩⟩, ?_⟩
    exact ⟨fun _ hc => (by cases hc), fun _ hc => Option.some.inj hc ▸ ⟨hmemLong, hmemShort⟩⟩
  next hholding hrebalance hopposite hmiddle =>
    have htype : portOutputType compiled.node.kind (parseInputRef ref).2 = some .boolSeries := by
      refine href.resolve_left fun hfamily => ?_
      revert hfamily hholding hrebalance hopposite hmiddle
      cases compiled.node.kind <;> simp [NodeKind.family]
    refine ⟨_, bind_eq_ok.mpr ⟨_, ?_, rfl⟩, readsFrom_column
      (mem_writtenColumns hsorted (writes_of_bool htype) (mem_nodePorts htype))⟩
    rw [hcolumns]
    exact getKey_columnByPort htype

/-! ## Plans -/

theorem holdingPeriod_succeeds {long short : CompiledNode}
    (hlong : genome.node? (parseInputRef genome.exitLong).1 = some long.node)
    (hshort : genome.node? (parseInputRef genome.exitShort).1 = some short.node)
    (hlongParams : long.resolvedParams = resolveNodeParams trial long.node)
    (hshortParams : short.resolvedParams = resolveNodeParams trial short.node) :
    Succeeds (holdingPeriod long short) ↔ HoldingKnown genome trial := by
  have hlookup : ∀ params : List (String × Value),
      Succeeds (do
        let value ← getKey params "holding_period"
        return some (← value.toInt) : Except Failure (Option ℤ)) ↔
        HasInt params "holding_period" fun _ => True := by
    intro params
    refine succeeds_bind.trans ?_
    unfold HasInt intParam
    simp only [bind_eq_ok, and_true]
    constructor
    · rintro ⟨value, hvalue, hint⟩
      obtain ⟨k, hk, -⟩ := succeeds_bind.mp hint
      exact ⟨k, value, hvalue, hk⟩
    · rintro ⟨k, value, hvalue, hk⟩
      exact ⟨value, hvalue, succeeds_bind.mpr ⟨k, hk, succeeds_pure⟩⟩
  have hnodes : ([genome.exitLong, genome.exitShort].filterMap fun ref =>
      genome.node? (parseInputRef ref).1) = [long.node, short.node] := by
    simp [hlong, hshort]
  unfold HoldingKnown Genome.holdingNode holdingPeriod
  rw [hnodes]
  by_cases hl : long.node.kind = .exitFixedHolding
  · rw [if_pos hl, hlookup, hlongParams, List.find?_cons_of_pos (by simpa using hl)]
    simp
  rw [if_neg hl, List.find?_cons_of_neg (by simpa using hl)]
  by_cases hs : short.node.kind = .exitFixedHolding
  · rw [if_pos hs, hlookup, hshortParams, List.find?_cons_of_pos (by simpa using hs)]
    simp
  · rw [if_neg hs, List.find?_cons_of_neg (by simpa using hs)]
    simp

/-- What a plan of an accepted genome reads off the columns. -/
structure ExecutionPlan.ReadsFrom (plan : ExecutionPlan) (columns : List String) : Prop where
  entryLong : plan.entryLongColumn ∈ columns
  entryShort : plan.entryShortColumn ∈ columns
  exitLong : plan.exitLong.ReadsFrom columns
  exitShort : plan.exitShort.ReadsFrom columns

theorem Accepted.topologicalSort (h : Accepted F genome) :
    GenomeDsl.topologicalSort genome = .ok (kahn genome.ids genome.parents) := by
  have hlength : (kahn genome.ids genome.parents).length = genome.nodes.length := by
    rw [h.length_kahn, Genome.ids, List.length_map]
  exact if_pos hlength

variable (trial) in
/-- Every step of the compiler before the holding period succeeds. -/
theorem Accepted.compilePlan_eq (h : Accepted F genome) :
    ∃ nodes long short exitLong exitShort,
      (Succeeds (holdingPeriod long short) ↔ HoldingKnown genome trial) ∧
      exitLong.ReadsFrom (writtenColumns genome.sortedNodes) ∧
      exitShort.ReadsFrom (writtenColumns genome.sortedNodes) ∧
      compilePlan genome trial = (do
        let holding ← holdingPeriod long short
        pure ⟨nodes, refColumn genome.entryLong, refColumn genome.entryShort, exitLong, exitShort,
          holding⟩) := by
  obtain ⟨hentryLong, hentryShort, hexits⟩ := h.refs
  obtain ⟨longNode, hlongNode, hlongRef⟩ := hexits genome.exitLong (by simp)
  obtain ⟨shortNode, hshortNode, hshortRef⟩ := hexits genome.exitShort (by simp)
  obtain ⟨long, hlong, rfl, -, hlongParams, -⟩ := h.compiled_of_ref trial hlongNode
  obtain ⟨short, hshort, rfl, -, hshortParams, -⟩ := h.compiled_of_ref trial hshortNode
  have hwrittenLong := h.boolRef_written hentryLong
  have hwrittenShort := h.boolRef_written hentryShort
  obtain ⟨exitLong, hexitLong, hreadsLong⟩ :=
    h.resolveExit hlong hlongRef hwrittenLong hwrittenShort .long
  obtain ⟨exitShort, hexitShort, hreadsShort⟩ :=
    h.resolveExit hshort hshortRef hwrittenLong hwrittenShort .short
  obtain ⟨all, hall⟩ := exists_mapM_ok fun id (hid : id ∈ genome.ids) =>
    h.compileById trial hid
  obtain ⟨nodes, hnodes⟩ := exists_mapM_ok fun id
    (hid : id ∈ kahn genome.ids genome.parents) =>
      h.compileById trial (mem_of_mem_kahn h.nodup hid)
  refine ⟨nodes, long, short, exitLong, exitShort,
    holdingPeriod_succeeds hlongNode hshortNode hlongParams hshortParams, hreadsLong, hreadsShort, ?_⟩
  refine bind_of_ok hall (bind_of_ok h.topologicalSort (bind_of_ok hnodes ?_))
  refine bind_of_ok (h.resolveSignalColumn hentryLong) ?_
  refine bind_of_ok (h.resolveSignalColumn hentryShort) ?_
  exact bind_of_ok hlong (bind_of_ok hshort (bind_of_ok hexitLong (bind_of_ok hexitShort rfl)))

theorem Accepted.compilePlan_succeeds (h : Accepted F genome) :
    Succeeds (compilePlan genome trial) ↔ HoldingKnown genome trial := by
  obtain ⟨nodes, long, short, exitLong, exitShort, hholding, -, -, heq⟩ :=
    h.compilePlan_eq trial
  rw [heq, ← hholding]
  exact succeeds_bind_iff fun _ => succeeds_pure

theorem Accepted.plan_readsFrom (h : Accepted F genome) {plan : ExecutionPlan}
    (hplan : compilePlan genome trial = .ok plan) :
    plan.ReadsFrom (writtenColumns genome.sortedNodes) := by
  obtain ⟨nodes, long, short, exitLong, exitShort, -, hreadsLong, hreadsShort, heq⟩ :=
    h.compilePlan_eq trial
  rw [heq] at hplan
  obtain ⟨holding, -, hpure⟩ := bind_eq_ok.mp hplan
  obtain rfl := pure_eq_ok.mp hpure
  obtain ⟨hentryLong, hentryShort, -⟩ := h.refs
  exact ⟨h.boolRef_written hentryLong, h.boolRef_written hentryShort, hreadsLong, hreadsShort⟩

end Compiles

end QBackend.GenomeDsl
