import QBackend.ActivityProbe
import QBackend.DistinctKeys
import QBackend.GuardedSteps

/-!
# What a repair leaves of a genome

A repaired genome has the nodes, the kinds and the edges of the genome before: thresholds, periods
and entries are all that differ. Such a genome passes every check that the one before has passed,
those of the entries apart, and is evaluated where the one before was.
-/

namespace QBackend.GenomeDsl

open FallibleSteps TopologicalOrder DistinctKeys
open GeneticSearch (collectGenomeParamKeys)

/-! ## The same graph -/

/-- What the graph has of a node. -/
def GenomeNode.shape (node : GenomeNode) : String × NodeKind × List String :=
  (node.id, node.kind, node.inputs)

structure SameGraph (genome genome' : Genome) : Prop where
  nodes : genome'.nodes.map GenomeNode.shape = genome.nodes.map GenomeNode.shape
  exitLong : genome'.exitLong = genome.exitLong
  exitShort : genome'.exitShort = genome.exitShort
  exitRulePolicy : genome'.exitRulePolicy = genome.exitRulePolicy

theorem shape_eq_iff {node node' : GenomeNode} : node'.shape = node.shape ↔
    node'.id = node.id ∧ node'.kind = node.kind ∧ node'.inputs = node.inputs := by
  simp [GenomeNode.shape]

section Graph

variable {genome genome' : Genome}

theorem SameGraph.refl (genome : Genome) : SameGraph genome genome := ⟨rfl, rfl, rfl, rfl⟩

theorem SameGraph.trans {genome'' : Genome} (h : SameGraph genome genome')
    (h' : SameGraph genome' genome'') : SameGraph genome genome'' :=
  ⟨h'.nodes.trans h.nodes, h'.exitLong.trans h.exitLong, h'.exitShort.trans h.exitShort,
    h'.exitRulePolicy.trans h.exitRulePolicy⟩

theorem SameGraph.length (h : SameGraph genome genome') :
    genome'.nodes.length = genome.nodes.length := by
  simpa using congrArg List.length h.nodes

theorem SameGraph.ids (h : SameGraph genome genome') : genome'.ids = genome.ids := by
  have hids := congrArg (List.map Prod.fst) h.nodes
  rw [List.map_map, List.map_map] at hids
  exact hids

theorem map_shape_node? (genome : Genome) (id : String) :
    (genome.node? id).map GenomeNode.shape =
      (genome.nodes.map GenomeNode.shape).find? fun shape => shape.1 = id := by
  rw [List.find?_map]
  rfl

theorem SameGraph.node? (h : SameGraph genome genome') (id : String) :
    (genome'.node? id).map GenomeNode.shape = (genome.node? id).map GenomeNode.shape := by
  rw [map_shape_node?, map_shape_node?, h.nodes]

theorem SameGraph.exists_node? (h : SameGraph genome genome') {id : String} {node' : GenomeNode}
    (hnode : genome'.node? id = some node') :
    ∃ node, genome.node? id = some node ∧ node'.shape = node.shape := by
  have hshape := h.node? id
  rw [hnode] at hshape
  obtain ⟨node, hn, heq⟩ := Option.map_eq_some_iff.mp hshape.symm
  exact ⟨node, hn, heq.symm⟩

theorem SameGraph.node?_eq_none (h : SameGraph genome genome') {id : String}
    (hnode : genome'.node? id = none) : genome.node? id = none := by
  have hshape := h.node? id
  rw [hnode] at hshape
  exact Option.map_eq_none_iff.mp hshape.symm

theorem SameGraph.parents (h : SameGraph genome genome') : genome'.parents = genome.parents := by
  funext id
  have hparents : ∀ g : Genome, g.parents id = (((g.node? id).map GenomeNode.shape).map
      fun shape => shape.2.2.map fun raw => (parseInputRef raw).1).getD [] := by
    intro g
    rw [Option.map_map]
    rfl
  rw [hparents, hparents, h.node?]

theorem SameGraph.sortedNodes (h : SameGraph genome genome') :
    genome'.sortedNodes.map GenomeNode.shape = genome.sortedNodes.map GenomeNode.shape := by
  unfold Genome.sortedNodes
  rw [List.map_filterMap, List.map_filterMap, h.ids, h.parents]
  exact congrArg (List.filterMap · _) (funext h.node?)

theorem SameGraph.holdingNode (h : SameGraph genome genome') :
    genome'.holdingNode.map GenomeNode.shape = genome.holdingNode.map GenomeNode.shape := by
  have hfind : ∀ g : Genome, g.holdingNode.map GenomeNode.shape =
      ([g.exitLong, g.exitShort].filterMap fun ref =>
        (g.node? (parseInputRef ref).1).map GenomeNode.shape).find?
          fun shape => shape.2.1 = .exitFixedHolding := by
    intro g
    rw [← List.map_filterMap, List.find?_map]
    rfl
  rw [hfind, hfind, h.exitLong, h.exitShort]
  simp only [h.node?]

theorem writtenColumns_shape {nodes nodes' : List GenomeNode}
    (h : nodes'.map GenomeNode.shape = nodes.map GenomeNode.shape) :
    writtenColumns nodes' = writtenColumns nodes := by
  have hshape : ∀ ns : List GenomeNode, writtenColumns ns =
      (ns.map GenomeNode.shape).flatMap fun shape =>
        if shape.2.1.Writes then
          ((nodeSpec shape.2.1).ports.map Prod.fst).map (columnName shape.1)
        else [] := by
    intro ns
    rw [List.flatMap_map]
    rfl
  rw [hshape, hshape, h]

theorem SameGraph.nodeDepth (h : SameGraph genome genome') (fuel : ℕ) (id : String) :
    GenomeDsl.nodeDepth genome' fuel id = GenomeDsl.nodeDepth genome fuel id := by
  induction fuel generalizing id with
  | zero => rfl
  | succ fuel ih =>
    simp only [GenomeDsl.nodeDepth, h.parents]
    rw [List.map_congr_left fun parent _ => ih parent]

/-- Every column that a node reads is written by a node before it. -/
def ReadsColumns (genome : Genome) : Prop :=
  ∀ before node after, genome.sortedNodes = before ++ node :: after →
    ∀ raw ∈ node.inputs, refColumn raw ∈ writtenColumns before

theorem SameGraph.readsColumns (h : SameGraph genome genome') (hreads : ReadsColumns genome) :
    ReadsColumns genome' := by
  intro before' node' after' hsplit raw hraw
  have hshapes := h.sortedNodes
  rw [hsplit, List.map_append, List.map_cons] at hshapes
  obtain ⟨before, rest, hsorted, hbefore, hrest⟩ := List.map_eq_append_iff.mp hshapes.symm
  obtain ⟨node, after, rfl, hnode, -⟩ := List.map_eq_cons_iff.mp hrest
  rw [writtenColumns_shape hbefore.symm]
  refine hreads before node after hsorted raw ?_
  rw [← (shape_eq_iff.mp hnode.symm).2.2]
  exact hraw

end Graph

/-! ## Repaired nodes -/

section Repaired

variable (F : Type) [ProbeFloat F]

/-- A literal that a repair gives a parameter. -/
inductive Replaces (kind : NodeKind) (key : String) : Value → Prop
  | threshold (x : F) (hkind : kind = .cmpCrossAbove ∨ kind = .cmpCrossBelow)
    (hkey : key = "threshold") : Replaces kind key (ProbeFloat.literal x)
  | period (n : ℤ) (hkind : kind.family = .ind) (hkey : key ∈ periodParamKeys) (hn : 2 ≤ n) :
    Replaces kind key (.int n)

/-- The node with other thresholds or periods under the same keys. -/
structure Repaired (node node' : GenomeNode) : Prop where
  shape : node'.shape = node.shape
  keys : node'.params.map Prod.fst = node.params.map Prod.fst
  params : ∀ key, node'.params.lookup key = node.params.lookup key ∨
    ∃ value, node'.params.lookup key = some (.lit value) ∧ Replaces F node.kind key value

/-- The genome with repaired nodes, and possibly other entries. -/
structure RepairOf (genome genome' : Genome) : Prop where
  graph : SameGraph genome genome'
  nodes : List.Forall₂ (Repaired F) genome.nodes genome'.nodes

variable {F} {node node' node'' : GenomeNode} {genome genome' genome'' : Genome}

theorem Repaired.refl (node : GenomeNode) : Repaired F node node := ⟨rfl, rfl, fun _ => .inl rfl⟩

theorem Repaired.kind (h : Repaired F node node') : node'.kind = node.kind :=
  (shape_eq_iff.mp h.shape).2.1

theorem Repaired.trans (h : Repaired F node node') (h' : Repaired F node' node'') :
    Repaired F node node'' where
  shape := h'.shape.trans h.shape
  keys := h'.keys.trans h.keys
  params key := by
    obtain heq | ⟨value, hvalue, hreplaces⟩ := h'.params key
    · rw [heq]
      exact h.params key
    · exact .inr ⟨value, hvalue, h.kind ▸ hreplaces⟩

theorem lookup_assign (node : GenomeNode) (key other : String) (value : ParamValue)
    (hkey : key ∈ node.params.map Prod.fst) :
    (node.assign key value).params.lookup other =
      if other = key then some value else node.params.lookup other := by
  show (assignKey node.params key value).lookup other = _
  rw [assignKey, if_pos hkey]
  generalize node.params = params at hkey
  induction params with
  | nil => cases hkey
  | cons param params ih =>
    by_cases hparam : param.1 = key
    · rw [List.map_cons, if_pos hparam, List.lookup_cons, List.lookup_cons, hparam]
      by_cases hother : other = key
      · simp [hother]
      · have hb : (other == key) = false := beq_false_of_ne hother
        simp only [hb, if_neg hother]
        by_cases hrest : key ∈ params.map Prod.fst
        · rw [ih hrest, if_neg hother]
        · rw [List.map_congr_left (g := id) fun p hp => ?_, List.map_id]
          refine if_neg fun heq => hrest ?_
          exact List.mem_map.mpr ⟨p, hp, heq⟩
    · rw [List.map_cons, if_neg hparam, List.lookup_cons, List.lookup_cons]
      have hrest : key ∈ params.map Prod.fst := by
        rw [List.map_cons, List.mem_cons] at hkey
        exact hkey.resolve_left fun heq => hparam heq.symm
      cases hb : other == param.1 with
      | true =>
        have hother : other ≠ key := fun heq => hparam ((beq_iff_eq.mp hb).symm.trans heq)
        rw [if_neg hother]
      | false => exact ih hrest

/-- The parameter of a node is given a literal that a repair may give it. -/
theorem Repaired.assign (h : Repaired F node node') {key : String} {value : Value}
    (hkey : key ∈ node.params.map Prod.fst) (hreplaces : Replaces F node.kind key value) :
    Repaired F node (node'.assign key (.lit value)) := by
  have hkey' : key ∈ node'.params.map Prod.fst := h.keys ▸ hkey
  refine ⟨h.shape, (map_fst_assignKey _ hkey').trans h.keys, fun other => ?_⟩
  rw [lookup_assign node' key other _ hkey']
  by_cases hother : other = key
  · rw [if_pos hother]
    exact .inr ⟨value, rfl, hother ▸ hreplaces⟩
  · rw [if_neg hother]
    exact h.params other

theorem RepairOf.refl (genome : Genome) : RepairOf F genome genome :=
  ⟨.refl genome, List.forall₂_same.mpr fun node _ => .refl node⟩

theorem RepairOf.trans (h : RepairOf F genome genome') (h' : RepairOf F genome' genome'') :
    RepairOf F genome genome'' := by
  obtain ⟨hlength, hnodes⟩ := List.forall₂_iff_get.mp h.nodes
  obtain ⟨hlength', hnodes'⟩ := List.forall₂_iff_get.mp h'.nodes
  refine ⟨h.graph.trans h'.graph, List.forall₂_iff_get.mpr ⟨hlength.trans hlength', ?_⟩⟩
  exact fun i hi hi'' => (hnodes i hi (hlength ▸ hi)).trans (hnodes' i (hlength ▸ hi) hi'')

theorem shapes_of_forall₂ {nodes nodes' : List GenomeNode}
    (h : List.Forall₂ (Repaired F) nodes nodes') :
    nodes'.map GenomeNode.shape = nodes.map GenomeNode.shape := by
  induction h with
  | nil => rfl
  | cons hnode _ ih => rw [List.map_cons, List.map_cons, hnode.shape, ih]

theorem RepairOf.exists_node (h : RepairOf F genome genome') (hn : node' ∈ genome'.nodes) :
    ∃ node ∈ genome.nodes, Repaired F node node' := by
  obtain ⟨i, hi, rfl⟩ := List.getElem_of_mem hn
  have hlength := h.nodes.length_eq
  exact ⟨_, List.getElem_mem (hlength ▸ hi), h.nodes.get (hlength ▸ hi) hi⟩

theorem RepairOf.repaired (h : RepairOf F genome genome') (hnd : genome.ids.Nodup)
    (hn : node ∈ genome.nodes) (hn' : node' ∈ genome'.nodes) (hid : node'.id = node.id) :
    Repaired F node node' := by
  obtain ⟨other, hother, hrepaired⟩ := h.exists_node hn'
  have heq := KeyedTables.eq_of_mem_of_key hnd hother hn
    ((shape_eq_iff.mp hrepaired.shape).1.symm.trans hid)
  exact heq ▸ hrepaired

theorem RepairOf.assign (h : RepairOf F genome genome') (hnd : genome.ids.Nodup)
    (hn : node ∈ genome.nodes) {key : String} {value : Value}
    (hkey : key ∈ node.params.map Prod.fst) (hreplaces : Replaces F node.kind key value) :
    RepairOf F genome (genome'.assign node.id key (.lit value)) := by
  have hnodes : List.Forall₂ (Repaired F) genome.nodes
      (genome'.assign node.id key (.lit value)).nodes := by
    refine List.forall₂_map_right_iff.mpr ?_
    refine (List.forall₂_iff_get.mpr ⟨h.nodes.length_eq, fun i hi hi' => ?_⟩)
    have hrepaired := h.nodes.get hi hi'
    by_cases hid : (genome'.nodes.get ⟨i, hi'⟩).id = node.id
    · rw [if_pos hid]
      have heq := KeyedTables.eq_of_mem_of_key hnd (List.get_mem genome.nodes ⟨i, hi⟩) hn
        ((shape_eq_iff.mp hrepaired.shape).1.symm.trans hid)
      exact hrepaired.assign (heq ▸ hkey) (heq ▸ hreplaces)
    · rw [if_neg hid]
      exact hrepaired
  exact ⟨⟨shapes_of_forall₂ hnodes, h.graph.exitLong, h.graph.exitShort,
    h.graph.exitRulePolicy⟩, hnodes⟩

theorem RepairOf.setEntry (h : RepairOf F genome genome') (ref : String) (side : Side) :
    RepairOf F genome (genome'.setEntry ref side) := by
  cases side with
  | long => exact ⟨⟨h.graph.nodes, h.graph.exitLong, h.graph.exitShort, h.graph.exitRulePolicy⟩,
      h.nodes⟩
  | short => exact ⟨⟨h.graph.nodes, h.graph.exitLong, h.graph.exitShort, h.graph.exitRulePolicy⟩,
      h.nodes⟩

/-! ## Checks -/

theorem Replaces.not_hhmm {kind : NodeKind} {key : String} {value : Value}
    (h : Replaces F kind key value) : key ∉ hhmmKeys := by
  cases h with
  | threshold x hkind hkey =>
    subst hkey
    decide
  | period n hkind hkey hn =>
    revert hkey
    simp only [periodParamKeys, List.mem_cons, List.not_mem_nil, or_false]
    rintro (rfl | rfl | rfl | rfl | rfl | rfl | rfl | rfl) <;> decide

/-- The kinds with a parameter that a repair replaces. -/
def NodeKind.Replaced (kind : NodeKind) : Bool :=
  decide (kind = .cmpCrossAbove) || decide (kind = .cmpCrossBelow) || decide (kind.family = .ind)

theorem Replaces.replaced {kind : NodeKind} {key : String} {value : Value}
    (h : Replaces F kind key value) : kind.Replaced := by
  cases h with
  | threshold x hkind hkey =>
    obtain rfl | rfl := hkind
    · rfl
    · rfl
  | period n hkind hkey hn =>
    unfold NodeKind.Replaced
    rw [decide_eq_true hkind, Bool.or_true]

theorem Repaired.params_eq (h : Repaired F node node') (hkind : node.kind.Replaced = false) :
    node'.params = node.params := by
  refine eq_of_lookup node.keysNodup h.keys fun key => ?_
  refine (h.params key).resolve_right ?_
  rintro ⟨value, -, hreplaces⟩
  rw [hreplaces.replaced] at hkind
  cases hkind

/-- The literals of a replaced kind are checked for their keys only. -/
theorem validateLiteral_replaced (hkind : node.kind.Replaced = true) (key : String)
    (value : Value) : validateLiteral F node key value =
      if key ∈ hhmmKeys then ensure (parseHhmm (value.toStr F)).toBool (.notHhmm node.id key)
      else .ok () := by
  unfold validateLiteral
  cases hk : node.kind <;> rw [hk] at hkind <;> first
    | exact absurd hkind (by decide)
    | simp

theorem Repaired.validateParam_ok (h : Repaired F node node')
    (hparams : ∀ param ∈ node.params, validateParam F node param = .ok ()) :
    ∀ param ∈ node'.params, validateParam F node' param = .ok () := by
  rintro ⟨key, value⟩ hparam
  obtain ⟨hid, hkind, -⟩ := shape_eq_iff.mp h.shape
  by_cases hreplaced : node.kind.Replaced = true
  · have hlookup := lookup_of_mem node'.keysNodup hparam
    have hreplaced' : node'.kind.Replaced = true := hkind ▸ hreplaced
    obtain heq | ⟨literal, hliteral, hreplaces⟩ := h.params key
    · have hold := hparams (key, value) (mem_of_lookup (heq ▸ hlookup))
      cases value with
      | ref param negate =>
        unfold validateParam at hold ⊢
        exact ensure_eq_ok.mpr (ensure_eq_ok.mp hold)
      | lit value =>
        unfold validateParam at hold ⊢
        simp only at hold ⊢
        rw [validateLiteral_replaced hreplaced] at hold
        rw [validateLiteral_replaced hreplaced']
        by_cases hkey : key ∈ hhmmKeys
        · rw [if_pos hkey, ensure_eq_ok] at hold
          rw [if_pos hkey, ensure_eq_ok]
          exact hold
        · rw [if_neg hkey]
    · obtain rfl := Option.some.inj (hlookup.symm.trans hliteral)
      unfold validateParam
      simp only
      rw [validateLiteral_replaced hreplaced', if_neg hreplaces.not_hhmm]
  · have hparams' := h.params_eq (Bool.eq_false_iff.mpr hreplaced)
    rw [hparams'] at hparam
    have hold := hparams (key, value) hparam
    have hsame : validateParam F node' (key, value) = validateParam F node (key, value) := by
      unfold validateParam validateLiteral validateClip validateWindow
      simp only [hid, hkind, hparams']
    rw [hsame]
    exact hold

theorem SameGraph.validateInput (h : SameGraph genome genome') (hshape : node'.shape = node.shape)
    (raw : String) : validateInput genome' node' raw = validateInput genome node raw := by
  obtain ⟨hid, hkind, hinputs⟩ := shape_eq_iff.mp hshape
  unfold GenomeDsl.validateInput
  cases hnode : genome'.node? (parseInputRef raw).1 with
  | none =>
    rw [h.node?_eq_none hnode, hid]
  | some parent' =>
    obtain ⟨parent, hparent, hsame⟩ := h.exists_node? hnode
    rw [hparent]
    simp only [(shape_eq_iff.mp hsame).2.1, hid, hkind, hinputs]

theorem RepairOf.validateNode_ok (h : RepairOf F genome genome')
    (hnodes : ∀ node ∈ genome.nodes, validateNode F genome node = .ok ()) :
    ∀ node' ∈ genome'.nodes, validateNode F genome' node' = .ok () := by
  intro node' hn'
  obtain ⟨node, hn, hrepaired⟩ := h.exists_node hn'
  obtain ⟨hid, hkind, hinputs⟩ := shape_eq_iff.mp hrepaired.shape
  have hold := hnodes node hn
  simp only [validateNode, seq_eq_ok, ensure_eq_ok, forM_eq_ok] at hold ⊢
  obtain ⟨hkeys, hparams, harity, hconnected⟩ := hold
  rw [hrepaired.keys, hkind, hinputs]
  refine ⟨hkeys, hrepaired.validateParam_ok hparams, harity, fun raw hraw => ?_⟩
  rw [h.graph.validateInput hrepaired.shape]
  exact hconnected raw hraw

theorem RepairOf.validateGenome_eq (h : RepairOf F genome genome') {maxDepth maxNodeCount : ℕ}
    (hvalid : validateGenome F genome maxDepth maxNodeCount = .ok ()) :
    validateGenome F genome' maxDepth maxNodeCount = validateSignalRefs genome' := by
  obtain ⟨hcount, hnd, hnodes, hacyclic, hdepth, -, hpolicy⟩ := validateGenome_eq_ok.mp hvalid
  have hdepth' : genome'.nodes.forM (validateDepth genome' maxDepth) = .ok () := by
    refine forM_eq_ok.mpr fun node' hn' => ?_
    obtain ⟨node, hn, hrepaired⟩ := h.exists_node hn'
    have hold := hdepth node hn
    unfold validateDepth at hold ⊢
    rw [ensure_eq_ok] at hold ⊢
    rw [h.graph.length, (shape_eq_iff.mp hrepaired.shape).1, h.graph.nodeDepth]
    exact hold
  have hpolicy' : validateExitRulePolicy genome' = .ok () := by
    unfold validateExitRulePolicy at hpolicy ⊢
    rw [h.graph.exitRulePolicy]
    exact hpolicy
  have hacyclic' : assertAcyclic genome' = .ok () := by
    unfold assertAcyclic
    rw [ensure_eq_ok, h.graph.ids, h.graph.parents]
    exact hacyclic
  unfold validateGenome
  refine bind_of_ok (a := ()) (ensure_eq_ok.mpr (h.graph.length.trans_le hcount)) ?_
  refine bind_of_ok (a := ()) (ensure_eq_ok.mpr (h.graph.ids ▸ hnd)) ?_
  refine bind_of_ok (forM_eq_ok.mpr (h.validateNode_ok hnodes)) ?_
  refine bind_of_ok hacyclic' (bind_of_ok hdepth' ?_)
  rw [hpolicy']
  cases validateSignalRefs genome' <;> rfl

end Repaired

end QBackend.GenomeDsl
