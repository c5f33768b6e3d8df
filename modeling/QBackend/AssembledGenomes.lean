import QBackend.GenomeValidation
import Mathlib.Data.List.MinMax
import Mathlib.Order.Nat

/-!
# Genomes that are assembled node by node

A list of nodes to which each node was appended after those that it reads. Such a list has no
cycle, and its depths are known node by node; what is left of the checks of a genome are the
limits on the number of nodes and on their depth.
-/

namespace QBackend.GenomeDsl

open FallibleSteps TopologicalOrder

section Assembled

variable (F : Type) [PriceFloat F]

/-- The node is new, passes the checks of its own, and reads nodes of the list. -/
structure Fits (nodes : List GenomeNode) (node : GenomeNode) : Prop where
  fresh : node.id ∉ nodes.map GenomeNode.id
  keys : ∀ key ∈ node.params.map Prod.fst, key ∈ (nodeSpec node.kind).allowedParamKeys
  params : ∀ param ∈ node.params, validateParam F node param = .ok ()
  arity : (nodeSpec node.kind).minInputs ≤ node.inputs.length ∧
    node.inputs.length ≤ (nodeSpec node.kind).maxInputs
  inputs : ∀ raw ∈ node.inputs, ∃ parent ∈ nodes, ∃ type, (parseInputRef raw).1 = parent.id ∧
    portOutputType parent.kind (parseInputRef raw).2 = some type ∧
    familyAccepts node.kind type = true ∧ ∀ index, seriesAccepts node.kind index type = true

inductive Assembled : List GenomeNode → Prop where
  | nil : Assembled []
  | snoc {nodes : List GenomeNode} {node : GenomeNode} : Assembled nodes → Fits F nodes node →
      Assembled (nodes ++ [node])

end Assembled

/-- The longest chain of inputs from each id down, taken up node by node. -/
def levels (nodes : List GenomeNode) : String → ℕ :=
  nodes.foldl (fun level node =>
    Function.update level node.id (1 + (node.parents.map level).foldr max 0)) fun _ => 0

theorem levels_snoc (nodes : List GenomeNode) (node : GenomeNode) :
    levels (nodes ++ [node]) = Function.update (levels nodes) node.id
      (1 + (node.parents.map (levels nodes)).foldr max 0) := by
  simp [levels, List.foldl_append]

section Levels

variable {F : Type} [PriceFloat F] {nodes : List GenomeNode} {node : GenomeNode}

theorem Fits.mem_parents (h : Fits F nodes node) {id : String} (hid : id ∈ node.parents) :
    id ∈ nodes.map GenomeNode.id := by
  obtain ⟨raw, hraw, rfl⟩ := List.mem_map.mp hid
  obtain ⟨parent, hparent, _, hname, -⟩ := h.inputs raw hraw
  exact List.mem_map.mpr ⟨parent, hparent, hname.symm⟩

theorem Assembled.nodup (h : Assembled F nodes) : (nodes.map GenomeNode.id).Nodup := by
  induction h with
  | nil => simp
  | snoc _ hfits ih =>
    rw [List.map_append, List.map_cons, List.map_nil]
    refine List.nodup_append.mpr ⟨ih, List.nodup_singleton _, ?_⟩
    intro a ha b hb heq
    rw [List.mem_singleton.mp hb] at heq
    exact hfits.fresh (heq ▸ ha)

theorem Assembled.parents_mem (h : Assembled F nodes) (hn : node ∈ nodes) {id : String}
    (hid : id ∈ node.parents) : id ∈ nodes.map GenomeNode.id := by
  induction h with
  | nil => cases hn
  | snoc _ hfits ih =>
    rw [List.map_append]
    obtain hn | hn := List.mem_append.mp hn
    · exact List.mem_append_left _ (ih hn)
    · obtain rfl := List.mem_singleton.mp hn
      exact List.mem_append_left _ (hfits.mem_parents hid)

theorem levels_snoc_of_mem (h : Fits F nodes node) {id : String}
    (hid : id ∈ nodes.map GenomeNode.id) : levels (nodes ++ [node]) id = levels nodes id := by
  rw [levels_snoc, Function.update_of_ne]
  rintro rfl
  exact h.fresh hid

theorem levels_snoc_self : levels (nodes ++ [node]) node.id =
    1 + (node.parents.map (levels nodes)).foldr max 0 := by
  rw [levels_snoc, Function.update_self]

theorem Assembled.levels_eq (h : Assembled F nodes) (hn : node ∈ nodes) :
    levels nodes node.id = 1 + (node.parents.map (levels nodes)).foldr max 0 := by
  induction h with
  | nil => cases hn
  | @snoc nodes last hbefore hfits ih =>
    have hparents : ∀ ids : List String, (∀ id ∈ ids, id ∈ nodes.map GenomeNode.id) →
        ids.map (levels (nodes ++ [last])) = ids.map (levels nodes) := fun ids hids =>
      List.map_congr_left fun id hid => levels_snoc_of_mem hfits (hids id hid)
    obtain hn | hn := List.mem_append.mp hn
    · have hid : node.id ∈ nodes.map GenomeNode.id := List.mem_map_of_mem hn
      rw [levels_snoc_of_mem hfits hid, ih hn,
        hparents _ fun id hid => hbefore.parents_mem hn hid]
    · obtain rfl := List.mem_singleton.mp hn
      rw [levels_snoc_self, hparents _ fun id hid => hfits.mem_parents hid]

theorem Assembled.levels_le_length (h : Assembled F nodes) (id : String) :
    levels nodes id ≤ nodes.length := by
  induction h generalizing id with
  | nil => simp [levels]
  | @snoc nodes last hbefore hfits ih =>
    rw [List.length_append, List.length_singleton]
    by_cases hid : id = last.id
    · subst hid
      rw [levels_snoc_self]
      have hmax : (last.parents.map (levels nodes)).foldr max 0 ≤ nodes.length := by
        apply List.max_le_of_forall_le (last.parents.map (levels nodes)) nodes.length
        intro x hx
        obtain ⟨id, -, rfl⟩ := List.mem_map.mp hx
        exact ih id
      omega
    · rw [levels_snoc, Function.update_of_ne hid]
      exact (ih id).trans (Nat.le_succ _)

theorem Assembled.parentsFirst (h : Assembled F nodes) {parents : String → List String}
    (hparents : ∀ node ∈ nodes, parents node.id = node.parents) :
    ParentsFirst parents (nodes.map GenomeNode.id) := by
  induction h with
  | nil => exact .nil
  | @snoc nodes last _ hfits ih =>
    rw [List.map_append, List.map_cons, List.map_nil]
    refine (ih fun node hn => hparents node (List.mem_append_left _ hn)).snoc fun p hp => ?_
    rw [hparents last (by simp)] at hp
    exact hfits.mem_parents hp

end Levels

/-! ## The checks of an assembled genome -/

section Checks

variable {F : Type} [PriceFloat F] {genome : Genome}

theorem validateParams_of_fits {nodes : List GenomeNode} {node : GenomeNode}
    (h : Fits F nodes node) (hinputs : node.inputs.forM (validateInput genome node) = .ok ()) :
    validateNode F genome node = .ok () := by
  have hunknown : (node.params.map Prod.fst).filter
      (fun key => key ∉ (nodeSpec node.kind).allowedParamKeys) = [] := by
    rw [List.filter_eq_nil_iff]
    intro key hkey
    simpa using h.keys key hkey
  simp only [validateNode, seq_eq_ok, ensure_eq_ok, forM_eq_ok]
  exact ⟨hunknown, h.params, h.arity, forM_eq_ok.mp hinputs⟩

theorem validateNode_of_fits (hnd : genome.ids.Nodup) {nodes : List GenomeNode}
    {node : GenomeNode} (hsub : ∀ parent ∈ nodes, parent ∈ genome.nodes) (h : Fits F nodes node) :
    validateNode F genome node = .ok () := by
  refine validateParams_of_fits h (forM_eq_ok.mpr fun raw hraw => ?_)
  obtain ⟨parent, hparent, type, hname, htype, hfamily, hseries⟩ := h.inputs raw hraw
  have hlookup : genome.node? (parseInputRef raw).1 = some parent := by
    rw [hname]
    exact node?_of_mem hnd (hsub parent hparent)
  simp only [validateInput, hlookup, htype, ensure_eq_ok]
  exact ⟨hfamily, hseries _⟩

theorem validateNode_of_assembled {nodes : List GenomeNode} {node : GenomeNode}
    (h : Assembled F nodes) (hnd : genome.ids.Nodup)
    (hsub : ∀ parent ∈ nodes, parent ∈ genome.nodes) (hn : node ∈ nodes) :
    validateNode F genome node = .ok () := by
  induction h with
  | nil => cases hn
  | @snoc nodes last _ hfits ih =>
    have hbefore : ∀ parent ∈ nodes, parent ∈ genome.nodes := fun parent hp =>
      hsub parent (List.mem_append_left _ hp)
    obtain hn | hn := List.mem_append.mp hn
    · exact ih hbefore hn
    · obtain rfl := List.mem_singleton.mp hn
      exact validateNode_of_fits hnd hbefore hfits

theorem nodeDepth_eq (h : Assembled F genome.nodes) {fuel : ℕ} {id : String}
    (hid : id ∈ genome.ids) (hfuel : levels genome.nodes id ≤ fuel) :
    nodeDepth genome fuel id = levels genome.nodes id := by
  induction fuel generalizing id with
  | zero => exact (Nat.le_zero.mp hfuel).symm
  | succ fuel ih =>
    obtain ⟨node, hn, rfl⟩ := List.mem_map.mp hid
    have hlevel := h.levels_eq hn
    have hmap : (genome.parents node.id).map (nodeDepth genome fuel) =
        node.parents.map (levels genome.nodes) := by
      rw [parents_of_mem h.nodup hn]
      refine List.map_congr_left fun p hp => ih (h.parents_mem hn hp) ?_
      have hle : levels genome.nodes p ≤ (node.parents.map (levels genome.nodes)).foldr max 0 :=
        List.le_max_of_le' 0 (List.mem_map_of_mem hp) le_rfl
      omega
    rw [nodeDepth, hmap, ← hlevel]

/-- An assembled genome is accepted when it is small enough and its signals and its exit policy
are right. -/
theorem accepted_iff_of_assembled (h : Assembled F genome.nodes)
    (hsignals : validateSignalRefs genome = .ok ())
    (hpolicy : validateExitRulePolicy genome = .ok ()) :
    Accepted F genome ↔ genome.nodes.length ≤ defaultMaxNodeCount ∧
      ∀ node ∈ genome.nodes, levels genome.nodes node.id ≤ defaultMaxDepth := by
  have hdepth : ∀ node ∈ genome.nodes,
      validateDepth genome defaultMaxDepth node = .ok () ↔
        levels genome.nodes node.id ≤ defaultMaxDepth := fun node hn => by
    rw [validateDepth, ensure_eq_ok, nodeDepth_eq h (List.mem_map_of_mem hn)
      (h.levels_le_length node.id)]
  have hkahn : (kahn genome.ids genome.parents).length = genome.ids.length :=
    length_kahn h.nodup (h.parentsFirst fun node hn => parents_of_mem h.nodup hn)
  rw [Accepted, validateGenome_eq_ok]
  constructor
  · rintro ⟨hcount, -, -, -, hdepths, -⟩
    exact ⟨hcount, fun node hn => (hdepth node hn).mp (hdepths node hn)⟩
  · rintro ⟨hcount, hlevels⟩
    exact ⟨hcount, h.nodup, fun node hn => validateNode_of_assembled h h.nodup (fun _ hp => hp) hn,
      hkahn, fun node hn => (hdepth node hn).mpr (hlevels node hn), hsignals, hpolicy⟩

end Checks

end QBackend.GenomeDsl
