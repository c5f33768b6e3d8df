import QBackend.AcceptedRuns
import QBackend.DistinctKeys
import QBackend.LongestChains

/-!
# The checks of the graph of a genome

The work list of the validator comes to its end on every graph and takes every node just when no
node reads itself through others; the memoized depth of a node is then the number of nodes on a
longest path of inputs that ends in it, and the compiler puts every node after those that it reads.
-/

namespace QBackend.GenomeDsl

open FallibleSteps TopologicalOrder LongestChains Relation

/-! ## Depths with a memo -/

/-- `depth` of `_node_depth`: the depth of a node with the memo after it. There is none when the
recursion goes deeper than the fuel. -/
def depth (genome : Genome) : ℕ → List (String × ℕ) → String → Option (ℕ × List (String × ℕ))
  | 0, _, _ => none
  | fuel + 1, memo, nid =>
    match memo.lookup nid with
    | some known => some (known, memo)
    | none =>
      if genome.parents nid = [] then some (1, (nid, 1) :: memo)
      else do
        let deepest ← (genome.parents nid).foldlM (fun (best : ℕ × List (String × ℕ)) child => do
          let found ← depth genome fuel best.2 child
          some (max best.1 found.1, found.2)) (0, memo)
        some (1 + deepest.1, (nid, 1 + deepest.1) :: deepest.2)

variable {genome : Genome}

/-- Every entry of the memo is the length of a longest path. -/
def Remembers (genome : Genome) (memo : List (String × ℕ)) : Prop :=
  ∀ entry ∈ memo, IsGreatest (chainLengths genome.parents entry.1) entry.2

theorem Remembers.cons {memo : List (String × ℕ)} {nid : String} {d : ℕ}
    (h : Remembers genome memo) (hd : IsGreatest (chainLengths genome.parents nid) d) :
    Remembers genome ((nid, d) :: memo) :=
  List.forall_mem_cons.mpr ⟨hd, h⟩

/-- The greatest of the depths of the parents that were visited. -/
structure Deepest (genome : Genome) (visited : List String) (best : ℕ) : Prop where
  le : ∀ p ∈ visited, ∃ d ≤ best, IsGreatest (chainLengths genome.parents p) d
  reached : best = 0 ∨ ∃ p ∈ visited, IsGreatest (chainLengths genome.parents p) best

theorem deepest_nil : Deepest genome [] 0 := ⟨fun _ hp => (by cases hp), .inl rfl⟩

theorem Deepest.snoc {visited : List String} {best d : ℕ} {p : String}
    (h : Deepest genome visited best) (hd : IsGreatest (chainLengths genome.parents p) d) :
    Deepest genome (visited ++ [p]) (max best d) where
  le q hq := by
    obtain hq | hq := List.mem_append.mp hq
    · obtain ⟨e, he, hgreatest⟩ := h.le q hq
      exact ⟨e, he.trans (le_max_left best d), hgreatest⟩
    · obtain rfl := List.mem_singleton.mp hq
      exact ⟨d, le_max_right best d, hd⟩
  reached := by
    obtain hle | hle := le_total best d
    · rw [max_eq_right hle]
      exact .inr ⟨p, List.mem_append_right _ (List.mem_singleton_self p), hd⟩
    · rw [max_eq_left hle]
      exact h.reached.imp_right fun ⟨q, hq, hgreatest⟩ =>
        ⟨q, List.mem_append_left _ hq, hgreatest⟩

/-- The depth is the length of a longest path, and so is all that is remembered. -/
theorem depth_spec {fuel : ℕ} {memo : List (String × ℕ)} {nid : String}
    (hbound : Bounded genome.parents fuel nid) (hmemo : Remembers genome memo) :
    ∃ d memo', depth genome fuel memo nid = some (d, memo') ∧
      IsGreatest (chainLengths genome.parents nid) d ∧ Remembers genome memo' := by
  induction fuel generalizing memo nid with
  | zero => exact absurd hbound not_bounded_zero
  | succ fuel ih =>
    -- the loop over the parents, those before having been visited
    have hloop : ∀ rest visited : List String, ∀ best memo, Deepest genome visited best →
        Remembers genome memo → (∀ p ∈ rest, p ∈ genome.parents nid) →
        ∃ deepest memo', rest.foldlM (fun (best : ℕ × List (String × ℕ)) child => do
            let found ← depth genome fuel best.2 child
            some (max best.1 found.1, found.2)) (best, memo) = some (deepest, memo') ∧
          Deepest genome (visited ++ rest) deepest ∧ Remembers genome memo' := by
      intro rest
      induction rest with
      | nil =>
        intro visited best memo hbest hmemo _
        exact ⟨best, memo, rfl, by rw [List.append_nil]; exact hbest, hmemo⟩
      | cons p rest ihrest =>
        intro visited best memo hbest hmemo hparents
        obtain ⟨hp, hrest⟩ := List.forall_mem_cons.mp hparents
        obtain ⟨d, memo₁, hdepth, hgreatest, hmemo₁⟩ := ih (hbound.parent hp) hmemo
        obtain ⟨deepest, memo₂, hfold, hdeepest, hmemo₂⟩ :=
          ihrest (visited ++ [p]) (max best d) memo₁ (hbest.snoc hgreatest) hmemo₁ hrest
        refine ⟨deepest, memo₂, ?_, ?_, hmemo₂⟩
        · rw [List.foldlM_cons, hdepth]
          exact hfold
        · rw [List.append_assoc, List.singleton_append] at hdeepest
          exact hdeepest
    unfold depth
    cases hlookup : memo.lookup nid with
    | some known => exact ⟨known, memo, rfl, hmemo _ (DistinctKeys.mem_of_lookup hlookup), hmemo⟩
    | none =>
      by_cases hleaf : genome.parents nid = []
      · have hone : IsGreatest (chainLengths genome.parents nid) 1 :=
          isGreatest_succ (fun p hp => by rw [hleaf] at hp; cases hp) (.inl rfl)
        exact ⟨1, (nid, 1) :: memo, by simp only [if_pos hleaf], hone, hmemo.cons hone⟩
      · obtain ⟨deepest, memo', hfold, hdeepest, hmemo'⟩ :=
          hloop (genome.parents nid) [] 0 memo deepest_nil hmemo fun p hp => hp
        rw [List.nil_append] at hdeepest
        have hgreatest : IsGreatest (chainLengths genome.parents nid) (1 + deepest) :=
          isGreatest_succ hdeepest.le hdeepest.reached
        refine ⟨1 + deepest, (nid, 1 + deepest) :: memo', ?_, hgreatest, hmemo'.cons hgreatest⟩
        simp only [if_neg hleaf, hfold]
        rfl

theorem nodeDepth_isGreatest {fuel : ℕ} {nid : String} (hbound : Bounded genome.parents fuel nid) :
    IsGreatest (chainLengths genome.parents nid) (nodeDepth genome fuel nid) := by
  induction fuel generalizing nid with
  | zero => exact absurd hbound not_bounded_zero
  | succ fuel ih =>
    have hloop : ∀ rest : List String, (∀ p ∈ rest, p ∈ genome.parents nid) →
        (∀ p ∈ rest, ∃ d ≤ (rest.map (nodeDepth genome fuel)).foldr max 0,
          IsGreatest (chainLengths genome.parents p) d) ∧
        ((rest.map (nodeDepth genome fuel)).foldr max 0 = 0 ∨
          ∃ p ∈ rest, IsGreatest (chainLengths genome.parents p)
            ((rest.map (nodeDepth genome fuel)).foldr max 0)) := by
      intro rest
      induction rest with
      | nil => exact fun _ => ⟨fun _ hp => (by cases hp), .inl rfl⟩
      | cons p rest ihrest =>
        intro hparents
        obtain ⟨hp, hrest⟩ := List.forall_mem_cons.mp hparents
        obtain ⟨hle, hreached⟩ := ihrest hrest
        have hgreatest := ih (hbound.parent hp)
        rw [List.map_cons, List.foldr_cons]
        refine ⟨List.forall_mem_cons.mpr ⟨⟨_, le_max_left _ _, hgreatest⟩, fun q hq => ?_⟩, ?_⟩
        · obtain ⟨d, hd, hq⟩ := hle q hq
          exact ⟨d, hd.trans (le_max_right _ _), hq⟩
        · obtain hmax | hmax := le_total ((rest.map (nodeDepth genome fuel)).foldr max 0)
            (nodeDepth genome fuel p)
          · rw [max_eq_left hmax]
            exact .inr ⟨p, List.mem_cons_self, hgreatest⟩
          · rw [max_eq_right hmax]
            exact hreached.imp_right fun ⟨q, hq, hq'⟩ => ⟨q, List.mem_cons_of_mem p hq, hq'⟩
    obtain ⟨hle, hreached⟩ := hloop (genome.parents nid) fun p hp => hp
    exact isGreatest_succ hle hreached

/-! ## The order of the compiler -/

section Orders

variable (hnd : genome.ids.Nodup)
include hnd

theorem sortedNodes_ids : genome.sortedNodes.map GenomeNode.id = kahn genome.ids genome.parents := by
  have hall : ∀ order : List String, (∀ id ∈ order, id ∈ genome.ids) →
      (order.filterMap genome.node?).map GenomeNode.id = order := by
    intro order
    induction order with
    | nil => exact fun _ => rfl
    | cons id order ih =>
      intro hmem
      obtain ⟨hid, hrest⟩ := List.forall_mem_cons.mp hmem
      obtain ⟨node, hn, rfl⟩ := List.mem_map.mp hid
      rw [List.filterMap_cons_some (node?_of_mem hnd hn), List.map_cons, ih hrest]
  exact hall _ fun id hid => mem_of_mem_kahn hnd hid

theorem sortedNodes_perm (hlen : (kahn genome.ids genome.parents).length = genome.ids.length) :
    genome.sortedNodes.Perm genome.nodes := by
  have hids : (kahn genome.ids genome.parents).Perm genome.ids :=
    (List.subperm_of_subset (kahn_nodup hnd) fun n hn => mem_of_mem_kahn hnd hn).perm_of_length_le
      hlen.ge
  have hnodes : genome.ids.filterMap genome.node? = genome.nodes := by
    rw [Genome.ids, List.filterMap_map]
    exact (List.filterMap_congr fun node hn => node?_of_mem hnd hn).trans List.filterMap_some
  unfold Genome.sortedNodes
  rw [← hnodes]
  exact hids.filterMap genome.node?

theorem sortedNodes_parentsFirst {before after : List GenomeNode} {node : GenomeNode}
    (hsplit : genome.sortedNodes = before ++ node :: after) {raw : String}
    (hraw : raw ∈ node.inputs) : (parseInputRef raw).1 ∈ before.map GenomeNode.id := by
  have hids := sortedNodes_ids hnd
  rw [hsplit, List.map_append, List.map_cons] at hids
  have hn : node ∈ genome.nodes := by
    have hmem : node ∈ genome.sortedNodes := by
      rw [hsplit]
      exact List.mem_append_right _ List.mem_cons_self
    obtain ⟨id, -, hnode⟩ := List.mem_filterMap.mp hmem
    exact KeyedTables.mem_of_lookup hnode
  refine (kahn_parentsFirst hnd).mem_before hids.symm ?_
  rw [parents_of_mem hnd hn]
  exact List.mem_map_of_mem hraw

end Orders

/-! ## The checks -/

theorem parents_mem_ids (hnd : genome.ids.Nodup)
    (hrefs : ∀ node ∈ genome.nodes, ∀ raw ∈ node.inputs, (parseInputRef raw).1 ∈ genome.ids) :
    ∀ id ∈ genome.ids, ∀ p ∈ genome.parents id, p ∈ genome.ids := by
  intro id hid p hp
  obtain ⟨node, hn, rfl⟩ := List.mem_map.mp hid
  rw [parents_of_mem hnd hn] at hp
  obtain ⟨raw, hraw, rfl⟩ := List.mem_map.mp hp
  exact hrefs node hn raw hraw

theorem assertAcyclic_eq_ok : assertAcyclic genome = .ok () ↔
    (kahn genome.ids genome.parents).length = genome.ids.length := by
  unfold assertAcyclic
  exact ensure_eq_ok

/-- The nodes of a genome have different ids and read nodes of the genome. The work list comes to its
end; the check accepts just the graphs without a cycle; in these the depth of a node is the number of
nodes on a longest path that ends in it; and the compiler orders an accepted genome. -/
theorem graph_checked (F : Type) [PriceFloat F] (genome : Genome) (hnd : genome.ids.Nodup)
    (hrefs : ∀ node ∈ genome.nodes, ∀ raw ∈ node.inputs, (parseInputRef raw).1 ∈ genome.ids) :
    ((visit genome.ids genome.parents)^[genome.nodes.length]
        (start genome.ids genome.parents)).queue = [] ∧
      (assertAcyclic genome = .ok () ↔
        ∀ id ∈ genome.ids, ¬ TransGen (fun id p => p ∈ genome.parents id) id id) ∧
      (assertAcyclic genome = .ok () → ∀ id ∈ genome.ids, ∃ d memo,
        depth genome genome.nodes.length [] id = some (d, memo) ∧
          IsGreatest (chainLengths genome.parents id) d ∧
          nodeDepth genome genome.nodes.length id = d) ∧
      ∀ maxDepth maxNodeCount, validateGenome F genome maxDepth maxNodeCount = .ok () →
        topologicalSort genome = .ok (genome.sortedNodes.map GenomeNode.id) ∧
          genome.sortedNodes.Perm genome.nodes ∧
          ∀ before node after, genome.sortedNodes = before ++ node :: after →
            ∀ raw ∈ node.inputs, (parseInputRef raw).1 ∈ before.map GenomeNode.id := by
  have hlength : genome.ids.length = genome.nodes.length := List.length_map ..
  have hids := parents_mem_ids hnd hrefs
  have hacyclic := length_kahn_iff hnd hids
  refine ⟨?_, ?_, ?_, ?_⟩
  · rw [← hlength]
    exact queue_eq_nil hnd
  · rw [assertAcyclic_eq_ok]
    exact hacyclic
  · intro hok id hid
    have hbound := bounded_ids hids (hacyclic.mp (assertAcyclic_eq_ok.mp hok)) hid
    rw [hlength] at hbound
    have hempty : Remembers genome [] := fun _ hentry => by cases hentry
    obtain ⟨d, memo, hdepth, hgreatest, -⟩ := depth_spec hbound hempty
    exact ⟨d, memo, hdepth, hgreatest, (nodeDepth_isGreatest hbound).unique hgreatest⟩
  · intro maxDepth maxNodeCount hvalid
    have hlen := (validateGenome_eq_ok.mp hvalid).2.2.2.1
    refine ⟨?_, sortedNodes_perm hnd hlen, fun before node after hsplit raw hraw =>
      sortedNodes_parentsFirst hnd hsplit hraw⟩
    rw [sortedNodes_ids hnd]
    exact if_pos (hlen.trans hlength)

theorem graph_checked_down :
    ((visit (extendedStrategy [] "down").genome.ids (extendedStrategy [] "down").genome.parents)^[
        (extendedStrategy [] "down").genome.nodes.length]
        (start (extendedStrategy [] "down").genome.ids
          (extendedStrategy [] "down").genome.parents)).queue = [] ∧
      ∃ d memo, depth (extendedStrategy [] "down").genome
          (extendedStrategy [] "down").genome.nodes.length [] "down" = some (d, memo) ∧
        IsGreatest (chainLengths (extendedStrategy [] "down").genome.parents "down") d := by
  obtain ⟨hqueue, -, hdepth, -⟩ := graph_checked (Option ℚ) (extendedStrategy [] "down").genome
    (by decide) (by decide +kernel)
  obtain ⟨d, memo, hd, hgreatest, -⟩ :=
    hdepth (toBool_eq_true.mp (by decide +kernel)) "down" (by decide)
  exact ⟨hqueue, d, memo, hd, hgreatest⟩

end QBackend.GenomeDsl
