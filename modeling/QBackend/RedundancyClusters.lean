import Mathlib.Data.List.Sort
import Mathlib.Data.Rat.Defs
import Mathlib.Logic.Function.Basic
import Mathlib.Order.WithBot

/-!
# Redundancy clusters

`cluster_redundant` of `features/scoring.py`: features whose correlation reaches the threshold are
joined, and the features with one root are a cluster. Of the ids of the features only their order is
used.
-/

namespace QBackend.Evidence

variable {Id : Type} [LinearOrder Id]

/-! ## Union and find -/

/-- `find`, which halves the path to the root; a path is not longer than the features are many. -/
def find : ℕ → (Id → Id) → Id → Id × (Id → Id)
  | 0, parent, node => (node, parent)
  | fuel + 1, parent, node =>
    if parent node = node then (node, parent)
    else find fuel (Function.update parent node (parent (parent node))) (parent (parent node))

/-- `union`: the root that is first in the order stays. -/
def union (fuel : ℕ) (parent : Id → Id) (left right : Id) : Id → Id :=
  let (rootLeft, parent) := find fuel parent left
  let (rootRight, parent) := find fuel parent right
  if rootLeft = rootRight then parent
  else if rootLeft < rootRight then Function.update parent rootRight rootLeft
  else Function.update parent rootLeft rootRight

/-- The pairs of features in the order of the two loops. -/
def pairs : List Id → List (Id × Id)
  | [] => []
  | left :: rest => rest.map (fun right => (left, right)) ++ pairs rest

/-- A pair that reaches the threshold is joined; a correlation that is not a number joins none. -/
def joinPair (fuel : ℕ) (corr : Id → Id → Option ℚ) (threshold : ℚ) (parent : Id → Id)
    (pair : Id × Id) : Id → Id :=
  match corr pair.1 pair.2 with
  | some value => if threshold ≤ value then union fuel parent pair.1 pair.2 else parent
  | none => parent

/-- `groups.setdefault(root, []).append(fid)` -/
def addToGroup (root fid : Id) : List (Id × List Id) → List (Id × List Id)
  | [] => [(root, [fid])]
  | (root', members) :: groups =>
    if root' = root then (root', members ++ [fid]) :: groups
    else (root', members) :: addToGroup root fid groups

/-- The groups of the features by their roots. -/
def groupByRoot (fuel : ℕ) : (Id → Id) → List (Id × List Id) → List Id → List (Id × List Id)
  | _, groups, [] => groups
  | parent, groups, fid :: rest =>
    let (root, parent) := find fuel parent fid
    groupByRoot fuel parent (addToGroup root fid groups) rest

/-- `members[0]` -/
def firstMember (members : List Id) : WithBot Id := members.head?

/-- `_union_find_components` -/
def unionFindComponents (features : List Id) (corr : Id → Id → Option ℚ) (threshold : ℚ) :
    List (List Id) :=
  let parent := (pairs features).foldl (joinPair features.length corr threshold) id
  let clusters := (groupByRoot features.length parent [] features).map fun group =>
    group.2.insertionSort (· ≤ ·)
  clusters.insertionSort fun a b => firstMember a ≤ firstMember b

/-! ## Clusters -/

structure RedundancyCluster (Id : Type) where
  clusterId : ℕ
  featureIds : List Id
  representative : Id

/-- The clusters of groups, numbered; the first member represents the group. -/
def enumerateClusters (groups : List (List Id)) (start : ℕ) : List (RedundancyCluster Id) :=
  (groups.zipIdx start).filterMap fun members =>
    members.1.head?.map fun representative => ⟨members.2, members.1, representative⟩

/-- `cluster_redundant` of the columns in their order; with less than two rows that have a
value every feature is a cluster. -/
def clusterRedundant (features : List Id) (rowCount : ℕ) (corr : Id → Id → Option ℚ)
    (threshold : ℚ) : List (RedundancyCluster Id) :=
  if rowCount < 2 then enumerateClusters (features.map fun fid => [fid]) 0
  else enumerateClusters (unionFindComponents features corr threshold) 0

/-- Clusters of features: every feature is in one of them, and one member of each represents it. -/
structure Clustering (features : List Id) where
  clusters : List (RedundancyCluster Id)
  ids_nodup : (clusters.map RedundancyCluster.clusterId).Nodup
  members_perm : (clusters.map RedundancyCluster.featureIds).flatten.Perm features
  representative_mem : ∀ c ∈ clusters, c.representative ∈ c.featureIds

/-! ## Roots -/

/-- Features before a feature. -/
def earlier (features : List Id) (fid : Id) : List Id := features.filter fun other => other < fid

/-- The parent of a feature is a feature that is not after it. -/
def Descends (features : List Id) (parent : Id → Id) : Prop :=
  ∀ fid ∈ features, parent fid ∈ features ∧ parent fid ≤ fid

variable {features : List Id} {parent : Id → Id} {fid : Id}

theorem length_earlier_lt {other : Id} (hother : other ∈ features) (hlt : other < fid) :
    (earlier features other).length < (earlier features fid).length := by
  have hsub : (earlier features other).Sublist (earlier features fid) := by
    refine List.monotone_filter_right _ fun x hx => ?_
    simp only [decide_eq_true_eq] at hx ⊢
    exact hx.trans hlt
  refine lt_of_le_of_ne hsub.length_le fun heq => ?_
  have hmem : other ∈ earlier features other := by
    rw [hsub.eq_of_length heq]
    exact List.mem_filter.mpr ⟨hother, by simpa using hlt⟩
  exact lt_irrefl other (by simpa using (List.mem_filter.mp hmem).2)

theorem Descends.update (h : Descends features parent) {node target : Id}
    (htarget : target ∈ features) (hle : target ≤ node) :
    Descends features (Function.update parent node target) := by
  intro fid hfid
  by_cases heq : fid = node
  · subst heq
    rw [Function.update_self]
    exact ⟨htarget, hle⟩
  · rw [Function.update_of_ne heq]
    exact h fid hfid

/-- The loop of `find` ends at a root before its fuel does. -/
theorem find_root {fuel : ℕ} (h : Descends features parent) (hfid : fid ∈ features)
    (hfuel : (earlier features fid).length ≤ fuel) :
    Descends features (find fuel parent fid).2 ∧ (find fuel parent fid).1 ∈ features ∧
      (find fuel parent fid).1 ≤ fid ∧
      (find fuel parent fid).2 (find fuel parent fid).1 = (find fuel parent fid).1 := by
  induction fuel generalizing parent fid with
  | zero =>
    have hge : fid ≤ parent fid := not_lt.mp fun hlt => ?_
    · exact ⟨h, hfid, le_rfl, le_antisymm (h fid hfid).2 hge⟩
    have hmem : parent fid ∈ earlier features fid :=
      List.mem_filter.mpr ⟨(h fid hfid).1, by simpa using hlt⟩
    rw [List.eq_nil_of_length_eq_zero (Nat.le_zero.mp hfuel)] at hmem
    cases hmem
  | succ fuel ih =>
    simp only [find]
    split
    next hroot => exact ⟨h, hfid, le_rfl, hroot⟩
    next hroot =>
      obtain ⟨hparent, hle⟩ := h fid hfid
      obtain ⟨hgrand, hgrandle⟩ := h _ hparent
      have hlt : parent (parent fid) < fid := hgrandle.trans_lt (lt_of_le_of_ne hle hroot)
      obtain ⟨hdescends, hmem, hroot, heq⟩ := ih (h.update hgrand hlt.le) hgrand
        (by have := length_earlier_lt hgrand hlt; omega)
      exact ⟨hdescends, hmem, hroot.trans hlt.le, heq⟩

theorem Descends.union (h : Descends features parent) {left right : Id} (hleft : left ∈ features)
    (hright : right ∈ features) : Descends features (union features.length parent left right) := by
  have hfuel : ∀ fid, (earlier features fid).length ≤ features.length := fun fid =>
    List.length_filter_le _ _
  obtain ⟨h, hrootLeft, -, -⟩ := find_root h hleft (hfuel left)
  obtain ⟨h, hrootRight, -, -⟩ := find_root h hright (hfuel right)
  simp only [Evidence.union]
  split
  · exact h
  · split
    next hlt => exact h.update hrootLeft hlt.le
    next hne hlt => exact h.update hrootRight (not_lt.mp hlt)

omit [LinearOrder Id] in
theorem mem_of_mem_pairs {pair : Id × Id} (h : pair ∈ pairs features) :
    pair.1 ∈ features ∧ pair.2 ∈ features := by
  induction features with
  | nil => cases h
  | cons left rest ih =>
    obtain h | h := List.mem_append.mp h
    · obtain ⟨right, hright, rfl⟩ := List.mem_map.mp h
      exact ⟨List.mem_cons_self, List.mem_cons_of_mem _ hright⟩
    · exact ⟨List.mem_cons_of_mem _ (ih h).1, List.mem_cons_of_mem _ (ih h).2⟩

theorem Descends.joinPair (h : Descends features parent) (corr : Id → Id → Option ℚ) (threshold : ℚ)
    {pair : Id × Id} (hpair : pair.1 ∈ features ∧ pair.2 ∈ features) :
    Descends features (joinPair features.length corr threshold parent pair) := by
  unfold Evidence.joinPair
  split
  · split
    · exact h.union hpair.1 hpair.2
    · exact h
  · exact h

theorem descends_joinPairs (features : List Id) (corr : Id → Id → Option ℚ) (threshold : ℚ) :
    Descends features ((pairs features).foldl (joinPair features.length corr threshold) id) := by
  suffices h : ∀ candidates : List (Id × Id),
      (∀ pair ∈ candidates, pair.1 ∈ features ∧ pair.2 ∈ features) → ∀ parent : Id → Id,
        Descends features parent →
          Descends features (candidates.foldl (joinPair features.length corr threshold) parent) from
    h _ (fun _ hpair => mem_of_mem_pairs hpair) _ fun fid hfid => ⟨hfid, le_rfl⟩
  intro candidates
  induction candidates with
  | nil => exact fun _ parent h => h
  | cons pair rest ih =>
    intro hpairs parent h
    obtain ⟨hpair, hrest⟩ := List.forall_mem_cons.mp hpairs
    exact ih hrest _ (h.joinPair corr threshold hpair)

/-! ## The groups are a partition -/

theorem addToGroup_perm (root fid : Id) (groups : List (Id × List Id)) :
    ((addToGroup root fid groups).map Prod.snd).flatten.Perm
      (fid :: (groups.map Prod.snd).flatten) := by
  induction groups with
  | nil => exact List.Perm.refl _
  | cons group groups ih =>
    obtain ⟨root', members⟩ := group
    unfold addToGroup
    split
    · rw [List.map_cons, List.map_cons, List.flatten_cons, List.flatten_cons, List.append_assoc]
      exact List.perm_middle
    · rw [List.map_cons, List.map_cons, List.flatten_cons, List.flatten_cons]
      exact (ih.append_left members).trans List.perm_middle

theorem addToGroup_ne_nil (root fid : Id) {groups : List (Id × List Id)}
    (h : ∀ group ∈ groups, group.2 ≠ []) : ∀ group ∈ addToGroup root fid groups, group.2 ≠ [] := by
  induction groups with
  | nil =>
    intro group hgroup
    obtain rfl := List.mem_singleton.mp hgroup
    exact List.cons_ne_nil _ _
  | cons first groups ih =>
    obtain ⟨root', members⟩ := first
    obtain ⟨hfirst, hrest⟩ := List.forall_mem_cons.mp h
    unfold addToGroup
    split
    · exact List.forall_mem_cons.mpr ⟨by simp, hrest⟩
    · exact List.forall_mem_cons.mpr ⟨hfirst, ih hrest⟩

theorem groupByRoot_spec (fuel : ℕ) (parent : Id → Id) (groups : List (Id × List Id))
    (rest : List Id) (h : ∀ group ∈ groups, group.2 ≠ []) :
    ((groupByRoot fuel parent groups rest).map Prod.snd).flatten.Perm
        ((groups.map Prod.snd).flatten ++ rest) ∧
      ∀ group ∈ groupByRoot fuel parent groups rest, group.2 ≠ [] := by
  induction rest generalizing parent groups with
  | nil => exact ⟨by rw [List.append_nil]; exact List.Perm.refl _, h⟩
  | cons fid rest ih =>
    obtain ⟨hperm, hne⟩ := ih (find fuel parent fid).2 _
      (addToGroup_ne_nil (find fuel parent fid).1 fid h)
    refine ⟨hperm.trans ?_, hne⟩
    exact ((addToGroup_perm _ fid groups).append_right rest).trans List.perm_middle.symm

theorem flatten_map_perm {α : Type} {f : List α → List α} (hf : ∀ xs, (f xs).Perm xs)
    (lists : List (List α)) : (lists.map f).flatten.Perm lists.flatten := by
  induction lists with
  | nil => exact List.Perm.refl _
  | cons xs lists ih =>
    rw [List.map_cons, List.flatten_cons, List.flatten_cons]
    exact (hf xs).append ih

theorem unionFindComponents_spec (features : List Id) (corr : Id → Id → Option ℚ) (threshold : ℚ) :
    (unionFindComponents features corr threshold).flatten.Perm features ∧
      ∀ members ∈ unionFindComponents features corr threshold, members ≠ [] := by
  unfold unionFindComponents
  obtain ⟨hperm, hne⟩ := groupByRoot_spec features.length
    ((pairs features).foldl (joinPair features.length corr threshold) id) [] features (by simp)
  constructor
  · refine ((List.perm_insertionSort (fun a b : List Id => firstMember a ≤ firstMember b)
      _).flatten).trans ?_
    have hsorted := (flatten_map_perm (List.perm_insertionSort (· ≤ ·)) _).trans hperm
    rw [List.map_map] at hsorted
    exact hsorted
  · intro members hmembers
    obtain ⟨group, hgroup, rfl⟩ := List.mem_map.mp ((List.mem_insertionSort _).mp hmembers)
    intro hnil
    have hperm := List.perm_insertionSort (· ≤ ·) group.2
    rw [hnil] at hperm
    exact hne group hgroup hperm.symm.eq_nil

/-! ## The clusters of the run -/

omit [LinearOrder Id] in
theorem enumerateClusters_spec (groups : List (List Id)) (start : ℕ)
    (h : ∀ members ∈ groups, members ≠ []) :
    (enumerateClusters groups start).map RedundancyCluster.clusterId =
        List.range' start groups.length ∧
      (enumerateClusters groups start).map RedundancyCluster.featureIds = groups ∧
      ∀ c ∈ enumerateClusters groups start, c.representative ∈ c.featureIds := by
  induction groups generalizing start with
  | nil => exact ⟨rfl, rfl, by simp [enumerateClusters]⟩
  | cons members groups ih =>
    obtain ⟨hmembers, hgroups⟩ := List.forall_mem_cons.mp h
    obtain ⟨hids, hfeatures, hrepresentative⟩ := ih (start + 1) hgroups
    cases members with
    | nil => exact absurd rfl hmembers
    | cons representative rest =>
      have hcons : enumerateClusters ((representative :: rest) :: groups) start =
          ⟨start, representative :: rest, representative⟩ ::
            enumerateClusters groups (start + 1) := rfl
      rw [hcons, List.map_cons, List.map_cons, hids, hfeatures]
      exact ⟨rfl, rfl, List.forall_mem_cons.mpr ⟨List.mem_cons_self, hrepresentative⟩⟩

/-- Groups that are a partition make a clustering. -/
def Clustering.ofGroups {features : List Id} (groups : List (List Id))
    (hperm : groups.flatten.Perm features) (hne : ∀ members ∈ groups, members ≠ []) :
    Clustering features where
  clusters := enumerateClusters groups 0
  ids_nodup := by
    rw [(enumerateClusters_spec groups 0 hne).1]
    exact List.nodup_range'
  members_perm := by
    rw [(enumerateClusters_spec groups 0 hne).2.1]
    exact hperm
  representative_mem := (enumerateClusters_spec groups 0 hne).2.2

end QBackend.Evidence
