import QBackend.ParentForests
import QBackend.RedundancyClusters
import Mathlib.Data.List.Pairwise

/-!
# Clusters are connected components

The loops of `_union_find_components` come to their end, two features have one root just when a chain
of pairs that reach the threshold joins them, and the order of the features does not matter.
-/

namespace QBackend.Evidence

open ParentForests Relation Function

/-! ## Loops that end -/

section Loops

variable {Id : Type} [LinearOrder Id]

/-- `find` when its loop is over within the fuel. -/
def find? : ℕ → (Id → Id) → Id → Option (Id × (Id → Id))
  | 0, parent, node => if parent node = node then some (node, parent) else none
  | fuel + 1, parent, node =>
    if parent node = node then some (node, parent)
    else find? fuel (update parent node (parent (parent node))) (parent (parent node))

def union? (fuel : ℕ) (parent : Id → Id) (left right : Id) : Option (Id → Id) := do
  let (rootLeft, parent) ← find? fuel parent left
  let (rootRight, parent) ← find? fuel parent right
  if rootLeft = rootRight then some parent
  else if rootLeft < rootRight then some (update parent rootRight rootLeft)
  else some (update parent rootLeft rootRight)

def joinPair? (fuel : ℕ) (corr : Id → Id → Option ℚ) (threshold : ℚ) (parent : Id → Id)
    (pair : Id × Id) : Option (Id → Id) :=
  match corr pair.1 pair.2 with
  | some value => if threshold ≤ value then union? fuel parent pair.1 pair.2 else some parent
  | none => some parent

def groupByRoot? (fuel : ℕ) :
    (Id → Id) → List (Id × List Id) → List Id → Option (List (Id × List Id))
  | _, groups, [] => some groups
  | parent, groups, fid :: rest => do
    let (root, parent) ← find? fuel parent fid
    groupByRoot? fuel parent (addToGroup root fid groups) rest

/-- The clusters when the loop of every `find` is over within as many passes as there are
features. -/
def unionFindComponents? (features : List Id) (corr : Id → Id → Option ℚ) (threshold : ℚ) :
    Option (List (List Id)) := do
  let parent ← (pairs features).foldlM (joinPair? features.length corr threshold) id
  let groups ← groupByRoot? features.length parent [] features
  let clusters := groups.map fun group => group.2.insertionSort (· ≤ ·)
  some (clusters.insertionSort fun a b => firstMember a ≤ firstMember b)

variable {features : List Id} {parent : Id → Id} {fid : Id}

theorem find?_eq {fuel : ℕ} (h : Descends features parent) (hfid : fid ∈ features)
    (hfuel : (earlier features fid).length ≤ fuel) :
    find? fuel parent fid = some (find fuel parent fid) := by
  induction fuel generalizing parent fid with
  | zero =>
    obtain ⟨-, -, -, hroot⟩ := find_root h hfid hfuel
    exact if_pos hroot
  | succ fuel ih =>
    unfold find? find
    by_cases hroot : parent fid = fid
    · rw [if_pos hroot, if_pos hroot]
    · rw [if_neg hroot, if_neg hroot]
      obtain ⟨hparent, hle⟩ := h fid hfid
      obtain ⟨hgrand, hgrandle⟩ := h _ hparent
      have hlt : parent (parent fid) < fid := hgrandle.trans_lt (lt_of_le_of_ne hle hroot)
      have hshorter := length_earlier_lt hgrand hlt
      exact ih (h.update hgrand hlt.le) hgrand (by omega)

theorem length_earlier_le (features : List Id) (fid : Id) :
    (earlier features fid).length ≤ features.length := List.length_filter_le _ _

theorem union?_eq (h : Descends features parent) {left right : Id} (hleft : left ∈ features)
    (hright : right ∈ features) :
    union? features.length parent left right = some (union features.length parent left right) := by
  have hfind := find_root h hleft (length_earlier_le features left)
  unfold union? union
  rw [find?_eq h hleft (length_earlier_le features left)]
  simp only [Option.bind_eq_bind, Option.bind_some]
  rw [find?_eq hfind.1 hright (length_earlier_le features right)]
  simp only [Option.bind_some]
  split_ifs <;> rfl

theorem joinPair?_eq (h : Descends features parent) (corr : Id → Id → Option ℚ) (threshold : ℚ)
    {pair : Id × Id} (hpair : pair.1 ∈ features ∧ pair.2 ∈ features) :
    joinPair? features.length corr threshold parent pair =
      some (joinPair features.length corr threshold parent pair) := by
  unfold joinPair? joinPair
  cases corr pair.1 pair.2 with
  | none => rfl
  | some value =>
    by_cases hreaches : threshold ≤ value
    · simp only [if_pos hreaches]
      exact union?_eq h hpair.1 hpair.2
    · simp only [if_neg hreaches]

theorem foldlM_joinPair?_eq (corr : Id → Id → Option ℚ) (threshold : ℚ)
    {candidates : List (Id × Id)}
    (hpairs : ∀ pair ∈ candidates, pair.1 ∈ features ∧ pair.2 ∈ features)
    (h : Descends features parent) :
    candidates.foldlM (joinPair? features.length corr threshold) parent =
      some (candidates.foldl (joinPair features.length corr threshold) parent) := by
  induction candidates generalizing parent with
  | nil => rfl
  | cons pair rest ih =>
    obtain ⟨hpair, hrest⟩ := List.forall_mem_cons.mp hpairs
    rw [List.foldlM_cons, joinPair?_eq h corr threshold hpair]
    exact ih hrest (h.joinPair corr threshold hpair)

theorem groupByRoot?_eq (groups : List (Id × List Id)) {rest : List Id}
    (hrest : ∀ fid ∈ rest, fid ∈ features) (h : Descends features parent) :
    groupByRoot? features.length parent groups rest =
      some (groupByRoot features.length parent groups rest) := by
  induction rest generalizing parent groups with
  | nil => rfl
  | cons fid rest ih =>
    obtain ⟨hfid, hrest⟩ := List.forall_mem_cons.mp hrest
    have hfind := find_root h hfid (length_earlier_le features fid)
    unfold groupByRoot? groupByRoot
    rw [find?_eq h hfid (length_earlier_le features fid)]
    exact ih _ hrest hfind.1

theorem unionFindComponents?_eq (features : List Id) (corr : Id → Id → Option ℚ) (threshold : ℚ) :
    unionFindComponents? features corr threshold =
      some (unionFindComponents features corr threshold) := by
  have hdescends : Descends features id := fun fid hfid => ⟨hfid, le_rfl⟩
  unfold unionFindComponents? unionFindComponents
  rw [foldlM_joinPair?_eq corr threshold (fun _ hpair => mem_of_mem_pairs hpair) hdescends]
  simp only [Option.bind_eq_bind, Option.bind_some]
  rw [groupByRoot?_eq [] (fun fid hfid => hfid) (descends_joinPairs features corr threshold)]
  rfl

end Loops

/-! ## Links -/

section Links

variable {Id : Type} [LinearOrder Id] {features : List Id} {parent : Id → Id} {fid : Id}

theorem find_linked (fuel : ℕ) (parent : Id → Id) (node : Id) :
    (∀ a b, Linked (find fuel parent node).2 a b ↔ Linked parent a b) ∧
      Linked parent node (find fuel parent node).1 := by
  induction fuel generalizing parent node with
  | zero => exact ⟨fun _ _ => Iff.rfl, .refl node⟩
  | succ fuel ih =>
    unfold find
    by_cases hroot : parent node = node
    · rw [if_pos hroot]
      exact ⟨fun _ _ => Iff.rfl, .refl node⟩
    · rw [if_neg hroot]
      obtain ⟨hlinks, hfound⟩ := ih (update parent node (parent (parent node)))
        (parent (parent node))
      refine ⟨fun a b => (hlinks a b).trans (linked_halve node a b), ?_⟩
      have hgrand := (linked_parent parent node).trans (linked_parent parent (parent node))
      exact hgrand.trans ((linked_halve node _ _).mp hfound)

theorem find_root_kept {root : Id} (fuel : ℕ) (node : Id) (hroot : parent root = root) :
    (find fuel parent node).2 root = root := by
  induction fuel generalizing parent node with
  | zero => exact hroot
  | succ fuel ih =>
    unfold find
    by_cases hnode : parent node = node
    · rw [if_pos hnode]
      exact hroot
    · rw [if_neg hnode]
      have hne : root ≠ node := by
        rintro rfl
        exact hnode hroot
      refine ih _ ?_
      rw [update_of_ne hne]
      exact hroot

theorem union_linked (h : Descends features parent) {left right : Id} (hleft : left ∈ features)
    (hright : right ∈ features) (a b : Id) :
    Linked (union features.length parent left right) a b ↔
      EqvGen (fun a b => Linked parent a b ∨ a = left ∧ b = right) a b := by
  obtain ⟨hdescends, -, -, hrootLeft⟩ := find_root h hleft (length_earlier_le features left)
  obtain ⟨-, -, -, hrootRight⟩ := find_root hdescends hright (length_earlier_le features right)
  have hkept := find_root_kept features.length right hrootLeft
  obtain ⟨hlinksLeft, hfoundLeft⟩ := find_linked features.length parent left
  obtain ⟨hlinksRight, hfoundRight⟩ :=
    find_linked features.length (find features.length parent left).2 right
  unfold union
  simp only
  generalize find features.length parent left = foundLeft at *
  generalize find features.length foundLeft.2 right = foundRight at *
  have hlinks : ∀ a b, Linked foundRight.2 a b ↔ Linked parent a b := fun a b =>
    (hlinksRight a b).trans (hlinksLeft a b)
  rw [hlinksLeft] at hfoundRight
  by_cases heq : foundLeft.1 = foundRight.1
  · rw [if_pos heq, hlinks]
    refine ⟨fun hab => .rel _ _ (.inl hab), EqvGen.eqvGen_le ?_ a b⟩
    rintro a b (hab | ⟨rfl, rfl⟩)
    · exact hab
    · exact hfoundLeft.trans (heq ▸ hfoundRight.symm)
  rw [if_neg heq]
  -- the link between the roots is that between the features
  have hroots : ∀ r s, (r = foundLeft.1 ∧ s = foundRight.1 ∨ r = foundRight.1 ∧ s = foundLeft.1) →
      ∀ a b, EqvGen (fun a b => Linked foundRight.2 a b ∨ a = r ∧ b = s) a b ↔
        EqvGen (fun a b => Linked parent a b ∨ a = left ∧ b = right) a b := by
    intro r s hrs
    have hbetween : EqvGen (fun a b => Linked parent a b ∨ a = left ∧ b = right)
        foundLeft.1 foundRight.1 :=
      ((EqvGen.rel _ _ (.inl hfoundLeft.symm)).trans _ _ _ (.rel _ _ (.inr ⟨rfl, rfl⟩))).trans
        _ _ _ (.rel _ _ (.inl hfoundRight))
    have hagain : EqvGen (fun a b => Linked foundRight.2 a b ∨ a = r ∧ b = s)
        foundLeft.1 foundRight.1 := by
      obtain ⟨rfl, rfl⟩ | ⟨rfl, rfl⟩ := hrs
      · exact .rel _ _ (.inr ⟨rfl, rfl⟩)
      · exact .symm _ _ (.rel _ _ (.inr ⟨rfl, rfl⟩))
    refine eqvGen_iff ?_ ?_
    · rintro a b (hab | ⟨rfl, rfl⟩)
      · exact .rel _ _ (.inl ((hlinks a b).mp hab))
      · obtain ⟨rfl, rfl⟩ | ⟨rfl, rfl⟩ := hrs
        · exact hbetween
        · exact hbetween.symm
    · rintro a b (hab | ⟨rfl, rfl⟩)
      · exact .rel _ _ (.inl ((hlinks a b).mpr hab))
      · have hfirst := (hlinks _ _).mpr hfoundLeft
        have hlast := (hlinks _ _).mpr hfoundRight
        exact ((EqvGen.rel _ _ (.inl hfirst)).trans _ _ _ hagain).trans _ _ _
          (.rel _ _ (.inl hlast.symm))
  by_cases hlt : foundLeft.1 < foundRight.1
  · rw [if_pos hlt, linked_update_root hrootRight]
    exact hroots _ _ (.inr ⟨rfl, rfl⟩) a b
  · rw [if_neg hlt, linked_update_root hkept]
    exact hroots _ _ (.inl ⟨rfl, rfl⟩) a b

/-- The correlation is a number that reaches the threshold. -/
def Correlated (corr : Id → Id → Option ℚ) (threshold : ℚ) (a b : Id) : Prop :=
  ∃ value, corr a b = some value ∧ threshold ≤ value

theorem joinPair_linked (h : Descends features parent) (corr : Id → Id → Option ℚ) (threshold : ℚ)
    {pair : Id × Id} (hpair : pair.1 ∈ features ∧ pair.2 ∈ features) (a b : Id) :
    Linked (joinPair features.length corr threshold parent pair) a b ↔
      EqvGen (fun a b => Linked parent a b ∨ Correlated corr threshold a b ∧ (a, b) = pair) a b := by
  have hnone : ¬ Correlated corr threshold pair.1 pair.2 → (Linked parent a b ↔
      EqvGen (fun a b => Linked parent a b ∨ Correlated corr threshold a b ∧ (a, b) = pair)
        a b) := by
    intro hnot
    refine ⟨fun hab => .rel _ _ (.inl hab), EqvGen.eqvGen_le ?_ a b⟩
    rintro a b (hab | ⟨hcorrelated, rfl⟩)
    · exact hab
    · exact absurd hcorrelated hnot
  unfold joinPair
  cases hvalue : corr pair.1 pair.2 with
  | none =>
    refine hnone ?_
    rintro ⟨value, hsome, -⟩
    rw [hvalue] at hsome
    cases hsome
  | some value =>
    by_cases hreaches : threshold ≤ value
    · simp only [if_pos hreaches]
      rw [union_linked h hpair.1 hpair.2]
      refine eqvGen_iff ?_ ?_ a b
      · rintro a b (hab | ⟨rfl, rfl⟩)
        · exact .rel _ _ (.inl hab)
        · exact .rel _ _ (.inr ⟨⟨value, hvalue, hreaches⟩, rfl⟩)
      · rintro a b (hab | ⟨-, rfl⟩)
        · exact .rel _ _ (.inl hab)
        · exact .rel _ _ (.inr ⟨rfl, rfl⟩)
    · simp only [if_neg hreaches]
      refine hnone ?_
      rintro ⟨other, hsome, hle⟩
      obtain rfl := Option.some.inj (hvalue.symm.trans hsome)
      exact hreaches hle

theorem joinPairs_linked (corr : Id → Id → Option ℚ) (threshold : ℚ) {candidates : List (Id × Id)}
    (hpairs : ∀ pair ∈ candidates, pair.1 ∈ features ∧ pair.2 ∈ features)
    (h : Descends features parent) (a b : Id) :
    Linked (candidates.foldl (joinPair features.length corr threshold) parent) a b ↔
      EqvGen (fun a b => Linked parent a b ∨ Correlated corr threshold a b ∧ (a, b) ∈ candidates)
        a b := by
  induction candidates generalizing parent a b with
  | nil =>
    refine ⟨fun hab => .rel _ _ (.inl hab), EqvGen.eqvGen_le ?_ a b⟩
    rintro a b (hab | ⟨-, hmem⟩)
    · exact hab
    · cases hmem
  | cons pair rest ih =>
    obtain ⟨hpair, hrest⟩ := List.forall_mem_cons.mp hpairs
    rw [List.foldl_cons, ih hrest (h.joinPair corr threshold hpair)]
    have hfirst := joinPair_linked h corr threshold hpair
    refine eqvGen_iff ?_ ?_ a b
    · rintro a b (hab | ⟨hcorrelated, hmem⟩)
      · refine EqvGen.mono ?_ a b ((hfirst a b).mp hab)
        rintro a b (hab | ⟨hcorrelated, rfl⟩)
        · exact .inl hab
        · exact .inr ⟨hcorrelated, List.mem_cons_self⟩
      · exact .rel _ _ (.inr ⟨hcorrelated, List.mem_cons_of_mem pair hmem⟩)
    · rintro a b (hab | ⟨hcorrelated, hmem⟩)
      · exact .rel _ _ (.inl ((hfirst a b).mpr (.rel _ _ (.inl hab))))
      · obtain heq | hmem := List.mem_cons.mp hmem
        · exact .rel _ _ (.inl ((hfirst a b).mpr (.rel _ _ (.inr ⟨hcorrelated, heq⟩))))
        · exact .rel _ _ (.inr ⟨hcorrelated, hmem⟩)

end Links

/-! ## Chains of pairs -/

section Chains

variable {Id : Type} [LinearOrder Id] {features : List Id}

/-- Two features whose correlation reaches the threshold. -/
def Joined (features : List Id) (corr : Id → Id → Option ℚ) (threshold : ℚ) (a b : Id) : Prop :=
  a ∈ features ∧ b ∈ features ∧ a ≠ b ∧ Correlated corr threshold a b

omit [LinearOrder Id] in
theorem mem_pairs (hnd : features.Nodup) {a b : Id} (ha : a ∈ features) (hb : b ∈ features)
    (hne : a ≠ b) : (a, b) ∈ pairs features ∨ (b, a) ∈ pairs features := by
  induction features with
  | nil => cases ha
  | cons first rest ih =>
    obtain ⟨-, hrest⟩ := List.nodup_cons.mp hnd
    simp only [pairs, List.mem_append, List.mem_map]
    obtain rfl | ha' := List.mem_cons.mp ha
    · exact .inl (.inl ⟨b, (List.mem_cons.mp hb).resolve_left (Ne.symm hne), rfl⟩)
    obtain rfl | hb' := List.mem_cons.mp hb
    · exact .inr (.inl ⟨a, ha', rfl⟩)
    · exact (ih hrest ha' hb').imp .inr .inr

omit [LinearOrder Id] in
theorem ne_of_mem_pairs (hnd : features.Nodup) {a b : Id} (h : (a, b) ∈ pairs features) :
    a ≠ b := by
  induction features with
  | nil => cases h
  | cons first rest ih =>
    obtain ⟨hfirst, hrest⟩ := List.nodup_cons.mp hnd
    obtain h | h := List.mem_append.mp h
    · obtain ⟨right, hright, heq⟩ := List.mem_map.mp h
      obtain ⟨rfl, rfl⟩ := Prod.mk.inj heq
      rintro rfl
      exact hfirst hright
    · exact ih hrest h

variable {corr : Id → Id → Option ℚ} {threshold : ℚ}

omit [LinearOrder Id] in
theorem joined_symm (hsymm : ∀ a b, corr a b = corr b a) {a b : Id}
    (h : Joined features corr threshold a b) : Joined features corr threshold b a := by
  obtain ⟨ha, hb, hne, value, hvalue, hle⟩ := h
  exact ⟨hb, ha, hne.symm, value, (hsymm b a).trans hvalue, hle⟩

/-- Features are linked in the end just when a chain of pairs joins them. -/
theorem linked_iff_chain (hnd : features.Nodup) (hsymm : ∀ a b, corr a b = corr b a) (a b : Id) :
    Linked ((pairs features).foldl (joinPair features.length corr threshold) id) a b ↔
      ReflTransGen (Joined features corr threshold) a b := by
  have hsym : Std.Symm (Joined features corr threshold) := ⟨fun _ _ => joined_symm hsymm⟩
  have hequiv : IsEquiv Id (ReflTransGen (Joined features corr threshold)) := {}
  have hdescends : Descends features id := fun fid hfid => ⟨hfid, le_rfl⟩
  rw [joinPairs_linked corr threshold (fun _ hpair => mem_of_mem_pairs hpair) hdescends]
  constructor
  · refine EqvGen.eqvGen_le ?_ a b
    rintro a b (hab | ⟨hcorrelated, hmem⟩)
    · obtain rfl := linked_id.mp hab
      exact .refl
    · have hfeatures := mem_of_mem_pairs hmem
      exact .single ⟨hfeatures.1, hfeatures.2, ne_of_mem_pairs hnd hmem, hcorrelated⟩
  · refine reflTransGen_le_of_le ?_ a b
    rintro a b ⟨ha, hb, hne, value, hvalue, hle⟩
    obtain hmem | hmem := mem_pairs hnd ha hb hne
    · exact .rel _ _ (.inr ⟨⟨value, hvalue, hle⟩, hmem⟩)
    · exact .symm _ _ (.rel _ _ (.inr ⟨⟨value, (hsymm b a).trans hvalue, hle⟩, hmem⟩))

end Chains

/-! ## Groups -/

section Groups

variable {Id : Type} [LinearOrder Id] {features : List Id} {parent : Id → Id}
  {groups : List (Id × List Id)} {root fid : Id}

/-- Every group is under a root of its own, which its members are linked with. -/
structure Grouped (parent : Id → Id) (groups : List (Id × List Id)) : Prop where
  nodup : (groups.map Prod.fst).Nodup
  root : ∀ group ∈ groups, parent group.1 = group.1
  linked : ∀ group ∈ groups, ∀ fid ∈ group.2, Linked parent fid group.1

theorem mem_addToGroup {group : Id × List Id} (h : group ∈ addToGroup root fid groups) :
    group ∈ groups ∨ group.1 = root ∧ ∀ other ∈ group.2, other = fid ∨
      ∃ members, (root, members) ∈ groups ∧ other ∈ members := by
  induction groups with
  | nil =>
    obtain rfl := List.mem_singleton.mp h
    exact .inr ⟨rfl, fun other hother => .inl (List.mem_singleton.mp hother)⟩
  | cons first groups ih =>
    obtain ⟨root', members⟩ := first
    unfold addToGroup at h
    split at h
    next heq =>
      subst heq
      obtain rfl | h := List.mem_cons.mp h
      · refine .inr ⟨rfl, fun other hother => ?_⟩
        obtain hother | hother := List.mem_append.mp hother
        · exact .inr ⟨members, List.mem_cons_self, hother⟩
        · exact .inl (List.mem_singleton.mp hother)
      · exact .inl (List.mem_cons_of_mem _ h)
    next =>
      obtain rfl | h := List.mem_cons.mp h
      · exact .inl List.mem_cons_self
      · obtain h | ⟨hroot, hmembers⟩ := ih h
        · exact .inl (List.mem_cons_of_mem _ h)
        · refine .inr ⟨hroot, fun other hother => (hmembers other hother).imp_right ?_⟩
          rintro ⟨members', hmem, hother⟩
          exact ⟨members', List.mem_cons_of_mem _ hmem, hother⟩

theorem map_fst_addToGroup (root fid : Id) (groups : List (Id × List Id)) :
    (addToGroup root fid groups).map Prod.fst =
      if root ∈ groups.map Prod.fst then groups.map Prod.fst
      else groups.map Prod.fst ++ [root] := by
  induction groups with
  | nil => rfl
  | cons first groups ih =>
    obtain ⟨root', members⟩ := first
    unfold addToGroup
    by_cases heq : root' = root
    · rw [if_pos heq, if_pos (by rw [heq]; exact List.mem_cons_self)]
      rfl
    · rw [if_neg heq, List.map_cons, ih]
      have hmem : root ∈ ((root', members) :: groups).map Prod.fst ↔ root ∈ groups.map Prod.fst := by
        rw [List.map_cons, List.mem_cons]
        exact or_iff_right fun h => heq h.symm
      by_cases hroot : root ∈ groups.map Prod.fst
      · rw [if_pos hroot, if_pos (hmem.mpr hroot)]
        rfl
      · rw [if_neg hroot, if_neg fun h => hroot (hmem.mp h)]
        rfl

theorem Grouped.add (h : Grouped parent groups) (hroot : parent root = root)
    (hfid : Linked parent fid root) : Grouped parent (addToGroup root fid groups) where
  nodup := by
    rw [map_fst_addToGroup]
    by_cases hmem : root ∈ groups.map Prod.fst
    · rw [if_pos hmem]
      exact h.nodup
    · rw [if_neg hmem]
      exact List.nodup_append.mpr ⟨h.nodup, List.nodup_singleton root, fun a ha b hb heq =>
        hmem (List.mem_singleton.mp hb ▸ heq ▸ ha)⟩
  root group hgroup := by
    obtain hgroup | ⟨rfl, -⟩ := mem_addToGroup hgroup
    · exact h.root group hgroup
    · exact hroot
  linked group hgroup other hother := by
    obtain hgroup | ⟨rfl, hmembers⟩ := mem_addToGroup hgroup
    · exact h.linked group hgroup other hother
    · obtain rfl | ⟨members, hmem, hother⟩ := hmembers other hother
      · exact hfid
      · exact h.linked _ hmem other hother

theorem Grouped.find (h : Grouped parent groups) (fuel : ℕ) (node : Id) :
    Grouped (Evidence.find fuel parent node).2 groups where
  nodup := h.nodup
  root group hgroup := find_root_kept fuel node (h.root group hgroup)
  linked group hgroup fid hfid :=
    ((find_linked fuel parent node).1 fid group.1).mpr (h.linked group hgroup fid hfid)

theorem groupByRoot_grouped {rest : List Id} (hrest : ∀ fid ∈ rest, fid ∈ features)
    (hdescends : Descends features parent) (h : Grouped parent groups) :
    ∃ parent', (∀ a b, Linked parent' a b ↔ Linked parent a b) ∧
      Grouped parent' (groupByRoot features.length parent groups rest) := by
  induction rest generalizing parent groups with
  | nil => exact ⟨parent, fun _ _ => Iff.rfl, h⟩
  | cons fid rest ih =>
    obtain ⟨hfid, hrest⟩ := List.forall_mem_cons.mp hrest
    obtain ⟨hdescends', -, -, hroot⟩ :=
      find_root hdescends hfid (length_earlier_le features fid)
    obtain ⟨hlinks, hfound⟩ := find_linked features.length parent fid
    obtain ⟨parent', hlinks', hgrouped⟩ := ih hrest hdescends'
      ((h.find features.length fid).add hroot ((hlinks _ _).mpr hfound))
    exact ⟨parent', fun a b => (hlinks' a b).trans (hlinks a b), hgrouped⟩

omit [LinearOrder Id] in
theorem Grouped.eq_of_linked (h : Grouped parent groups) {group group' : Id × List Id}
    (hgroup : group ∈ groups) (hgroup' : group' ∈ groups) {a b : Id} (ha : a ∈ group.2)
    (hb : b ∈ group'.2) (hab : Linked parent a b) : group = group' := by
  have hroots : Linked parent group.1 group'.1 :=
    (h.linked group hgroup a ha).symm.trans (hab.trans (h.linked group' hgroup' b hb))
  exact List.inj_on_of_nodup_map h.nodup hgroup hgroup'
    (hroots.eq_of_roots (h.root group hgroup) (h.root group' hgroup'))

end Groups

/-! ## Clusters -/

section Clusters

variable {Id : Type} [LinearOrder Id] {features : List Id} {corr : Id → Id → Option ℚ}
  {threshold : ℚ}

theorem shares_iff_chain (hnd : features.Nodup) (hsymm : ∀ a b, corr a b = corr b a) {a b : Id}
    (ha : a ∈ features) (hb : b ∈ features) :
    (∃ members ∈ unionFindComponents features corr threshold, a ∈ members ∧ b ∈ members) ↔
      ReflTransGen (Joined features corr threshold) a b := by
  have hgrouped : ∃ parent', (∀ a b, Linked parent' a b ↔ Linked
        ((pairs features).foldl (joinPair features.length corr threshold) id) a b) ∧
      Grouped parent' (groupByRoot features.length
        ((pairs features).foldl (joinPair features.length corr threshold) id) [] features) :=
    groupByRoot_grouped (fun _ hfid => hfid) (descends_joinPairs features corr threshold)
      ⟨List.nodup_nil, fun _ hgroup => (by cases hgroup), fun _ hgroup => (by cases hgroup)⟩
  have hperm := (groupByRoot_spec features.length
    ((pairs features).foldl (joinPair features.length corr threshold) id) [] features (by simp)).1
  rw [← linked_iff_chain hnd hsymm]
  obtain ⟨parent', hlinks, hgrouped⟩ := hgrouped
  have hmem : ∀ members, members ∈ unionFindComponents features corr threshold ↔
      ∃ group ∈ groupByRoot features.length
        ((pairs features).foldl (joinPair features.length corr threshold) id) [] features,
        group.2.insertionSort (· ≤ ·) = members := by
    intro members
    unfold unionFindComponents
    rw [List.mem_insertionSort, List.mem_map]
  generalize groupByRoot features.length
    ((pairs features).foldl (joinPair features.length corr threshold) id) [] features = groups at *
  rw [← hlinks]
  constructor
  · rintro ⟨members, hmembers, hain, hbin⟩
    obtain ⟨group, hgroup, rfl⟩ := (hmem members).mp hmembers
    have hfrom := hgrouped.linked group hgroup a ((List.mem_insertionSort _).mp hain)
    exact hfrom.trans (hgrouped.linked group hgroup b ((List.mem_insertionSort _).mp hbin)).symm
  · intro hab
    have hgroupOf : ∀ fid ∈ features, ∃ group ∈ groups, fid ∈ group.2 := by
      intro fid hfid
      obtain ⟨members, hmembers, hin⟩ := List.mem_flatten.mp (hperm.symm.subset hfid)
      obtain ⟨group, hgroup, rfl⟩ := List.mem_map.mp hmembers
      exact ⟨group, hgroup, hin⟩
    obtain ⟨group, hgroup, hain⟩ := hgroupOf a ha
    obtain ⟨group', hgroup', hbin⟩ := hgroupOf b hb
    obtain rfl := hgrouped.eq_of_linked hgroup hgroup' hain hbin hab
    exact ⟨_, (hmem _).mpr ⟨group, hgroup, rfl⟩, (List.mem_insertionSort _).mpr hain,
      (List.mem_insertionSort _).mpr hbin⟩

theorem components_sorted (features : List Id) (corr : Id → Id → Option ℚ) (threshold : ℚ) :
    (unionFindComponents features corr threshold).Pairwise
        (fun a b => firstMember a ≤ firstMember b) ∧
      ∀ members ∈ unionFindComponents features corr threshold, members.Pairwise (· ≤ ·) := by
  have htotal : Std.Total fun a b : List Id => firstMember a ≤ firstMember b :=
    ⟨fun a b => le_total (firstMember a) (firstMember b)⟩
  have htrans : IsTrans (List Id) fun a b => firstMember a ≤ firstMember b :=
    ⟨fun _ _ _ => le_trans⟩
  constructor
  · exact List.pairwise_insertionSort _ _
  · intro members hmembers
    obtain ⟨group, -, rfl⟩ := List.mem_map.mp ((List.mem_insertionSort _).mp hmembers)
    exact List.pairwise_insertionSort _ _

omit [LinearOrder Id] in
theorem eq_of_mem_partition {lists : List (List Id)} (hnd : lists.flatten.Nodup)
    {members members' : List Id} (h : members ∈ lists) (h' : members' ∈ lists) {a : Id}
    (ha : a ∈ members) (ha' : a ∈ members') : members = members' := by
  by_contra hne
  have hsymm : Std.Symm (List.Disjoint : List Id → List Id → Prop) :=
    ⟨fun _ _ hdisjoint _ ha hb => hdisjoint hb ha⟩
  exact (List.nodup_flatten.mp hnd).2.forall h h' hne ha ha'

theorem nodup_components (hnd : features.Nodup) :
    (unionFindComponents features corr threshold).flatten.Nodup :=
  (unionFindComponents_spec features corr threshold).1.nodup_iff.mpr hnd

theorem components_subset {features' : List Id} (hnd : features.Nodup)
    (hsymm : ∀ a b, corr a b = corr b a) (hperm : features'.Perm features) :
    unionFindComponents features' corr threshold ⊆ unionFindComponents features corr threshold := by
  have hnd' : features'.Nodup := hperm.nodup_iff.mpr hnd
  obtain ⟨hflatten, -⟩ := unionFindComponents_spec features corr threshold
  obtain ⟨hflatten', hne'⟩ := unionFindComponents_spec features' corr threshold
  have hjoined : Joined features' corr threshold = Joined features corr threshold := by
    funext a b
    unfold Joined
    rw [hperm.mem_iff, hperm.mem_iff]
  intro members' hmembers'
  obtain ⟨a, ha'⟩ := List.exists_mem_of_ne_nil members' (hne' members' hmembers')
  have hin : ∀ {fid : Id}, fid ∈ members' → fid ∈ features' := fun hfid =>
    hflatten'.subset (List.mem_flatten.mpr ⟨members', hmembers', hfid⟩)
  obtain ⟨members, hmembers, ha⟩ :=
    List.mem_flatten.mp (hflatten.symm.subset (hperm.subset (hin ha')))
  have hfeature : ∀ {fid : Id}, fid ∈ members → fid ∈ features := fun hfid =>
    hflatten.subset (List.mem_flatten.mpr ⟨members, hmembers, hfid⟩)
  -- the two clusters of one feature have the same members
  have hsame : ∀ b, b ∈ members' ↔ b ∈ members := by
    intro b
    constructor
    · intro hb
      have hchain := (shares_iff_chain hnd' hsymm (hin ha') (hin hb)).mp
        ⟨members', hmembers', ha', hb⟩
      rw [hjoined] at hchain
      obtain ⟨other, hother, haother, hbother⟩ := (shares_iff_chain hnd hsymm (hfeature ha)
        (hperm.subset (hin hb))).mpr hchain
      rw [eq_of_mem_partition (nodup_components hnd) hmembers hother ha haother]
      exact hbother
    · intro hb
      have hchain := (shares_iff_chain hnd hsymm (hfeature ha) (hfeature hb)).mp
        ⟨members, hmembers, ha, hb⟩
      rw [← hjoined] at hchain
      obtain ⟨other, hother, haother, hbother⟩ := (shares_iff_chain hnd' hsymm (hin ha')
        (hperm.symm.subset (hfeature hb))).mpr hchain
      rw [eq_of_mem_partition (nodup_components hnd') hmembers' hother ha' haother]
      exact hbother
  have hnodup := (List.nodup_flatten.mp (nodup_components hnd)).1 members hmembers
  have hnodup' := (List.nodup_flatten.mp (nodup_components hnd')).1 members' hmembers'
  have heq : members' = members :=
    ((List.perm_ext_iff_of_nodup hnodup' hnodup).mpr hsame).eq_of_pairwise
      (fun _ _ _ _ => le_antisymm) ((components_sorted _ _ _).2 _ hmembers')
      ((components_sorted _ _ _).2 _ hmembers)
  rw [heq]
  exact hmembers

theorem components_eq_of_perm {features' : List Id} (hnd : features.Nodup)
    (hsymm : ∀ a b, corr a b = corr b a) (hperm : features'.Perm features) :
    unionFindComponents features' corr threshold = unionFindComponents features corr threshold := by
  have hnd' : features'.Nodup := hperm.nodup_iff.mpr hnd
  have hlists : ∀ {fs : List Id}, fs.Nodup → (unionFindComponents fs corr threshold).Nodup := by
    intro fs hfs
    refine (List.nodup_flatten.mp (nodup_components hfs)).2.imp_of_mem ?_
    rintro members _ hmembers - hdisjoint rfl
    obtain ⟨a, ha⟩ := List.exists_mem_of_ne_nil members
      ((unionFindComponents_spec fs corr threshold).2 members hmembers)
    exact hdisjoint ha ha
  have hclusters : (unionFindComponents features' corr threshold).Perm
      (unionFindComponents features corr threshold) := by
    refine (List.perm_ext_iff_of_nodup (hlists hnd') (hlists hnd)).mpr fun members => ⟨?_, ?_⟩
    · exact fun h => components_subset hnd hsymm hperm h
    · exact fun h => components_subset hnd' hsymm hperm.symm h
  refine hclusters.eq_of_pairwise ?_ (components_sorted _ _ _).1 (components_sorted _ _ _).1
  intro members members' hmembers hmembers' hle hge
  have hmembers := components_subset hnd hsymm hperm hmembers
  -- clusters with the same first member are the same
  have hfirst : firstMember members = firstMember members' := le_antisymm hle hge
  obtain ⟨a, ha⟩ := Option.ne_none_iff_exists'.mp fun hnone =>
    (unionFindComponents_spec features corr threshold).2 members hmembers
      (List.head?_eq_none_iff.mp hnone)
  have ha' : members'.head? = some a := hfirst.symm.trans ha
  exact eq_of_mem_partition (nodup_components hnd) hmembers hmembers' (List.mem_of_head? ha)
    (List.mem_of_head? ha')

/-- The loops end with a partition of the features in which two of them share a cluster just when a
chain of pairs that reach the threshold joins them, whatever their order. -/
theorem components_connected (features : List Id) (corr : Id → Id → Option ℚ) (threshold : ℚ)
    (hnd : features.Nodup) (hsymm : ∀ a b, corr a b = corr b a) :
    unionFindComponents? features corr threshold =
        some (unionFindComponents features corr threshold) ∧
      (unionFindComponents features corr threshold).flatten.Perm features ∧
      (∀ members ∈ unionFindComponents features corr threshold, members ≠ []) ∧
      (∀ a ∈ features, ∀ b ∈ features,
        ((∃ members ∈ unionFindComponents features corr threshold, a ∈ members ∧ b ∈ members) ↔
          ReflTransGen (Joined features corr threshold) a b)) ∧
      ∀ features', features'.Perm features →
        unionFindComponents features' corr threshold =
          unionFindComponents features corr threshold := by
  obtain ⟨hperm, hne⟩ := unionFindComponents_spec features corr threshold
  exact ⟨unionFindComponents?_eq features corr threshold, hperm, hne,
    fun a ha b hb => shares_iff_chain hnd hsymm ha hb,
    fun features' hfeatures => components_eq_of_perm hnd hsymm hfeatures⟩

/-- Four features in a chain; the other correlations are undefined. -/
def chainCorrelation (a b : ℕ) : Option ℚ :=
  if a + b = 3 then some (9 / 10) else if a + b = 5 then some (8 / 10) else none

theorem components_connected_chain :
    unionFindComponents? [3, 1, 4, 2] chainCorrelation (1 / 2) =
        some (unionFindComponents [3, 1, 4, 2] chainCorrelation (1 / 2)) ∧
      unionFindComponents [1, 2, 3, 4] chainCorrelation (1 / 2) =
        unionFindComponents [3, 1, 4, 2] chainCorrelation (1 / 2) := by
  obtain ⟨hends, -, -, -, horder⟩ := components_connected [3, 1, 4, 2] chainCorrelation (1 / 2)
    (by decide) (fun a b => by unfold chainCorrelation; rw [Nat.add_comm])
  exact ⟨hends, horder [1, 2, 3, 4] (by decide)⟩

end Clusters

end QBackend.Evidence
