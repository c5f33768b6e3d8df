import QBackend.TopologicalOrder
import Mathlib.Algebra.Order.BigOperators.Group.List
import Mathlib.Algebra.Order.Ring.Nat
import Mathlib.Logic.Relation

/-!
# What a node of a graph reaches

Graphs in which each id lists its parents, some ids having no entry. A loop over a stack collects
what the root reaches, and a rank that falls along every edge excludes cycles.
-/

namespace QBackend.GraphReach

open TopologicalOrder

variable {κ : Type*}

/-! ## Chains of parents -/

/-- The id itself, its parents, their parents and so on. -/
def Reaches (parents : κ → List κ) : κ → κ → Prop :=
  Relation.ReflTransGen fun a b => b ∈ parents a

def Acyclic (parents : κ → List κ) : Prop :=
  ∀ a, ¬ Relation.TransGen (fun a b => b ∈ parents a) a a

section Ranks

variable {parents : κ → List κ}

theorem rank_lt_of_transGen (rank : κ → ℕ) (h : ∀ a b, b ∈ parents a → rank b < rank a) {a b : κ}
    (hab : Relation.TransGen (fun a b => b ∈ parents a) a b) : rank b < rank a := by
  induction hab with
  | single hedge => exact h _ _ hedge
  | tail _ hedge ih => exact Nat.lt_trans (h _ _ hedge) ih

theorem acyclic_of_rank (rank : κ → ℕ) (h : ∀ a b, b ∈ parents a → rank b < rank a) :
    Acyclic parents :=
  fun _ hcycle => Nat.lt_irrefl _ (rank_lt_of_transGen rank h hcycle)

variable [DecidableEq κ]

/-- In an order with the parents first, a parent has the lower position. -/
theorem idxOf_lt {order : List κ} (h : ParentsFirst parents order) {a b : κ} (ha : a ∈ order)
    (hb : b ∈ parents a) : order.idxOf b < order.idxOf a := by
  obtain ⟨before, after, hsplit, hnot⟩ := List.eq_append_cons_of_mem ha
  have hmem := h.mem_before hsplit hb
  rw [hsplit, List.idxOf_append_of_mem hmem, List.idxOf_append_of_notMem hnot, List.idxOf_cons_self,
    Nat.add_zero]
  exact List.idxOf_lt_length_of_mem hmem

theorem mem_kahn {ids : List κ} (hnd : ids.Nodup)
    (hlen : (kahn ids parents).length = ids.length) {a : κ} (ha : a ∈ ids) :
    a ∈ kahn ids parents := by
  have hsub : (kahn ids parents).Subperm ids :=
    List.subperm_of_subset (kahn_nodup hnd) fun n hn => mem_of_mem_kahn hnd hn
  exact (hsub.perm_of_length_le hlen.ge).symm.subset ha

end Ranks

/-! ## Collecting with a stack -/

section Collect

variable [DecidableEq κ] (next : κ → Option (List κ))

/-- The loop: the top of the stack is passed over when it was collected or has no entry, else it is
collected and its parents are pushed. -/
def collect : ℕ → List κ → List κ → List κ
  | 0, _, collected => collected
  | _ + 1, [], collected => collected
  | fuel + 1, a :: stack, collected =>
    if a ∈ collected then collect fuel stack collected
    else
      match next a with
      | none => collect fuel stack collected
      | some parents => collect fuel (parents.reverse ++ stack) (a :: collected)

/-- The parents by id, none for an id without entry. -/
def entries (a : κ) : List κ := (next a).getD []

/-- The number of parents that the ids not yet collected still push. -/
def pending (ids collected : List κ) : ℕ :=
  (ids.map fun a => if a ∈ collected then 0 else (entries next a).length).sum

/-- Enough passes: one for the root and one for each parent of each id. -/
def collectFuel (ids : List κ) : ℕ := 1 + pending next ids []

variable {next}

theorem pending_cons {ids collected : List κ} {a : κ} (ha : a ∈ ids) (hnot : a ∉ collected) :
    pending next ids (a :: collected) + (entries next a).length ≤ pending next ids collected := by
  have hle : ∀ ids : List κ, pending next ids (a :: collected) ≤ pending next ids collected := by
    intro ids
    refine List.sum_le_sum fun b _ => ?_
    by_cases hb : b ∈ collected
    · rw [if_pos hb, if_pos (List.mem_cons_of_mem a hb)]
    · rw [if_neg hb]
      split
      · exact Nat.zero_le _
      · exact Nat.le_refl _
  induction ids with
  | nil => cases ha
  | cons b ids ih =>
    have hcons : ∀ collected, pending next (b :: ids) collected =
        (if b ∈ collected then 0 else (entries next b).length) + pending next ids collected := by
      intro collected
      simp [pending]
    rw [hcons, hcons]
    by_cases hba : b = a
    · subst hba
      have hrest := hle ids
      simp only [List.mem_cons_self, if_true, if_neg hnot]
      omega
    · have hrest := ih ((List.mem_cons.mp ha).resolve_left (Ne.symm hba))
      have hsame : b ∈ a :: collected ↔ b ∈ collected := by simp [hba]
      simp only [hsame]
      omega

/-- What holds at every pass of the loop from the root. -/
structure Collecting (next : κ → Option (List κ)) (root : κ) (stack collected : List κ) : Prop where
  reached : ∀ a ∈ stack ++ collected, Reaches (entries next) root a
  known : ∀ a ∈ collected, (next a).isSome
  closed : ∀ a ∈ collected, ∀ b ∈ entries next a, (next b).isSome → b ∈ collected ∨ b ∈ stack
  start : (next root).isSome → root ∈ collected ∨ root ∈ stack
  nodup : collected.Nodup

omit [DecidableEq κ] in
theorem collecting_start (root : κ) : Collecting next root [root] [] where
  reached a ha := by
    rw [List.append_nil, List.mem_singleton] at ha
    exact ha ▸ .refl
  known _ ha := by cases ha
  closed _ ha := by cases ha
  start _ := .inr List.mem_cons_self
  nodup := List.nodup_nil

omit [DecidableEq κ] in
theorem Collecting.skip {root a : κ} {stack collected : List κ}
    (h : Collecting next root (a :: stack) collected)
    (ha : (next a).isSome → a ∈ collected) : Collecting next root stack collected where
  reached b hb := h.reached b (List.mem_append.mpr ((List.mem_append.mp hb).imp_left
    (List.mem_cons_of_mem a)))
  known := h.known
  closed b hb c hc hsome := by
    obtain hcollected | hstack := h.closed b hb c hc hsome
    · exact .inl hcollected
    · obtain rfl | hstack := List.mem_cons.mp hstack
      · exact .inl (ha hsome)
      · exact .inr hstack
  start hsome := by
    obtain hcollected | hstack := h.start hsome
    · exact .inl hcollected
    · obtain rfl | hstack := List.mem_cons.mp hstack
      · exact .inl (ha hsome)
      · exact .inr hstack
  nodup := h.nodup

omit [DecidableEq κ] in
theorem Collecting.push {root a : κ} {stack collected parents : List κ}
    (h : Collecting next root (a :: stack) collected) (hnot : a ∉ collected)
    (hnext : next a = some parents) :
    Collecting next root (parents.reverse ++ stack) (a :: collected) where
  reached b hb := by
    have hroot := h.reached a (List.mem_append_left _ List.mem_cons_self)
    obtain hb | hb := List.mem_append.mp hb
    · obtain hb | hb := List.mem_append.mp hb
      · refine Relation.ReflTransGen.tail hroot ?_
        rw [entries, hnext]
        exact List.mem_reverse.mp hb
      · exact h.reached b (List.mem_append_left _ (List.mem_cons_of_mem a hb))
    · obtain rfl | hb := List.mem_cons.mp hb
      · exact hroot
      · exact h.reached b (List.mem_append_right _ hb)
  known b hb := by
    obtain rfl | hb := List.mem_cons.mp hb
    · rw [hnext]
      rfl
    · exact h.known b hb
  closed b hb c hc hsome := by
    obtain rfl | hb := List.mem_cons.mp hb
    · rw [entries, hnext] at hc
      exact .inr (List.mem_append_left _ (List.mem_reverse.mpr hc))
    · obtain hcollected | hstack := h.closed b hb c hc hsome
      · exact .inl (List.mem_cons_of_mem a hcollected)
      · obtain rfl | hstack := List.mem_cons.mp hstack
        · exact .inl List.mem_cons_self
        · exact .inr (List.mem_append_right _ hstack)
  start hsome := by
    obtain hcollected | hstack := h.start hsome
    · exact .inl (List.mem_cons_of_mem a hcollected)
    · obtain rfl | hstack := List.mem_cons.mp hstack
      · exact .inl List.mem_cons_self
      · exact .inr (List.mem_append_right _ hstack)
  nodup := List.nodup_cons.mpr ⟨hnot, h.nodup⟩

theorem Collecting.collect {root : κ} {ids stack collected : List κ} {fuel : ℕ}
    (hids : ∀ a, (next a).isSome → a ∈ ids)
    (hfuel : stack.length + pending next ids collected ≤ fuel)
    (h : Collecting next root stack collected) :
    Collecting next root [] (GraphReach.collect next fuel stack collected) := by
  induction fuel generalizing stack collected with
  | zero =>
    have hnil : stack = [] := List.length_eq_zero_iff.mp (by omega)
    exact hnil ▸ h
  | succ fuel ih =>
    cases stack with
    | nil => exact h
    | cons a stack =>
      rw [List.length_cons] at hfuel
      rw [GraphReach.collect]
      split
      next hcollected => exact ih (by omega) (h.skip fun _ => hcollected)
      next hnot =>
        cases hnext : next a with
        | none => exact ih (by omega) (h.skip fun hsome => by rw [hnext] at hsome; cases hsome)
        | some parents =>
          have hdrop : pending next ids (a :: collected) + (entries next a).length ≤
              pending next ids collected := pending_cons (hids a (by rw [hnext]; rfl)) hnot
          have hlen : (entries next a).length = parents.length := by rw [entries, hnext]; rfl
          refine ih ?_ (h.push hnot hnext)
          rw [List.length_append, List.length_reverse]
          omega

theorem collecting_collect (root : κ) {ids : List κ} (hids : ∀ a, (next a).isSome → a ∈ ids) :
    Collecting next root [] (collect next (collectFuel next ids) [root] []) := by
  have hstart : Collecting next root [root] [] := collecting_start root
  exact hstart.collect hids (by simp [collectFuel])

theorem mem_collect_iff {root a : κ} {ids : List κ} (hids : ∀ a, (next a).isSome → a ∈ ids) :
    a ∈ collect next (collectFuel next ids) [root] [] ↔
      Reaches (entries next) root a ∧ (next a).isSome := by
  have h := collecting_collect root hids
  constructor
  · intro ha
    exact ⟨h.reached a (List.mem_append_right _ ha), h.known a ha⟩
  · rintro ⟨hreach, hsome⟩
    induction hreach with
    | refl => exact (h.start hsome).resolve_right (by simp)
    | @tail b c _ hedge ih =>
      have hb : (next b).isSome := by
        by_contra hnone
        rw [Option.not_isSome_iff_eq_none] at hnone
        rw [entries, hnone] at hedge
        cases hedge
      exact (h.closed b (ih hb) c hedge hsome).resolve_right (by simp)

theorem collect_nodup {root : κ} {ids : List κ} (hids : ∀ a, (next a).isSome → a ∈ ids) :
    (collect next (collectFuel next ids) [root] []).Nodup :=
  (collecting_collect root hids).nodup

end Collect

end QBackend.GraphReach
