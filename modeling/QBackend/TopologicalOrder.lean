import Mathlib.Data.List.Nodup
import Mathlib.Data.List.Count
import Mathlib.Logic.Function.Basic
import Mathlib.Logic.Function.Iterate
import Mathlib.Tactic.Common

/-!
# Ordering a graph by counting parents

Kahn's algorithm over the ids of a graph in which each id lists its parents, an id that has a
parent twice counting it twice. Whatever the graph, the order that comes out has every id after its
parents; it has all of the ids when it is as long as their list.
-/

namespace QBackend.TopologicalOrder

variable {κ : Type*} [DecidableEq κ]

/-- Every id stands after its parents. -/
inductive ParentsFirst (parents : κ → List κ) : List κ → Prop where
  | nil : ParentsFirst parents []
  | snoc {order : List κ} {n : κ} : ParentsFirst parents order → (∀ p ∈ parents n, p ∈ order) →
      ParentsFirst parents (order ++ [n])

omit [DecidableEq κ] in
/-- The parents of an id are among the ids before it. -/
theorem ParentsFirst.mem_before {parents : κ → List κ} {order before after : List κ} {n p : κ}
    (h : ParentsFirst parents order) (hsplit : order = before ++ n :: after)
    (hp : p ∈ parents n) : p ∈ before := by
  induction h generalizing before after with
  | nil => simp at hsplit
  | @snoc order m _ hm ih =>
    rcases List.eq_nil_or_concat after with rfl | ⟨after', last, rfl⟩
    · obtain ⟨rfl, hn⟩ := List.append_inj' hsplit rfl
      obtain rfl : m = n := by simpa using hn
      exact hm p hp
    · have hsplit' : order ++ [m] = (before ++ n :: after') ++ [last] := by
        simpa using hsplit
      obtain ⟨horder, -⟩ := List.append_inj' hsplit' rfl
      exact ih horder

/-- Each id as often as it has the parent `p`, in the order of the ids. -/
def children (ids : List κ) (parents : κ → List κ) (p : κ) : List κ :=
  ids.flatMap fun n => List.replicate ((parents n).count p) n

structure Progress (κ : Type*) where
  indegree : κ → ℕ
  queue : List κ
  ordered : List κ

def start (ids : List κ) (parents : κ → List κ) : Progress κ where
  indegree n := (parents n).length
  queue := ids.filter fun n => (parents n).length = 0
  ordered := []

/-- One parent less for `child`, which is queued when none is left. -/
def release (s : Progress κ) (child : κ) : Progress κ where
  indegree := Function.update s.indegree child (s.indegree child - 1)
  queue := if s.indegree child - 1 = 0 then s.queue ++ [child] else s.queue
  ordered := s.ordered

/-- One pass of the loop; with an empty queue the loop is over. -/
def visit (ids : List κ) (parents : κ → List κ) (s : Progress κ) : Progress κ :=
  match s.queue with
  | [] => s
  | current :: rest =>
    (children ids parents current).foldl release
      { s with queue := rest, ordered := s.ordered ++ [current] }

/-- The order in which the loop takes the ids; none is taken twice, so there are no more passes
than ids. -/
def kahn (ids : List κ) (parents : κ → List κ) : List κ :=
  ((visit ids parents)^[ids.length] (start ids parents)).ordered

/-! ## What one id releases -/

section Release

variable {s : Progress κ}

/-- The ids taken or waiting are different and have no parent left. -/
structure Waiting (ids : List κ) (s : Progress κ) : Prop where
  nodup : (s.ordered ++ s.queue).Nodup
  free : ∀ n ∈ s.ordered ++ s.queue, n ∈ ids ∧ s.indegree n = 0

theorem Waiting.release {ids : List κ} {child : κ} (h : Waiting ids s) (hc : child ∈ ids)
    (hpos : 0 < s.indegree child) : Waiting ids (release s child) := by
  have hnot : child ∉ s.ordered ++ s.queue := by
    intro hmem
    have hzero := (h.free child hmem).2
    omega
  have hold : ∀ n ∈ s.ordered ++ s.queue,
      n ∈ ids ∧ Function.update s.indegree child (s.indegree child - 1) n = 0 := by
    intro n hn
    have hne : n ≠ child := fun heq => hnot (heq ▸ hn)
    rw [Function.update_of_ne hne]
    exact h.free n hn
  unfold TopologicalOrder.release
  by_cases hd : s.indegree child - 1 = 0
  · constructor
    · simp only [if_pos hd, ← List.append_assoc]
      exact List.nodup_append.mpr ⟨h.nodup, List.nodup_singleton child, by
        intro a ha b hb heq
        have hb' : b = child := List.mem_singleton.mp hb
        exact hnot (hb' ▸ heq ▸ ha)⟩
    · intro n hn
      simp only [if_pos hd, ← List.append_assoc] at hn
      rcases List.mem_append.mp hn with hn | hn
      · exact hold n hn
      · rw [List.mem_singleton.mp hn]
        exact ⟨hc, by simpa using hd⟩
  · constructor
    · simpa only [if_neg hd] using h.nodup
    · simpa only [if_neg hd] using hold

/-- Releasing children takes their number of occurrences off each count. -/
theorem waiting_foldl_release {ids cs : List κ} (h : Waiting ids s) (hcs : ∀ c ∈ cs, c ∈ ids)
    (hcount : ∀ n, cs.count n ≤ s.indegree n) :
    Waiting ids (cs.foldl release s) ∧
      ∀ n, (cs.foldl release s).indegree n = s.indegree n - cs.count n := by
  induction cs generalizing s with
  | nil => exact ⟨h, fun n => by simp⟩
  | cons c cs ih =>
    have hpos : 0 < s.indegree c := by
      have hle := hcount c
      rw [List.count_cons_self] at hle
      omega
    have hstep : ∀ n, (release s c).indegree n = s.indegree n - if n = c then 1 else 0 := by
      intro n
      by_cases hn : n = c
      · subst hn
        simp [release]
      · simp [release, hn]
    have hrest : ∀ n, cs.count n ≤ (release s c).indegree n := by
      intro n
      have hle := hcount n
      rw [hstep n]
      by_cases hn : n = c
      · subst hn
        rw [List.count_cons_self] at hle
        simp only [if_true]
        omega
      · rw [List.count_cons_of_ne (Ne.symm hn)] at hle
        simpa [hn] using hle
    obtain ⟨hw, hi⟩ := ih (h.release (hcs c (by simp)) hpos)
      (fun d hd => hcs d (List.mem_cons_of_mem c hd)) hrest
    refine ⟨hw, fun n => ?_⟩
    have hfold : (c :: cs).foldl release s = cs.foldl release (release s c) := rfl
    rw [hfold, hi n, hstep n]
    by_cases hn : n = c
    · subst hn
      rw [List.count_cons_self, if_pos rfl]
      omega
    · rw [List.count_cons_of_ne (Ne.symm hn), if_neg hn]
      omega

theorem ordered_foldl_release (cs : List κ) :
    (cs.foldl release s).ordered = s.ordered := by
  induction cs generalizing s with
  | nil => rfl
  | cons c cs ih => exact ih

end Release

theorem mem_children {ids : List κ} {parents : κ → List κ} {p n : κ}
    (h : n ∈ children ids parents p) : n ∈ ids := by
  obtain ⟨m, hm, hn⟩ := List.mem_flatMap.mp h
  rw [List.eq_of_mem_replicate hn]
  exact hm

theorem count_children {ids : List κ} (hnd : ids.Nodup) (parents : κ → List κ) (p n : κ) :
    (children ids parents p).count n = if n ∈ ids then (parents n).count p else 0 := by
  induction ids with
  | nil => simp [children]
  | cons m ids ih =>
    obtain ⟨hm, hids⟩ := List.nodup_cons.mp hnd
    have hsplit : children (m :: ids) parents p =
        List.replicate ((parents m).count p) m ++ children ids parents p := rfl
    rw [hsplit, List.count_append, ih hids, List.count_replicate]
    by_cases hn : n = m
    · subst hn
      simp [hm]
    · have hne : ¬ m = n := fun heq => hn heq.symm
      simp [hn, hne]

theorem countP_notMem_snoc (ps order : List κ) {c : κ} (hc : c ∉ order) :
    ps.countP (fun p => p ∉ order ++ [c]) + ps.count c = ps.countP (fun p => p ∉ order) := by
  induction ps with
  | nil => rfl
  | cons p ps ih =>
    rw [List.countP_cons, List.countP_cons, ← ih]
    by_cases hp : p = c
    · subst hp
      simp [hc]
      omega
    · rw [List.count_cons_of_ne hp]
      simp only [List.mem_append, List.mem_singleton, hp, or_false]
      omega

/-! ## The whole loop -/

/-- The invariant of the loop: a count is the number of the parents that were not taken. -/
structure Sound (ids : List κ) (parents : κ → List κ) (s : Progress κ) : Prop where
  waiting : Waiting ids s
  counts : ∀ n ∈ ids, s.indegree n = (parents n).countP fun p => p ∉ s.ordered
  first : ParentsFirst parents s.ordered

section Loop

variable {ids : List κ} {parents : κ → List κ} {s : Progress κ}

theorem sound_start (hnd : ids.Nodup) : Sound ids parents (start ids parents) where
  waiting := by
    constructor
    · simpa [start] using hnd.filter _
    · intro n hn
      simpa [start] using hn
  counts n _ := by simp [start]
  first := .nil

theorem Sound.visit (hnd : ids.Nodup) (h : Sound ids parents s) :
    Sound ids parents (visit ids parents s) := by
  unfold TopologicalOrder.visit
  cases hq : s.queue with
  | nil => exact h
  | cons current rest =>
    have hmem : current ∈ s.ordered ++ s.queue := by simp [hq]
    obtain ⟨hcur, hzero⟩ := h.waiting.free current hmem
    have hfresh : current ∉ s.ordered := by
      intro ho
      have hdisj := (List.nodup_append.mp h.waiting.nodup).2.2
      exact hdisj current ho current (by simp [hq]) rfl
    have hparents : ∀ p ∈ parents current, p ∈ s.ordered := by
      intro p hp
      have hnone := h.counts current hcur
      rw [hzero] at hnone
      have hp' := List.countP_eq_zero.mp hnone.symm p hp
      simpa using hp'
    let taken : Progress κ := { s with queue := rest, ordered := s.ordered ++ [current] }
    have hlists : taken.ordered ++ taken.queue = s.ordered ++ s.queue := by
      simp [taken, hq]
    have htaken : Waiting ids taken := by
      constructor
      · rw [hlists]
        exact h.waiting.nodup
      · intro n hn
        rw [hlists] at hn
        exact h.waiting.free n hn
    have hcount : ∀ n, (children ids parents current).count n ≤ taken.indegree n := by
      intro n
      rw [count_children hnd]
      by_cases hn : n ∈ ids
      · have hsum := countP_notMem_snoc (parents n) s.ordered hfresh
        have hn' := h.counts n hn
        rw [if_pos hn]
        show _ ≤ s.indegree n
        omega
      · simp [hn]
    obtain ⟨hw, hi⟩ := waiting_foldl_release htaken (fun c hc => mem_children hc) hcount
    show Sound ids parents ((children ids parents current).foldl release taken)
    refine ⟨hw, fun n hn => ?_, ?_⟩
    · have hsum := countP_notMem_snoc (parents n) s.ordered hfresh
      have hn' := h.counts n hn
      have hin := hi n
      rw [count_children hnd, if_pos hn] at hin
      rw [ordered_foldl_release]
      show _ = (parents n).countP fun p => p ∉ s.ordered ++ [current]
      have htn : taken.indegree n = s.indegree n := rfl
      omega
    · rw [ordered_foldl_release]
      exact h.first.snoc hparents

theorem sound_iterate (hnd : ids.Nodup) (k : ℕ) :
    Sound ids parents ((visit ids parents)^[k] (start ids parents)) := by
  induction k with
  | zero => exact sound_start hnd
  | succ k ih =>
    rw [Function.iterate_succ_apply']
    exact ih.visit hnd

theorem kahn_parentsFirst (hnd : ids.Nodup) : ParentsFirst parents (kahn ids parents) :=
  (sound_iterate hnd ids.length).first

theorem mem_of_mem_kahn (hnd : ids.Nodup) {n : κ} (h : n ∈ kahn ids parents) : n ∈ ids :=
  ((sound_iterate hnd ids.length).waiting.free n (List.mem_append_left _ h)).1

theorem kahn_nodup (hnd : ids.Nodup) : (kahn ids parents).Nodup :=
  (List.nodup_append.mp (sound_iterate hnd ids.length).waiting.nodup).1

/-! ## Every id of an ordered graph -/

/-- An id without parents left was taken or waits. -/
def Covered (ids : List κ) (s : Progress κ) : Prop :=
  ∀ n ∈ ids, s.indegree n = 0 → n ∈ s.ordered ++ s.queue

theorem Covered.foldl_release {cs : List κ} (h : Covered ids s) :
    Covered ids (cs.foldl release s) := by
  induction cs generalizing s with
  | nil => exact h
  | cons c cs ih =>
    refine ih fun n hn hzero => ?_
    by_cases hd : s.indegree c - 1 = 0
    · by_cases hnc : n = c
      · simp [release, hd, hnc]
      · have hold : n ∈ s.ordered ++ s.queue := h n hn (by simpa [release, hnc] using hzero)
        rw [List.mem_append] at hold
        simp only [release, if_pos hd, List.mem_append]
        exact hold.imp_right Or.inl
    · have hnc : n ≠ c := by
        rintro rfl
        exact hd (by simpa [release] using hzero)
      simpa [release, hd] using h n hn (by simpa [release, hnc] using hzero)

theorem Covered.visit (h : Covered ids s) : Covered ids (visit ids parents s) := by
  unfold TopologicalOrder.visit
  cases hq : s.queue with
  | nil => exact h
  | cons current rest =>
    refine Covered.foldl_release fun n hn hzero => ?_
    have hmem := h n hn hzero
    rw [hq] at hmem
    simpa using hmem

theorem covered_iterate (k : ℕ) :
    Covered ids ((visit ids parents)^[k] (start ids parents)) := by
  induction k with
  | zero =>
    intro n hn hzero
    simp only [Function.iterate_zero, id_eq, start, List.nil_append] at hzero ⊢
    exact List.mem_filter.mpr ⟨hn, by simpa using hzero⟩
  | succ k ih =>
    rw [Function.iterate_succ_apply']
    exact ih.visit

theorem visit_of_nil (hq : s.queue = []) : visit ids parents s = s := by
  simp [visit, hq]

theorem length_visit_of_cons {current : κ} {rest : List κ} (hq : s.queue = current :: rest) :
    (visit ids parents s).ordered.length = s.ordered.length + 1 := by
  simp [visit, hq, ordered_foldl_release]

/-- Each pass takes an id, until the queue is empty. -/
theorem length_or_nil (k : ℕ) :
    ((visit ids parents)^[k] (start ids parents)).ordered.length = k ∨
      ((visit ids parents)^[k] (start ids parents)).queue = [] := by
  induction k with
  | zero => exact .inl rfl
  | succ k ih =>
    rw [Function.iterate_succ_apply']
    cases hq : ((visit ids parents)^[k] (start ids parents)).queue with
    | nil =>
      right
      rw [visit_of_nil hq]
      exact hq
    | cons current rest =>
      left
      have hlen := ih.resolve_right (by simp [hq])
      rw [length_visit_of_cons hq]
      omega

theorem length_kahn_le (hnd : ids.Nodup) : (kahn ids parents).length ≤ ids.length :=
  (List.subperm_of_subset (kahn_nodup hnd) fun _ hn => mem_of_mem_kahn hnd hn).length_le

theorem queue_eq_nil (hnd : ids.Nodup) :
    ((visit ids parents)^[ids.length] (start ids parents)).queue = [] := by
  obtain hlen | hqueue :
      ((visit ids parents)^[ids.length] (start ids parents)).ordered.length = ids.length ∨
        ((visit ids parents)^[ids.length] (start ids parents)).queue = [] := length_or_nil ids.length
  · have hsound : Sound ids parents ((visit ids parents)^[ids.length] (start ids parents)) :=
      sound_iterate hnd ids.length
    have hwaiting := hsound.waiting
    have hle := (List.subperm_of_subset hwaiting.nodup fun n hn => (hwaiting.free n hn).1).length_le
    rw [List.length_append, hlen] at hle
    exact List.eq_nil_of_length_eq_zero (by omega)
  · exact hqueue

theorem mem_kahn_of_parents (hnd : ids.Nodup) {n : κ} (hn : n ∈ ids)
    (h : ∀ p ∈ parents n, p ∈ kahn ids parents) : n ∈ kahn ids parents := by
  have hzero : ((visit ids parents)^[ids.length] (start ids parents)).indegree n = 0 := by
    rw [(sound_iterate hnd ids.length).counts n hn, List.countP_eq_zero]
    intro p hp
    have htaken : p ∈ ((visit ids parents)^[ids.length] (start ids parents)).ordered := h p hp
    simpa using htaken
  have hmem := covered_iterate ids.length n hn hzero
  rw [queue_eq_nil hnd, List.append_nil] at hmem
  exact hmem

theorem length_kahn (hnd : ids.Nodup) (h : ParentsFirst parents ids) :
    (kahn ids parents).length = ids.length := by
  have hall : ∀ order, ParentsFirst parents order → (∀ n ∈ order, n ∈ ids) →
      ∀ n ∈ order, n ∈ kahn ids parents := by
    intro order horder
    induction horder with
    | nil => simp
    | @snoc order m _ hm ih =>
      intro hsub n hn
      have hbefore := ih fun p hp => hsub p (List.mem_append_left _ hp)
      obtain hn | hn := List.mem_append.mp hn
      · exact hbefore n hn
      · obtain rfl := List.mem_singleton.mp hn
        exact mem_kahn_of_parents hnd (hsub n (List.mem_append_right _ hn))
          fun p hp => hbefore p (hm p hp)
  exact Nat.le_antisymm (length_kahn_le hnd)
    (List.subperm_of_subset hnd (hall ids h fun n hn => hn)).length_le

end Loop

end QBackend.TopologicalOrder
