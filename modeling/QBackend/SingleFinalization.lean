import QBackend.FanInPhases
import Mathlib.Algebra.Order.BigOperators.Group.Finset

/-!
# When a fan-in finalizes exactly once

The counter counts executions, not windows. Every execution decrements it, so a message that is
handed out again after its decrement takes the place of a window that is still at work, and after
the last decrement every further one calls the finalizer again. The key of the counter lives for a day,
and a decrement after that is taken for the last one.
-/

namespace QBackend.Tasks

open RunInvariants

section Calls

variable {Payload Result : Type} {job : Job Payload Result} {s : FanIn Payload Result}

theorem FanInInvariant.calls_le (h : FanInInvariant job s) : s.finalizations.length ≤ 1 := by
  rcases h.phase with hp | hp | ⟨last, hp⟩ | ⟨last, hp⟩
  · simp [hp.calls]
  · simp [hp.calls]
  · simp [hp.calls]
  · obtain ⟨staged, hcalls, -⟩ := hp.calls
    simp [hcalls]

theorem FanInInvariant.calls_staged (h : FanInInvariant job s) {staged : List ℕ}
    (hmem : staged ∈ s.finalizations) {i : ℕ} (hi : i < job.total) : i ∈ staged := by
  rcases h.phase with hp | hp | ⟨last, hp⟩ | ⟨last, hp⟩
  · simp [hp.calls] at hmem
  · simp [hp.calls] at hmem
  · simp [hp.calls] at hmem
  · obtain ⟨all, hcalls, hall⟩ := hp.calls
    rw [hcalls, List.mem_singleton] at hmem
    exact hmem ▸ hall i hi

theorem FanInInvariant.calls_of_settled (h : FanInInvariant job s) (hsettled : s.Settled job) :
    s.finalizations.length = 1 := by
  obtain ⟨hreturned, hacknowledged⟩ := hsettled
  rcases h.phase with hp | hp | ⟨last, hp⟩ | ⟨last, hp⟩
  · rcases hp.point with hpoint | hpoint <;> simp [hreturned] at hpoint
  · -- every acknowledged window is counted, so none would be left uncounted
    have hall : counted job s = Finset.range job.total := by
      refine Finset.filter_true_of_mem fun i hi => ?_
      rw [hacknowledged i (Finset.mem_range.mp hi)]
      trivial
    have hlt := hp.uncounted
    rw [hall, Finset.card_range] at hlt
    omega
  · have hown := hp.own
    rw [hacknowledged last hp.lt_total] at hown
    rcases hown with hown | ⟨r, -, hown⟩
    · exact hown.elim
    · cases hown
  · obtain ⟨staged, hcalls, -⟩ := hp.calls
    simp [hcalls]

end Calls

/-! ## Every job can run to its end -/

section Progress

variable {Payload Result : Type} {job : Job Payload Result} {s : FanIn Payload Result}

def FinalizePoint.work : FinalizePoint Payload → ℕ
  | .loading => 5
  | .finishing _ => 4
  | .clearingPartials => 3
  | .clearingKeys => 2

/-- A bound on the commands that a message still needs. -/
def LeafPoint.work : LeafPoint Payload → ℕ
  | .unsent => 11
  | .queued => 10
  | .checking => 9
  | .working => 8
  | .decrementing => 7
  | .reporting _ => 6
  | .finalizing point => point.work
  | .returned => 1
  | .acknowledged => 0

def CoordinatorPoint.work (total : ℕ) : CoordinatorPoint Payload → ℕ
  | .checking => total + 7
  | .seeding => total + 2
  | .sending next => total - next + 1
  | .finalizing point => point.work
  | .returned => 0

def FanIn.work (job : Job Payload Result) (s : FanIn Payload Result) : ℕ :=
  s.coordinator.work job.total + ∑ i ∈ Finset.range job.total, (s.leaves i).work

/-- The commands of the parties, without deaths and cancel requests. -/
def Event.Productive : Event Payload → Prop
  | .coordinate | .deliver _ | .advance _ _ | .acknowledge _ => True
  | .workerDies _ | .requestCancel | .elapse _ => False

theorem countsOnce_of_productive {e : Event Payload} (he : e.Productive)
    (hcancel : s.keys.isCancelled = false) : CountsOnce s e := by
  cases e with
  | coordinate => exact fun _ => hcancel
  | deliver i => trivial
  | advance i outcome => exact fun _ h => absurd (hcancel.symm.trans h) (by simp)
  | acknowledge i => trivial
  | workerDies i => exact he.elim
  | requestCancel | elapse => exact he.elim

theorem finalizeWalkforward_cancelled (job : Job Payload Result) (s : FanIn Payload Result)
    (point : FinalizePoint Payload) (h : s.keys.isCancelled = false) :
    (finalizeWalkforward job s point).1.keys.isCancelled = false := by
  cases point with
  | loading => exact h
  | finishing windows => exact h
  | clearingPartials => exact h
  | clearingKeys => rfl

theorem step_cancelled {e : Event Payload} (he : e.Productive)
    (h : s.keys.isCancelled = false) : (step job s e).keys.isCancelled = false := by
  cases e with
  | coordinate =>
    simp only [step, dispatchWindows]
    split
    · split <;> exact h
    · exact h
    · split <;> exact h
    · exact finalizeWalkforward_cancelled job s _ h
    · exact h
  | deliver i =>
    simp only [step]
    split <;> exact h
  | advance i outcome =>
    simp only [step, runWindow]
    split
    · exact h
    · exact h
    · exact h
    · split <;> exact h
    · exact finalizeWalkforward_cancelled job s _ h
    all_goals exact h
  | acknowledge i =>
    simp only [step]
    split <;> exact h
  | workerDies i => exact he.elim
  | requestCancel | elapse => exact he.elim

theorem work_moveLeaf_lt {base : FanIn Payload Result} {i : ℕ} {point : LeafPoint Payload}
    (hcoordinator : base.coordinator = s.coordinator) (hleaves : base.leaves = s.leaves)
    (hi : i < job.total) (hpoint : point.work < (s.leaves i).work) :
    (base.moveLeaf i point).work job < s.work job := by
  have hsum : ∑ j ∈ Finset.range job.total, ((base.moveLeaf i point).leaves j).work <
      ∑ j ∈ Finset.range job.total, (s.leaves j).work := by
    refine Finset.sum_lt_sum (fun j _ => ?_) ⟨i, Finset.mem_range.mpr hi, ?_⟩
    · by_cases hji : j = i
      · subst hji
        rw [moveLeaf_self]
        exact hpoint.le
      · rw [moveLeaf_of_ne hji, hleaves]
    · rw [moveLeaf_self]
      exact hpoint
  have hsame : (base.moveLeaf i point).coordinator = s.coordinator := hcoordinator
  unfold FanIn.work
  rw [hsame]
  omega

theorem finalizeWalkforward_work (job : Job Payload Result) (s : FanIn Payload Result)
    (point : FinalizePoint Payload) :
    (((finalizeWalkforward job s point).2.map LeafPoint.finalizing).getD .returned).work <
      (LeafPoint.finalizing point).work := by
  cases point with
  | loading => exact Nat.lt_succ_self 4
  | finishing windows => exact Nat.lt_succ_self 3
  | clearingPartials => exact Nat.lt_succ_self 2
  | clearingKeys => exact Nat.lt_succ_self 1

theorem exists_leaf_progress {i : ℕ} (hi : i < job.total) (hsent : s.leaves i ≠ .unsent)
    (hopen : s.leaves i ≠ .acknowledged) :
    ∃ e : Event Payload, e.Productive ∧ (step job s e).work job < s.work job := by
  cases hpoint : s.leaves i with
  | unsent => exact absurd hpoint hsent
  | queued =>
    refine ⟨.deliver i, trivial, ?_⟩
    simp only [step, hpoint]
    exact work_moveLeaf_lt rfl rfl hi (by rw [hpoint]; exact Nat.lt_succ_self 9)
  | checking =>
    refine ⟨.advance i none, trivial, ?_⟩
    simp only [step, runWindow, hpoint]
    refine work_moveLeaf_lt rfl rfl hi ?_
    rw [hpoint]
    split <;> simp [LeafPoint.work]
  | working =>
    refine ⟨.advance i none, trivial, ?_⟩
    simp only [step, runWindow, hpoint]
    exact work_moveLeaf_lt rfl rfl hi (by rw [hpoint]; exact Nat.lt_succ_self 7)
  | decrementing =>
    refine ⟨.advance i none, trivial, ?_⟩
    simp only [step, runWindow, hpoint]
    exact work_moveLeaf_lt rfl rfl hi (by rw [hpoint]; exact Nat.lt_succ_self 6)
  | reporting remaining =>
    refine ⟨.advance i none, trivial, ?_⟩
    simp only [step, runWindow, hpoint]
    split
    · exact work_moveLeaf_lt rfl rfl hi (by rw [hpoint]; exact Nat.lt_succ_self 5)
    · exact work_moveLeaf_lt rfl rfl hi (by rw [hpoint]; simp [LeafPoint.work])
  | finalizing point =>
    refine ⟨.advance i none, trivial, ?_⟩
    obtain ⟨hleaves, hcoordinator, -⟩ := finalizeWalkforward_frame job s point
    simp only [step, runWindow, hpoint]
    refine work_moveLeaf_lt hcoordinator hleaves hi ?_
    rw [hpoint]
    exact finalizeWalkforward_work job s point
  | returned =>
    refine ⟨.acknowledge i, trivial, ?_⟩
    simp only [step, hpoint]
    exact work_moveLeaf_lt rfl rfl hi (by rw [hpoint]; exact Nat.lt_succ_self 0)
  | acknowledged => exact absurd hpoint hopen

theorem coordinate_progress (h : FanInInvariant job s) (hcancel : s.keys.isCancelled = false)
    (hopen : s.coordinator ≠ .returned) : (step job s .coordinate).work job < s.work job := by
  simp only [step, dispatchWindows]
  split
  next hpoint =>
    simp only [hcancel, Bool.false_eq_true, if_false, FanIn.work, hpoint, CoordinatorPoint.work]
    omega
  next hpoint =>
    simp only [FanIn.work, hpoint, CoordinatorPoint.work]
    omega
  next next hpoint =>
    split
    next hnext =>
      have hunsent : s.leaves next = .unsent := (h.unsent next).mpr (by rw [hpoint]; exact le_rfl)
      have hleaf : (s.moveLeaf next .queued).work job < s.work job :=
        work_moveLeaf_lt rfl rfl hnext (by rw [hunsent]; exact Nat.lt_succ_self 10)
      have hcoordinator : (s.moveLeaf next .queued).coordinator = .sending next := hpoint
      unfold FanIn.work at hleaf ⊢
      rw [hcoordinator, hpoint] at hleaf
      simp only [hpoint, CoordinatorPoint.work] at hleaf ⊢
      omega
    · simp only [FanIn.work, hpoint, CoordinatorPoint.work]
      omega
  next point hpoint => exact absurd hpoint (h.not_finalizing point)
  next hpoint => exact absurd hpoint hopen

theorem exists_progress (h : FanInInvariant job s) (hcancel : s.keys.isCancelled = false)
    (hopen : ¬ s.Settled job) :
    ∃ e : Event Payload, e.Productive ∧ (step job s e).work job < s.work job := by
  by_cases hreturned : s.coordinator = .returned
  · have hunacknowledged : ∃ i < job.total, s.leaves i ≠ .acknowledged := by
      by_contra hnone
      push Not at hnone
      exact hopen ⟨hreturned, hnone⟩
    obtain ⟨i, hi, hpoint⟩ := hunacknowledged
    have hsent : s.leaves i ≠ .unsent := fun hunsent => by
      have hle := (h.unsent i).mp hunsent
      rw [hreturned] at hle
      exact absurd hle (not_le.mpr hi)
    exact exists_leaf_progress hi hsent hpoint
  · exact ⟨.coordinate, trivial, coordinate_progress h hcancel hreturned⟩

theorem exists_settled (h : FanInInvariant job s) (hcancel : s.keys.isCancelled = false) :
    ∃ rest : List (Event Payload), Admissible (step job) CountsOnce s rest ∧
      (run (step job) s rest).Settled job := by
  -- induction on the commands that are left
  induction hwork : s.work job using Nat.strong_induction_on generalizing s with
  | _ n ih =>
    by_cases hsettled : s.Settled job
    · exact ⟨[], trivial, hsettled⟩
    · obtain ⟨e, he, hlt⟩ := exists_progress h hcancel hsettled
      have hcondition := countsOnce_of_productive he hcancel
      obtain ⟨rest, hadmissible, hrest⟩ :=
        ih _ (hwork ▸ hlt) (h.step hcondition) (step_cancelled he hcancel) rfl
      exact ⟨e :: rest, ⟨hcondition, hadmissible⟩, hrest⟩

end Progress

/-! ## Exactly one call -/

/-- The finalizer is never called twice, and every window is staged when it is called. It has been
called once the job has settled, and a job that nobody cancels can always settle. -/
theorem finalizes_exactly_once {Payload Result : Type} (job : Job Payload Result)
    {events : List (Event Payload)} (h : Admissible (step job) CountsOnce {} events) :
    let s := run (step job) {} events
    s.finalizations.length ≤ 1 ∧
      (∀ staged ∈ s.finalizations, ∀ i < job.total, i ∈ staged) ∧
      (s.Settled job → s.finalizations.length = 1) ∧
      (s.keys.isCancelled = false → ∃ rest : List (Event Payload),
        Admissible (step job) CountsOnce s rest ∧ (run (step job) s rest).Settled job) := by
  intro s
  have hinv : FanInInvariant job s := FanInInvariant.run h
  refine ⟨hinv.calls_le, fun staged hstaged i hi => hinv.calls_staged hstaged hi,
    hinv.calls_of_settled, fun hcancel => ?_⟩
  exact exists_settled hinv hcancel

/-- A run with two windows whose partial results are their indices. -/
def twoWindows : Job ℕ (List ℕ) where
  total := 2
  total_pos := by decide
  noResult := id
  windowIndex := id
  finalizeResult := some

def dispatchTwo : List (Event ℕ) := List.replicate 5 .coordinate

/-- The commands of a worker from the delivery of its message up to its decrement. -/
def untilCounted (i : ℕ) : List (Event ℕ) :=
  [.deliver i, .advance i (some i), .advance i (some i), .advance i (some i)]

/-- The commands after the decrement, with the finalizer where it is called. -/
def untilAcknowledged (i commands : ℕ) : List (Event ℕ) :=
  List.replicate commands (.advance i none) ++ [.acknowledge i]

/-- Window 0 is counted, its worker dies before the acknowledgement, and the message runs again
while window 1 has not begun. -/
def countedTwice : List (Event ℕ) :=
  dispatchTwo ++ untilCounted 0 ++ [.workerDies 0] ++ untilCounted 0 ++ untilAcknowledged 0 5 ++
    untilCounted 1 ++ untilAcknowledged 1 5

/-- The finalizer runs without window 1, and again for window 1 alone. -/
theorem counted_twice_finalizes_twice :
    let s := run (step twoWindows) {} countedTwice
    s.Settled twoWindows ∧ s.finalizations = [[0], [1]] := by
  refine ⟨⟨by decide +kernel, by decide +kernel⟩, by decide +kernel⟩

/-- A worker dies before its window is counted, and the last one before it calls the finalizer; the
counter expires when that window alone is left. -/
def redeliveredInTime : List (Event ℕ) :=
  dispatchTwo ++ [.elapse 43200] ++ (untilCounted 0).take 3 ++ [.workerDies 0] ++ untilCounted 1 ++
    untilAcknowledged 1 1 ++ [.elapse 43200] ++ untilCounted 0 ++ [.workerDies 0] ++
    untilCounted 0 ++ untilAcknowledged 0 5

theorem finalizes_exactly_once_redelivered :
    Admissible (step twoWindows) CountsOnce {} redeliveredInTime ∧
      (run (step twoWindows) {} redeliveredInTime).finalizations.length = 1 := by
  have hadmissible : Admissible (step twoWindows) CountsOnce {} redeliveredInTime := by
    decide +kernel
  have hsettled : (run (step twoWindows) {} redeliveredInTime).Settled twoWindows :=
    ⟨by decide +kernel, by decide +kernel⟩
  exact ⟨hadmissible, (finalizes_exactly_once twoWindows hadmissible).2.2.1 hsettled⟩

end QBackend.Tasks
