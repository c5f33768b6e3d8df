import QBackend.FanIn
import Mathlib.Data.Finset.Range
import Mathlib.Tactic.Linarith

/-!
# The phases of a fan-in

While no worker dies between the decrement and the acknowledgement of its message, no window is skipped
for a cancel request and no key expires that is still needed, a job goes through four phases: the counter is not set, some windows
are uncounted and the counter says how many, all are counted and one worker is left to call the
finalizer, and that worker has called it.
-/

namespace QBackend.Tasks

open RunInvariants

section Points

variable {Payload : Type}

/-- The message has yet to be counted, or to be counted again. -/
def LeafPoint.Pending : LeafPoint Payload → Prop
  | .queued | .checking | .working | .decrementing => True
  | .unsent | .reporting _ | .finalizing _ | .returned | .acknowledged => False

/-- The message is counted and was not the last one. -/
def LeafPoint.Counted : LeafPoint Payload → Prop
  | .reporting remaining => 0 < remaining
  | .returned | .acknowledged => True
  | .unsent | .queued | .checking | .working | .decrementing | .finalizing _ => False

instance : DecidablePred (@LeafPoint.Counted Payload) := fun p =>
  match p with
  | .reporting remaining => inferInstanceAs (Decidable (0 < remaining))
  | .returned | .acknowledged => isTrue trivial
  | .unsent | .queued | .checking | .working | .decrementing | .finalizing _ =>
    isFalse (fun h => h)

/-- The worker has called the finalizer. -/
def LeafPoint.Finalized : LeafPoint Payload → Prop
  | .finalizing _ | .returned | .acknowledged => True
  | .unsent | .queued | .checking | .working | .decrementing | .reporting _ => False

/-- A worker may die here: its message is not counted yet, or it was the last one and the finalizer
has not been called. -/
def LeafPoint.Redeliverable : LeafPoint Payload → Prop
  | .reporting remaining => remaining ≤ 0
  | .finalizing _ | .returned => False
  | .unsent | .queued | .checking | .working | .decrementing | .acknowledged => True

instance : DecidablePred (@LeafPoint.Redeliverable Payload) := fun p =>
  match p with
  | .reporting remaining => inferInstanceAs (Decidable (remaining ≤ 0))
  | .finalizing _ | .returned => isFalse (fun h => h)
  | .unsent | .queued | .checking | .working | .decrementing | .acknowledged => isTrue trivial

end Points

section Runs

variable {Payload Result : Type} {job : Job Payload Result} {s : FanIn Payload Result}

/-- The condition on a step: a worker dies only where its message may be handed out again, neither the
coordinator nor a window without a partial result finds the job cancelled, the counter does not expire
above one, and the partial results not before the finalizer has written. -/
def CountsOnce (s : FanIn Payload Result) : Event Payload → Prop
  | .coordinate => s.coordinator = .checking → s.keys.isCancelled = false
  | .advance i _ => s.leaves i = .checking → s.keys.isCancelled = true → i ∈ s.keys.staged
  | .workerDies i => (s.leaves i).Redeliverable
  | .elapse seconds =>
    (JobKeys.expires s.keys.ttl.counter seconds → ∀ remaining ∈ s.keys.counter, remaining ≤ 1) ∧
    (JobKeys.expires s.keys.ttl.partials seconds → s.finalizations ≠ [] ∧ s.finished ≠ [])
  | .deliver _ | .acknowledge _ | .requestCancel => True

instance decidableCountsOnce [DecidableEq Payload] (s : FanIn Payload Result)
    (e : Event Payload) : Decidable (CountsOnce s e) :=
  match e with
  | .coordinate =>
    inferInstanceAs (Decidable (s.coordinator = .checking → s.keys.isCancelled = false))
  | .advance i _ => inferInstanceAs
      (Decidable (s.leaves i = .checking → s.keys.isCancelled = true → i ∈ s.keys.staged))
  | .workerDies i => inferInstanceAs (Decidable (s.leaves i).Redeliverable)
  | .elapse seconds => inferInstanceAs (Decidable
      ((JobKeys.expires s.keys.ttl.counter seconds → ∀ remaining ∈ s.keys.counter, remaining ≤ 1) ∧
        (JobKeys.expires s.keys.ttl.partials seconds → s.finalizations ≠ [] ∧ s.finished ≠ [])))
  | .deliver _ | .acknowledge _ | .requestCancel => isTrue trivial

/-! ## What the command of one worker does -/

/-- The commands that a window gives before it is counted, the count, the call of the finalizer and
what follows it. -/
inductive LeafMove (s : FanIn Payload Result) (i : ℕ) : FanIn Payload Result → Prop
  | stay : LeafMove s i s
  | pending {point : LeafPoint Payload} (hold : (s.leaves i).Pending ∨ ∃ r ≤ 0, s.leaves i = .reporting r)
      (hnew : point.Pending) (hstaged : point = .decrementing → i ∈ s.keys.staged) :
      LeafMove s i (s.moveLeaf i point)
  | stash (payload : Payload) (hold : s.leaves i = .working) :
      LeafMove s i ({ s with keys := s.keys.stashPartial i payload }.moveLeaf i .decrementing)
  | count (hold : s.leaves i = .decrementing) :
      LeafMove s i ({ s with keys := s.keys.decrement.2 }.moveLeaf i
        (.reporting s.keys.decrement.1))
  | finalize {remaining : ℤ} (hold : s.leaves i = .reporting remaining) (hlast : remaining ≤ 0) :
      LeafMove s i (s.callFinalizer.moveLeaf i (.finalizing .loading))
  | finalizing {s' : FanIn Payload Result} {point : LeafPoint Payload}
      (hold : ∃ p, s.leaves i = .finalizing p) (hnew : point.Finalized)
      (hleaves : s'.leaves = s.leaves) (hcoordinator : s'.coordinator = s.coordinator)
      (hcalls : s'.finalizations = s.finalizations) : LeafMove s i (s'.moveLeaf i point)
  | counted {point : LeafPoint Payload} (hold : (s.leaves i).Counted) (hnew : point.Counted)
      (hfinal : (s.leaves i).Finalized → point.Finalized) : LeafMove s i (s.moveLeaf i point)

theorem finalizeWalkforward_frame (job : Job Payload Result) (s : FanIn Payload Result)
    (point : FinalizePoint Payload) :
    (finalizeWalkforward job s point).1.leaves = s.leaves ∧
    (finalizeWalkforward job s point).1.coordinator = s.coordinator ∧
    (finalizeWalkforward job s point).1.finalizations = s.finalizations := by
  cases point with
  | loading => exact ⟨rfl, rfl, rfl⟩
  | finishing windows => exact ⟨rfl, rfl, rfl⟩
  | clearingPartials => exact ⟨rfl, rfl, rfl⟩
  | clearingKeys => exact ⟨rfl, rfl, rfl⟩

theorem finalized_getD (next : Option (FinalizePoint Payload)) :
    ((next.map LeafPoint.finalizing).getD .returned).Finalized := by
  cases next with
  | none => trivial
  | some point => trivial

theorem runWindow_move {i : ℕ} (outcome : Option Payload)
    (h : CountsOnce s (.advance i outcome)) : LeafMove s i (runWindow job s i outcome) := by
  unfold runWindow
  split
  next hpoint =>
    refine .pending (.inl (by rw [hpoint]; trivial)) ?_ ?_
    · split <;> trivial
    · intro hskip
      by_cases hcancel : s.keys.isCancelled = true
      · exact h hpoint hcancel
      · simp [hcancel] at hskip
  next hpoint => exact .stash _ hpoint
  next hpoint => exact .count hpoint
  next remaining hpoint =>
    split
    next hlast => exact .finalize hpoint hlast
    next hlast =>
      refine .counted ?_ trivial (fun _ => trivial)
      rw [hpoint]
      exact not_le.mp hlast
  next point hpoint =>
    obtain ⟨hleaves, hcoordinator, hcalls⟩ := finalizeWalkforward_frame job s point
    exact .finalizing ⟨point, hpoint⟩ (finalized_getD _) hleaves hcoordinator hcalls
  all_goals exact .stay

/-- The window of an event of a worker or of its message. -/
def Event.leaf? : Event Payload → Option ℕ
  | .deliver i | .advance i _ | .acknowledge i | .workerDies i => some i
  | .coordinate | .requestCancel | .elapse _ => none

theorem step_leafMove {e : Event Payload} {i : ℕ} (hleaf : e.leaf? = some i)
    (h : CountsOnce s e) : LeafMove s i (step job s e) := by
  cases e with
  | coordinate => cases hleaf
  | requestCancel | elapse => cases hleaf
  | deliver j =>
    cases hleaf
    simp only [step]
    split
    next hpoint =>
      exact .pending (.inl (by rw [hpoint]; trivial)) trivial (by simp)
    · exact .stay
  | advance j outcome =>
    cases hleaf
    exact runWindow_move outcome h
  | acknowledge j =>
    cases hleaf
    simp only [step]
    split
    next hpoint => exact .counted (by rw [hpoint]; trivial) trivial (fun _ => trivial)
    · exact .stay
  | workerDies j =>
    cases hleaf
    simp only [step]
    split
    next hrunning =>
      refine .pending ?_ trivial (by simp)
      have hpoint : (s.leaves i).Redeliverable := h
      cases hold : s.leaves i with
      | reporting remaining =>
        rw [hold] at hpoint
        exact .inr ⟨remaining, hpoint, rfl⟩
      | finalizing point => rw [hold] at hpoint; exact hpoint.elim
      | returned => rw [hold] at hpoint; exact hpoint.elim
      | unsent => rw [hold] at hrunning; cases hrunning
      | queued => exact .inl trivial
      | checking => exact .inl trivial
      | working => exact .inl trivial
      | decrementing => exact .inl trivial
      | acknowledged => rw [hold] at hrunning; cases hrunning
    · exact .stay

/-! ## The phases of a job -/

/-- The windows that are counted. -/
def counted (job : Job Payload Result) (s : FanIn Payload Result) : Finset ℕ :=
  (Finset.range job.total).filter fun i => (s.leaves i).Counted

/-- How many messages the coordinator has sent. -/
def CoordinatorPoint.sent (total : ℕ) : CoordinatorPoint Payload → ℕ
  | .checking | .seeding | .finalizing _ => 0
  | .sending next => next
  | .returned => total

/-- The counter is set and the messages are on their way. -/
def CoordinatorPoint.Started : CoordinatorPoint Payload → Prop
  | .sending _ | .returned => True
  | .checking | .seeding | .finalizing _ => False

/-- Some window is not counted, and the counter says how many, or has expired before the last one. -/
structure Counting (job : Job Payload Result) (s : FanIn Payload Result) : Prop where
  started : s.coordinator.Started
  calls : s.finalizations = []
  counter : s.keys.counter = some ((job.total : ℤ) - (counted job s).card) ∨
    s.keys.counter = none ∧ job.total = (counted job s).card + 1
  uncounted : (counted job s).card < job.total
  points : ∀ i < job.total,
    s.leaves i = .unsent ∨ (s.leaves i).Pending ∨ (s.leaves i).Counted
  staged : ∀ i < job.total,
    s.leaves i = .decrementing ∨ (s.leaves i).Counted → i ∈ s.keys.staged

/-- All windows are counted and the finalizer is still to be called by the worker of `last`. -/
structure Closing (job : Job Payload Result) (s : FanIn Payload Result) (last : ℕ) : Prop where
  started : s.coordinator.Started
  calls : s.finalizations = []
  counter : s.keys.counter.getD 0 ≤ 0
  lt_total : last < job.total
  own : (s.leaves last).Pending ∨ ∃ r ≤ 0, s.leaves last = .reporting r
  others : ∀ i < job.total, i ≠ last → (s.leaves i).Counted
  staged : ∀ i < job.total, i ∈ s.keys.staged

/-- The worker of `last` has called the finalizer, with every window staged. -/
structure Finalized (job : Job Payload Result) (s : FanIn Payload Result) (last : ℕ) : Prop where
  started : s.coordinator.Started
  calls : ∃ staged : List ℕ, s.finalizations = [staged] ∧ ∀ i < job.total, i ∈ staged
  lt_total : last < job.total
  own : (s.leaves last).Finalized
  others : ∀ i < job.total, i ≠ last → (s.leaves i).Counted

/-- The coordinator has not set the counter. -/
structure Idle (s : FanIn Payload Result) : Prop where
  point : s.coordinator = .checking ∨ s.coordinator = .seeding
  calls : s.finalizations = []

/-- What every state of an admissible run satisfies. -/
structure FanInInvariant (job : Job Payload Result) (s : FanIn Payload Result) : Prop where
  unsent : ∀ i, s.leaves i = .unsent ↔ s.coordinator.sent job.total ≤ i
  sent_le : s.coordinator.sent job.total ≤ job.total
  phase : Idle s ∨ Counting job s ∨ (∃ last, Closing job s last) ∨ ∃ last, Finalized job s last

section Moves

variable {i last : ℕ} {point : LeafPoint Payload}

@[simp] theorem moveLeaf_self : (s.moveLeaf i point).leaves i = point := by
  simp [FanIn.moveLeaf]

theorem moveLeaf_of_ne {j : ℕ} (h : j ≠ i) : (s.moveLeaf i point).leaves j = s.leaves j := by
  simp [FanIn.moveLeaf, h]

theorem counted_moveLeaf_of_iff (h : point.Counted ↔ (s.leaves i).Counted) :
    counted job (s.moveLeaf i point) = counted job s := by
  unfold counted
  refine Finset.filter_congr fun j _ => ?_
  by_cases hj : j = i
  · subst hj
    rw [moveLeaf_self]
    exact h
  · rw [moveLeaf_of_ne hj]

theorem counted_moveLeaf_insert (hi : i < job.total) (h : point.Counted) :
    counted job (s.moveLeaf i point) = insert i (counted job s) := by
  ext j
  by_cases hj : j = i
  · subst hj
    simp [counted, hi, h]
  · simp [counted, hj, moveLeaf_of_ne hj]

theorem not_counted_of_pending (h : point.Pending) : ¬ point.Counted := by
  cases point with
  | reporting r => exact h.elim
  | returned => exact h.elim
  | acknowledged => exact h.elim
  | unsent => exact h.elim
  | finalizing p => exact h.elim
  | queued => exact fun hc => hc
  | checking => exact fun hc => hc
  | working => exact fun hc => hc
  | decrementing => exact fun hc => hc

/-! ### While windows are being counted -/

/-- A message moves between points that are both counted or both not. -/
theorem Counting.move (h : Counting job s) (hcounted : point.Counted ↔ (s.leaves i).Counted)
    (hnew : point.Pending ∨ point.Counted)
    (hstaged : point = .decrementing ∨ point.Counted → i < job.total → i ∈ s.keys.staged) :
    Counting job (s.moveLeaf i point) := by
  have hsame : counted job (s.moveLeaf i point) = counted job s := counted_moveLeaf_of_iff hcounted
  refine ⟨h.started, h.calls, by rw [hsame]; exact h.counter, by rw [hsame]; exact h.uncounted,
    fun j hj => ?_, fun j hj hpoint => ?_⟩
  · by_cases hji : j = i
    · subst hji
      rw [moveLeaf_self]
      exact .inr hnew
    · rw [moveLeaf_of_ne hji]
      exact h.points j hj
  · by_cases hji : j = i
    · subst hji
      rw [moveLeaf_self] at hpoint
      exact hstaged hpoint hj
    · rw [moveLeaf_of_ne hji] at hpoint
      exact h.staged j hj hpoint

theorem Counting.pending (h : Counting job s) (hold : ¬ (s.leaves i).Counted)
    (hnew : point.Pending) (hstaged : point = .decrementing → i ∈ s.keys.staged) :
    Counting job (s.moveLeaf i point) :=
  h.move (iff_of_false (not_counted_of_pending hnew) hold) (.inl hnew)
    fun hpoint _ => hstaged (hpoint.resolve_right (not_counted_of_pending hnew))

theorem Counting.counted_move (h : Counting job s) (hold : (s.leaves i).Counted)
    (hnew : point.Counted) : Counting job (s.moveLeaf i point) :=
  h.move (iff_of_true hnew hold) (.inr hnew) fun _ hi => h.staged i hi (.inr hold)

theorem Counting.stash (h : Counting job s) (payload : Payload) :
    Counting job { s with keys := s.keys.stashPartial i payload } :=
  ⟨h.started, h.calls, h.counter, h.uncounted, h.points, fun j hj hpoint =>
    (JobKeys.mem_staged_stashPartial _).mpr (.inr (h.staged j hj hpoint))⟩

theorem counted_of_card (hi : i < job.total) (hnot : ¬ (s.leaves i).Counted)
    (hcard : job.total ≤ (counted job s).card + 1) {j : ℕ} (hj : j < job.total) (hji : j ≠ i) :
    (s.leaves j).Counted := by
  by_contra hcontra
  have hsub : counted job s ⊆ ((Finset.range job.total).erase i).erase j := by
    intro k hk
    obtain ⟨hk, hcounted⟩ := Finset.mem_filter.mp hk
    have hkj : k ≠ j := fun hkj => hcontra (hkj ▸ hcounted)
    have hki : k ≠ i := fun hki => hnot (hki ▸ hcounted)
    exact Finset.mem_erase.mpr ⟨hkj, Finset.mem_erase.mpr ⟨hki, hk⟩⟩
  have hle := Finset.card_le_card hsub
  have hmem : j ∈ (Finset.range job.total).erase i :=
    Finset.mem_erase.mpr ⟨hji, Finset.mem_range.mpr hj⟩
  rw [Finset.card_erase_of_mem hmem, Finset.card_erase_of_mem (Finset.mem_range.mpr hi),
    Finset.card_range] at hle
  omega

theorem Counting.count (h : Counting job s) (hi : i < job.total)
    (hold : s.leaves i = .decrementing) :
    let s' := { s with keys := s.keys.decrement.2 }.moveLeaf i (.reporting s.keys.decrement.1)
    Counting job s' ∨ Closing job s' i := by
  intro s'
  have hnot : ¬ (s.leaves i).Counted := by rw [hold]; exact fun hc => hc
  have hremaining : s.keys.decrement.1 = (job.total : ℤ) - (counted job s).card - 1 ∨
      s.keys.decrement.1 = -1 ∧ job.total = (counted job s).card + 1 := by
    obtain hsome | ⟨hnone, hone⟩ := h.counter
    · exact .inl (by simp only [JobKeys.decrement, hsome, Option.getD_some])
    · exact .inr ⟨by simp only [JobKeys.decrement, hnone, Option.getD_none, zero_sub], hone⟩
  have hcounter : s'.keys.counter = some s.keys.decrement.1 := rfl
  have hstaged : ∀ j < job.total, s.leaves j = .decrementing ∨ (s.leaves j).Counted →
      j ∈ s'.keys.staged := h.staged
  have hlt := h.uncounted
  have hold' : s'.leaves i = .reporting s.keys.decrement.1 := moveLeaf_self
  by_cases hlast : (counted job s).card + 1 < job.total
  · -- the counter stays positive: one more window is counted
    left
    have hpos : (.reporting s.keys.decrement.1 : LeafPoint Payload).Counted := by
      show 0 < s.keys.decrement.1
      omega
    have hcounted : counted job s' = insert i (counted job s) :=
      counted_moveLeaf_insert (s := { s with keys := s.keys.decrement.2 }) hi hpos
    have hcard : (counted job s').card = (counted job s).card + 1 := by
      rw [hcounted]
      exact Finset.card_insert_of_notMem fun hmem => hnot (Finset.mem_filter.mp hmem).2
    refine ⟨h.started, h.calls, .inl ?_, by omega, fun j hj => ?_, fun j hj hpoint => ?_⟩
    · have hvalue : s.keys.decrement.1 = job.total - ((counted job s).card + 1 : ℕ) := by omega
      rw [hcounter, hcard, hvalue]
    · by_cases hji : j = i
      · subst hji
        rw [hold']
        exact .inr (.inr hpos)
      · rw [show s'.leaves j = s.leaves j from moveLeaf_of_ne hji]
        exact h.points j hj
    · by_cases hji : j = i
      · subst hji
        exact hstaged j hj (.inl hold)
      · rw [show s'.leaves j = s.leaves j from moveLeaf_of_ne hji] at hpoint
        exact hstaged j hj hpoint
  · -- the counter reaches zero: all other windows are counted, and so is everything staged
    right
    have hothers : ∀ j < job.total, j ≠ i → (s.leaves j).Counted := fun j hj hji =>
      counted_of_card hi hnot (by omega) hj hji
    have hle : s.keys.decrement.1 ≤ 0 := by omega
    refine ⟨h.started, h.calls, hle, hi, .inr ⟨_, hle, hold'⟩, fun j hj hji => ?_, fun j hj => ?_⟩
    · rw [show s'.leaves j = s.leaves j from moveLeaf_of_ne hji]
      exact hothers j hj hji
    · by_cases hji : j = i
      · subst hji
        exact hstaged j hj (.inl hold)
      · exact hstaged j hj (.inr (hothers j hj hji))

/-! ### After the last count -/

theorem Closing.own_move {s' : FanIn Payload Result} (h : Closing job s last)
    (hcoordinator : s'.coordinator = s.coordinator) (hcalls : s'.finalizations = s.finalizations)
    (hleaves : s'.leaves = s.leaves) (hcounter : s'.keys.counter.getD 0 ≤ 0)
    (hstaged : ∀ i < job.total, i ∈ s'.keys.staged)
    (hnew : point.Pending ∨ ∃ r ≤ 0, point = .reporting r) :
    Closing job (s'.moveLeaf last point) last := by
  refine ⟨?_, hcalls.trans h.calls, hcounter, h.lt_total, ?_, fun j hj hne => ?_, hstaged⟩
  · show s'.coordinator.Started
    rw [hcoordinator]
    exact h.started
  · rw [moveLeaf_self]
    exact hnew
  · rw [moveLeaf_of_ne hne, hleaves]
    exact h.others j hj hne

theorem Closing.other_move (h : Closing job s last) (hne : i ≠ last) (hnew : point.Counted) :
    Closing job (s.moveLeaf i point) last := by
  refine ⟨h.started, h.calls, h.counter, h.lt_total, ?_, fun j hj hjl => ?_, h.staged⟩
  · rw [moveLeaf_of_ne hne.symm]
    exact h.own
  · by_cases hji : j = i
    · subst hji
      rw [moveLeaf_self]
      exact hnew
    · rw [moveLeaf_of_ne hji]
      exact h.others j hj hjl

theorem Closing.finalize (h : Closing job s last) :
    Finalized job (s.callFinalizer.moveLeaf last (.finalizing .loading)) last := by
  refine ⟨h.started, ⟨s.keys.staged, ?_, h.staged⟩, h.lt_total, ?_, fun j hj hne => ?_⟩
  · show s.finalizations ++ [s.keys.staged] = [s.keys.staged]
    rw [h.calls, List.nil_append]
  · rw [moveLeaf_self]
    trivial
  · rw [moveLeaf_of_ne hne]
    exact h.others j hj hne

theorem Finalized.own_move {s' : FanIn Payload Result} (h : Finalized job s last)
    (hcoordinator : s'.coordinator = s.coordinator) (hcalls : s'.finalizations = s.finalizations)
    (hleaves : s'.leaves = s.leaves) (hnew : point.Finalized) :
    Finalized job (s'.moveLeaf last point) last := by
  refine ⟨?_, ?_, h.lt_total, by rw [moveLeaf_self]; exact hnew, fun j hj hne => ?_⟩
  · show s'.coordinator.Started
    rw [hcoordinator]
    exact h.started
  · show ∃ staged : List ℕ, s'.finalizations = [staged] ∧ ∀ i < job.total, i ∈ staged
    rw [hcalls]
    exact h.calls
  · rw [moveLeaf_of_ne hne, hleaves]
    exact h.others j hj hne

theorem Finalized.other_move (h : Finalized job s last) (hne : i ≠ last) (hnew : point.Counted) :
    Finalized job (s.moveLeaf i point) last := by
  refine ⟨h.started, h.calls, h.lt_total, ?_, fun j hj hjl => ?_⟩
  · rw [moveLeaf_of_ne hne.symm]
    exact h.own
  · by_cases hji : j = i
    · subst hji
      rw [moveLeaf_self]
      exact hnew
    · rw [moveLeaf_of_ne hji]
      exact h.others j hj hjl

end Moves

/-! ### One command of a worker in each phase -/

section LeafMoves

variable {s' : FanIn Payload Result} {i last : ℕ}

theorem Counting.leafMove (h : Counting job s) (hi : i < job.total) (hmove : LeafMove s i s') :
    Counting job s' ∨ Closing job s' i := by
  cases hmove with
  | stay => exact .inl h
  | pending hold hnew hstaged =>
    have hnot : ¬ (s.leaves i).Counted := by
      rcases hold with hold | ⟨r, hr, hold⟩
      · exact not_counted_of_pending hold
      · rw [hold]
        exact not_lt.mpr hr
    exact .inl (h.pending hnot hnew hstaged)
  | stash payload hold =>
    refine .inl ((h.stash payload).pending ?_ trivial fun _ => ?_)
    · show ¬ (s.leaves i).Counted
      rw [hold]
      exact fun hc => hc
    · exact (JobKeys.mem_staged_stashPartial _).mpr (.inl rfl)
  | count hold => exact h.count hi hold
  | finalize hold hlast =>
    rcases h.points i hi with hpoint | hpoint | hpoint
    · rw [hold] at hpoint
      cases hpoint
    · rw [hold] at hpoint
      exact hpoint.elim
    · rw [hold] at hpoint
      exact absurd hpoint (not_lt.mpr hlast)
  | finalizing hold hnew hleaves hcoordinator hcalls =>
    obtain ⟨p, hold⟩ := hold
    have hpoint := h.points i hi
    rw [hold] at hpoint
    rcases hpoint with hpoint | hpoint | hpoint
    · cases hpoint
    · exact hpoint.elim
    · exact hpoint.elim
  | counted hold hnew hfinal => exact .inl (h.counted_move hold hnew)

theorem LeafMove.of_counted (hmove : LeafMove s i s') (hold : (s.leaves i).Counted) :
    s' = s ∨ ∃ point : LeafPoint Payload, s' = s.moveLeaf i point ∧ point.Counted ∧
      ((s.leaves i).Finalized → point.Finalized) := by
  cases hmove with
  | stay => exact .inl rfl
  | pending hpoint =>
    rcases hpoint with hpoint | ⟨r, hr, hpoint⟩
    · exact absurd hold (not_counted_of_pending hpoint)
    · rw [hpoint] at hold
      exact absurd hold (not_lt.mpr hr)
  | stash payload hpoint => rw [hpoint] at hold; exact hold.elim
  | count hpoint => rw [hpoint] at hold; exact hold.elim
  | finalize hpoint hlast => rw [hpoint] at hold; exact absurd hold (not_lt.mpr hlast)
  | finalizing hpoint =>
    obtain ⟨p, hpoint⟩ := hpoint
    rw [hpoint] at hold
    exact hold.elim
  | counted _ hnew hfinal => exact .inr ⟨_, rfl, hnew, hfinal⟩

theorem Closing.leafMove (h : Closing job s last) (hi : i < job.total) (hmove : LeafMove s i s') :
    Closing job s' last ∨ Finalized job s' last := by
  by_cases hne : i = last
  · subst hne
    cases hmove with
    | stay => exact .inl h
    | pending _ hnew _ => exact .inl (h.own_move rfl rfl rfl h.counter h.staged (.inl hnew))
    | stash payload hold =>
      refine .inl (h.own_move rfl rfl rfl h.counter (fun j hj => ?_) (.inl trivial))
      exact (JobKeys.mem_staged_stashPartial _).mpr (.inr (h.staged j hj))
    | count hold =>
      have hle : s.keys.decrement.1 ≤ 0 := by
        have hcounter := h.counter
        simp only [JobKeys.decrement]
        omega
      exact .inl (h.own_move rfl rfl rfl hle h.staged (.inr ⟨_, hle, rfl⟩))
    | finalize hold hlast => exact .inr h.finalize
    | finalizing hold =>
      obtain ⟨p, hold⟩ := hold
      rcases h.own with hown | ⟨r, hr, hown⟩
      · rw [hold] at hown
        exact hown.elim
      · rw [hold] at hown
        cases hown
    | counted hold =>
      rcases h.own with hown | ⟨r, hr, hown⟩
      · exact absurd hold (not_counted_of_pending hown)
      · rw [hown] at hold
        exact absurd hold (not_lt.mpr hr)
  · rcases hmove.of_counted (h.others i hi hne) with rfl | ⟨point, rfl, hnew, -⟩
    · exact .inl h
    · exact .inl (h.other_move hne hnew)

theorem Finalized.leafMove (h : Finalized job s last) (hi : i < job.total)
    (hmove : LeafMove s i s') : Finalized job s' last := by
  by_cases hne : i = last
  · subst hne
    have hown := h.own
    cases hmove with
    | stay => exact h
    | pending hold =>
      rcases hold with hold | ⟨r, hr, hold⟩
      · cases hpoint : s.leaves i <;> rw [hpoint] at hold hown <;>
          first | exact hold.elim | exact hown.elim
      · rw [hold] at hown
        exact hown.elim
    | stash payload hold => rw [hold] at hown; exact hown.elim
    | count hold => rw [hold] at hown; exact hown.elim
    | finalize hold => rw [hold] at hown; exact hown.elim
    | finalizing _ hnew hleaves hcoordinator hcalls =>
      exact h.own_move hcoordinator hcalls hleaves hnew
    | counted _ _ hfinal => exact h.own_move rfl rfl rfl (hfinal hown)
  · rcases hmove.of_counted (h.others i hi hne) with rfl | ⟨point, rfl, hnew, -⟩
    · exact h
    · exact h.other_move hne hnew

theorem moveLeaf_unsent {base : FanIn Payload Result} {point : LeafPoint Payload}
    (hleaves : base.leaves = s.leaves) (hold : s.leaves i ≠ .unsent) (hnew : point ≠ .unsent)
    (j : ℕ) : (base.moveLeaf i point).leaves j = .unsent ↔ s.leaves j = .unsent := by
  by_cases hji : j = i
  · subst hji
    rw [moveLeaf_self]
    exact iff_of_false hnew hold
  · rw [moveLeaf_of_ne hji, hleaves]

theorem ne_unsent_of_pending {point : LeafPoint Payload} (h : point.Pending) :
    point ≠ .unsent := by
  rintro rfl
  exact h

theorem ne_unsent_of_counted {point : LeafPoint Payload} (h : point.Counted) :
    point ≠ .unsent := by
  rintro rfl
  exact h

theorem ne_unsent_of_finalized {point : LeafPoint Payload} (h : point.Finalized) :
    point ≠ .unsent := by
  rintro rfl
  exact h

theorem LeafMove.frame (hmove : LeafMove s i s') :
    (∀ j, s'.leaves j = .unsent ↔ s.leaves j = .unsent) ∧ s'.coordinator = s.coordinator := by
  cases hmove with
  | stay => exact ⟨fun _ => .rfl, rfl⟩
  | pending hold hnew =>
    refine ⟨moveLeaf_unsent rfl ?_ (ne_unsent_of_pending hnew), rfl⟩
    rcases hold with hold | ⟨r, -, hold⟩
    · exact ne_unsent_of_pending hold
    · simp [hold]
  | stash payload hold => exact ⟨moveLeaf_unsent rfl (by simp [hold]) (by simp), rfl⟩
  | count hold => exact ⟨moveLeaf_unsent rfl (by simp [hold]) (by simp), rfl⟩
  | finalize hold => exact ⟨moveLeaf_unsent rfl (by simp [hold]) (by simp), rfl⟩
  | finalizing hold hnew hleaves hcoordinator =>
    obtain ⟨p, hold⟩ := hold
    exact ⟨moveLeaf_unsent hleaves (by simp [hold]) (ne_unsent_of_finalized hnew), hcoordinator⟩
  | counted hold hnew =>
    exact ⟨moveLeaf_unsent rfl (ne_unsent_of_counted hold) (ne_unsent_of_counted hnew), rfl⟩

end LeafMoves

/-! ## One step -/

theorem FanInInvariant.initial : FanInInvariant job {} :=
  ⟨fun i => iff_of_true rfl (Nat.zero_le i), Nat.zero_le _, .inl ⟨.inl rfl, rfl⟩⟩

theorem FanInInvariant.leafMove {s' : FanIn Payload Result} {i : ℕ} (h : FanInInvariant job s)
    (hmove : LeafMove s i s') : FanInInvariant job s' := by
  obtain ⟨hunsent, hcoordinator⟩ := hmove.frame
  refine ⟨fun j => (hunsent j).trans (by rw [hcoordinator]; exact h.unsent j),
    by rw [hcoordinator]; exact h.sent_le, ?_⟩
  by_cases hi : s.leaves i = .unsent
  · -- the message is not out, so its worker is not there to move
    have hsame : s' = s := by
      cases hmove with
      | stay => rfl
      | pending hold =>
        rcases hold with hold | ⟨r, -, hold⟩
        · exact absurd hi (ne_unsent_of_pending hold)
        · simp [hi] at hold
      | stash payload hold => simp [hi] at hold
      | count hold => simp [hi] at hold
      | finalize hold => simp [hi] at hold
      | finalizing hold => simp [hi] at hold
      | counted hold => exact absurd hi (ne_unsent_of_counted hold)
    rw [hsame]
    exact h.phase
  · have hlt : i < job.total := by
      have hnot := mt (h.unsent i).mpr hi
      have hle := h.sent_le
      omega
    rcases h.phase with hidle | hcounting | ⟨last, hclosing⟩ | ⟨last, hfinal⟩
    · have hzero : s.coordinator.sent job.total = 0 := by
        rcases hidle.point with hpoint | hpoint <;> rw [hpoint] <;> rfl
      exact absurd ((h.unsent i).mpr (by omega)) hi
    · rcases hcounting.leafMove hlt hmove with hphase | hphase
      · exact .inr (.inl hphase)
      · exact .inr (.inr (.inl ⟨i, hphase⟩))
    · rcases hclosing.leafMove hlt hmove with hphase | hphase
      · exact .inr (.inr (.inl ⟨last, hphase⟩))
      · exact .inr (.inr (.inr ⟨last, hphase⟩))
    · exact .inr (.inr (.inr ⟨last, hfinal.leafMove hlt hmove⟩))

theorem Counting.seed (h : FanInInvariant job s) (hidle : Idle s)
    (hpoint : s.coordinator = .seeding) :
    Counting job { s with keys := s.keys.initCounter job.total, coordinator := .sending 0 } := by
  have hunsent : ∀ i, s.leaves i = .unsent := fun i =>
    (h.unsent i).mpr (by rw [hpoint]; exact Nat.zero_le i)
  have hnone : counted job { s with
      keys := s.keys.initCounter job.total, coordinator := .sending 0 } = ∅ := by
    refine Finset.filter_eq_empty_iff.mpr fun i _ hcounted => ?_
    exact ne_unsent_of_counted hcounted (hunsent i)
  refine ⟨trivial, hidle.calls, ?_, ?_, fun i _ => .inl (hunsent i), fun i _ hpoint => ?_⟩
  · rw [hnone]
    exact .inl (by simp [JobKeys.initCounter])
  · rw [hnone]
    exact job.total_pos
  · rcases hpoint with hpoint | hpoint
    · exact absurd ((hunsent i).symm.trans hpoint) (by simp)
    · exact absurd (hunsent i) (ne_unsent_of_counted hpoint)

theorem Counting.send {next : ℕ} (h : Counting job s) (hold : s.leaves next = .unsent) :
    Counting job { s.moveLeaf next .queued with coordinator := .sending (next + 1) } := by
  have hnot : ¬ (s.leaves next).Counted := by rw [hold]; exact fun hc => hc
  have hsent : Counting job (s.moveLeaf next .queued) := h.pending hnot trivial (by simp)
  exact ⟨trivial, hsent.calls, hsent.counter, hsent.uncounted, hsent.points, hsent.staged⟩

theorem FanInInvariant.total_le_sent (h : FanInInvariant job s)
    (hout : ∀ i < job.total, s.leaves i ≠ .unsent) : job.total ≤ s.coordinator.sent job.total := by
  by_contra hlt
  exact hout _ (not_le.mp hlt) ((h.unsent _).mpr le_rfl)

theorem Closing.ne_unsent {last i : ℕ} (h : Closing job s last) (hi : i < job.total) :
    s.leaves i ≠ .unsent := by
  by_cases hne : i = last
  · subst hne
    rcases h.own with hown | ⟨r, -, hown⟩
    · exact ne_unsent_of_pending hown
    · simp [hown]
  · exact ne_unsent_of_counted (h.others i hi hne)

theorem Finalized.ne_unsent {last i : ℕ} (h : Finalized job s last) (hi : i < job.total) :
    s.leaves i ≠ .unsent := by
  by_cases hne : i = last
  · subst hne
    exact ne_unsent_of_finalized h.own
  · exact ne_unsent_of_counted (h.others i hi hne)

theorem FanInInvariant.finish_sending {next : ℕ} (h : FanInInvariant job s)
    (hpoint : s.coordinator = .sending next) (hnext : ¬ next < job.total) :
    FanInInvariant job { s with coordinator := .returned } := by
  have hunsent := h.unsent
  have hle := h.sent_le
  rw [hpoint] at hunsent hle
  have htotal : next = job.total := le_antisymm hle (not_lt.mp hnext)
  subst htotal
  refine ⟨hunsent, le_rfl, ?_⟩
  rcases h.phase with hp | hp | ⟨last, hp⟩ | ⟨last, hp⟩
  · rcases hp.point with hidle | hidle <;> simp [hpoint] at hidle
  · exact .inr (.inl ⟨trivial, hp.calls, hp.counter, hp.uncounted, hp.points, hp.staged⟩)
  · exact .inr (.inr (.inl ⟨last, trivial, hp.calls, hp.counter, hp.lt_total, hp.own, hp.others,
      hp.staged⟩))
  · exact .inr (.inr (.inr ⟨last, trivial, hp.calls, hp.lt_total, hp.own, hp.others⟩))

theorem FanInInvariant.send {next : ℕ} (h : FanInInvariant job s)
    (hpoint : s.coordinator = .sending next) (hnext : next < job.total) :
    FanInInvariant job { s.moveLeaf next .queued with coordinator := .sending (next + 1) } := by
  have hunsent := h.unsent
  rw [hpoint] at hunsent
  have hsent : s.coordinator.sent job.total = next := by rw [hpoint]; rfl
  refine ⟨fun i => ?_, hnext, ?_⟩
  · show (s.moveLeaf next .queued).leaves i = .unsent ↔ next + 1 ≤ i
    by_cases hi : i = next
    · subst hi
      simp
    · rw [moveLeaf_of_ne hi, hunsent i]
      show next ≤ i ↔ next + 1 ≤ i
      omega
  · rcases h.phase with hp | hp | ⟨last, hp⟩ | ⟨last, hp⟩
    · rcases hp.point with hidle | hidle <;> simp [hpoint] at hidle
    · exact .inr (.inl (hp.send ((hunsent next).mpr le_rfl)))
    · have hle := h.total_le_sent fun i hi => hp.ne_unsent hi
      omega
    · have hle := h.total_le_sent fun i hi => hp.ne_unsent hi
      omega

theorem FanInInvariant.not_finalizing (h : FanInInvariant job s) (p : FinalizePoint Payload) :
    s.coordinator ≠ .finalizing p := by
  intro hpoint
  rcases h.phase with hp | hp | ⟨last, hp⟩ | ⟨last, hp⟩
  · rcases hp.point with hidle | hidle <;> simp [hpoint] at hidle
  · have hstarted := hp.started
    rw [hpoint] at hstarted
    exact hstarted
  · have hstarted := hp.started
    rw [hpoint] at hstarted
    exact hstarted
  · have hstarted := hp.started
    rw [hpoint] at hstarted
    exact hstarted

theorem FanInInvariant.idle (h : FanInInvariant job s)
    (hpoint : s.coordinator = .checking ∨ s.coordinator = .seeding) : Idle s := by
  refine ⟨hpoint, ?_⟩
  rcases h.phase with hp | hp | ⟨last, hp⟩ | ⟨last, hp⟩
  · exact hp.calls
  · exact hp.calls
  · exact hp.calls
  · have hstarted := hp.started
    rcases hpoint with hpoint | hpoint <;> rw [hpoint] at hstarted <;> exact hstarted.elim

theorem FanInInvariant.coordinate (h : FanInInvariant job s)
    (hcondition : CountsOnce s .coordinate) : FanInInvariant job (dispatchWindows job s) := by
  have hunsent := h.unsent
  unfold dispatchWindows
  split
  next hpoint =>
    have hidle := h.idle (.inl hpoint)
    rw [hcondition hpoint]
    rw [hpoint] at hunsent
    exact ⟨hunsent, Nat.zero_le _, .inl ⟨.inr rfl, hidle.calls⟩⟩
  next hpoint =>
    have hidle := h.idle (.inr hpoint)
    rw [hpoint] at hunsent
    exact ⟨hunsent, Nat.zero_le _, .inr (.inl (Counting.seed h hidle hpoint))⟩
  next next hpoint =>
    split
    next hnext => exact h.send hpoint hnext
    next hnext => exact h.finish_sending hpoint hnext
  next point hpoint => exact absurd hpoint (h.not_finalizing point)
  next hpoint => exact h

/-! ## Time -/

section Time

variable {seconds last : ℕ}

theorem staged_elapse (h : CountsOnce s (.elapse seconds)) (hcalls : s.finalizations = []) :
    (s.keys.elapse seconds).staged = s.keys.staged := by
  have hlast : ¬ JobKeys.expires s.keys.ttl.partials seconds := fun hover => (h.2 hover).1 hcalls
  rw [JobKeys.staged, JobKeys.elapse, if_neg hlast, JobKeys.staged]

theorem counter_elapse (h : CountsOnce s (.elapse seconds)) :
    (s.keys.elapse seconds).counter = s.keys.counter ∨
      (s.keys.elapse seconds).counter = none ∧ ∀ remaining ∈ s.keys.counter, remaining ≤ 1 := by
  by_cases hover : JobKeys.expires s.keys.ttl.counter seconds
  · exact .inr ⟨if_pos hover, h.1 hover⟩
  · exact .inl (if_neg hover)

theorem Counting.elapse (h : Counting job s) (hcondition : CountsOnce s (.elapse seconds)) :
    Counting job { s with keys := s.keys.elapse seconds } := by
  refine ⟨h.started, h.calls, ?_, h.uncounted, h.points, ?_⟩
  · obtain hsame | ⟨hnone, hle⟩ := counter_elapse hcondition
    · exact h.counter.imp hsame.trans (And.imp_left hsame.trans)
    · refine .inr ⟨hnone, ?_⟩
      obtain hsome | ⟨-, hone⟩ := h.counter
      · have hremaining := hle _ hsome
        have hlt := h.uncounted
        show job.total = (counted job s).card + 1
        omega
      · exact hone
  · rw [staged_elapse hcondition h.calls]
    exact h.staged

theorem Closing.elapse (h : Closing job s last) (hcondition : CountsOnce s (.elapse seconds)) :
    Closing job { s with keys := s.keys.elapse seconds } last := by
  refine ⟨h.started, h.calls, ?_, h.lt_total, h.own, h.others, ?_⟩
  · obtain hsame | ⟨hnone, -⟩ := counter_elapse hcondition
    · exact hsame ▸ h.counter
    · exact hnone ▸ le_rfl
  · rw [staged_elapse hcondition h.calls]
    exact h.staged

end Time

theorem FanInInvariant.step {e : Event Payload} (hcondition : CountsOnce s e)
    (h : FanInInvariant job s) : FanInInvariant job (step job s e) := by
  cases hleaf : e.leaf? with
  | some i => exact h.leafMove (step_leafMove hleaf hcondition)
  | none =>
    cases e with
    | coordinate => exact h.coordinate hcondition
    | requestCancel =>
      refine ⟨h.unsent, h.sent_le, ?_⟩
      rcases h.phase with hp | hp | ⟨last, hp⟩ | ⟨last, hp⟩
      · exact .inl ⟨hp.point, hp.calls⟩
      · exact .inr (.inl { hp with })
      · exact .inr (.inr (.inl ⟨last, { hp with }⟩))
      · exact .inr (.inr (.inr ⟨last, { hp with }⟩))
    | elapse seconds =>
      refine ⟨h.unsent, h.sent_le, ?_⟩
      rcases h.phase with hp | hp | ⟨last, hp⟩ | ⟨last, hp⟩
      · exact .inl ⟨hp.point, hp.calls⟩
      · exact .inr (.inl (hp.elapse hcondition))
      · exact .inr (.inr (.inl ⟨last, hp.elapse hcondition⟩))
      · exact .inr (.inr (.inr ⟨last, { hp with }⟩))
    | deliver i => cases hleaf
    | advance i outcome => cases hleaf
    | acknowledge i => cases hleaf
    | workerDies i => cases hleaf

theorem FanInInvariant.run {events : List (Event Payload)}
    (h : Admissible (Tasks.step job) CountsOnce {} events) :
    FanInInvariant job (RunInvariants.run (Tasks.step job) {} events) :=
  invariant_of_admissible _ h .initial fun _ _ hcondition hinv => hinv.step hcondition

end Runs

end QBackend.Tasks
