import QBackend.FanInPhases
import QBackend.OrderedSeries

/-!
# What the finalizer of a fan-in writes

When every execution of a window stages the same partial result, the finalizer of an admissible run
finds all of them, brings them into the order of the windows whatever order they came in, and writes
the result of the whole once.
-/

namespace QBackend.Tasks

open RunInvariants

/-! ## The hash of partial results -/

namespace JobKeys

variable {Payload : Type} {keys : JobKeys Payload} {expected : ℕ → Payload}

/-- The hash holds at most one partial result of each window, the expected one. -/
structure Holds (keys : JobKeys Payload) (expected : ℕ → Payload) : Prop where
  values : ∀ p ∈ keys.partials, p.2 = expected p.1
  nodup : keys.staged.Nodup

theorem Holds.empty (h : keys.partials = []) : keys.Holds expected :=
  ⟨by simp [h], by simp [staged, h]⟩

theorem Holds.of_partials {keys' : JobKeys Payload} (h : keys.Holds expected)
    (hsame : keys'.partials = keys.partials) : keys'.Holds expected :=
  ⟨hsame ▸ h.values, by
    have hnodup := h.nodup
    rw [staged] at hnodup ⊢
    rw [hsame]
    exact hnodup⟩

theorem Holds.stash (h : keys.Holds expected) (i : ℕ) :
    (keys.stashPartial i (expected i)).Holds expected := by
  refine ⟨fun p hp => ?_, ?_⟩
  · rcases List.mem_append.mp hp with hp | hp
    · exact h.values p (List.mem_of_mem_filter hp)
    · rw [List.mem_singleton.mp hp]
  · have hold : ((keys.partials.filter fun p => p.1 ≠ i).map Prod.fst).Nodup :=
      h.nodup.sublist (List.filter_sublist.map Prod.fst)
    have hnot : i ∉ (keys.partials.filter fun p => p.1 ≠ i).map Prod.fst := by simp
    simp only [staged, stashPartial, List.map_append, List.map_cons, List.map_nil]
    exact List.nodup_append.mpr ⟨hold, by simp, fun a ha b hb hab => by
      rw [List.mem_singleton.mp hb] at hab
      exact hnot (hab ▸ ha)⟩

theorem Holds.loadPartials_eq (h : keys.Holds expected) :
    keys.loadPartials = keys.staged.map expected := by
  rw [loadPartials, staged, List.map_map]
  exact List.map_congr_left h.values

/-- The order in which the partial results are loaded is all that is left open. -/
theorem Holds.loadPartials_perm (h : keys.Holds expected) {total : ℕ}
    (hall : ∀ i, i ∈ keys.staged ↔ i < total) :
    keys.loadPartials.Perm ((List.range total).map expected) := by
  rw [h.loadPartials_eq]
  apply List.Perm.map
  rw [List.perm_ext_iff_of_nodup h.nodup List.nodup_range]
  intro i
  rw [hall, List.mem_range]

end JobKeys

section Runs

variable {Payload Result : Type} {job : Job Payload Result} {expected : ℕ → Payload}
  {s s' : FanIn Payload Result} {i : ℕ}

/-- Every execution of a window stages the expected partial result. -/
def StagesExpected (job : Job Payload Result) (expected : ℕ → Payload) (s : FanIn Payload Result) :
    Event Payload → Prop
  | .advance i outcome => s.leaves i = .working → outcome.getD (job.noResult i) = expected i
  | .coordinate | .deliver _ | .acknowledge _ | .workerDies _ | .requestCancel | .elapse _ => True

/-- The finalizer runs and has not written its result. -/
def LeafPoint.Awaiting : LeafPoint Payload → Prop
  | .finalizing .loading | .finalizing (.finishing _) => True
  | .finalizing .clearingPartials | .finalizing .clearingKeys | .unsent | .queued | .checking
  | .working | .decrementing | .reporting _ | .returned | .acknowledged => False

/-- The expected partial results in the order of the windows. -/
def inOrder (job : Job Payload Result) (expected : ℕ → Payload) : List Payload :=
  (List.range job.total).map expected

/-- What the finalizer holds and has written. -/
structure Aggregating (job : Job Payload Result) (expected : ℕ → Payload)
    (s : FanIn Payload Result) : Prop where
  keys : s.keys.Holds expected
  lt_total : ∀ i ∈ s.keys.staged, i < job.total
  loading : ∀ i, s.leaves i = .finalizing .loading → ∀ j < job.total, j ∈ s.keys.staged
  finishing : ∀ i windows, s.leaves i = .finalizing (.finishing windows) →
    windows = inOrder job expected
  unwritten : s.finalizations = [] ∨ (∃ i, (s.leaves i).Awaiting) → s.finished = []
  written : s.finalizations ≠ [] → (∀ i, ¬ (s.leaves i).Awaiting) →
    s.finished.map Prod.snd = [job.finalizeResult (inOrder job expected)]

theorem Aggregating.initial : Aggregating job expected {} where
  keys := .empty rfl
  lt_total := by simp [JobKeys.staged]
  loading i h := by cases h
  finishing i windows h := by cases h
  unwritten _ := rfl
  written h := absurd rfl h

/-! ## Who may be at work in the finalizer -/

theorem FanInInvariant.lt_total (h : FanInInvariant job s) (hi : s.leaves i ≠ .unsent) :
    i < job.total := by
  have hsent : ¬ s.coordinator.sent job.total ≤ i := fun hle => hi ((h.unsent i).mpr hle)
  have hle := h.sent_le
  omega

theorem Idle.leaves_unsent (h : FanInInvariant job s) (hidle : Idle s) (i : ℕ) :
    s.leaves i = .unsent := by
  refine (h.unsent i).mpr ?_
  rcases hidle.point with hpoint | hpoint
  · simp [hpoint, CoordinatorPoint.sent]
  · simp [hpoint, CoordinatorPoint.sent]

theorem not_awaiting_of_counted {point : LeafPoint Payload} (h : point.Counted) :
    ¬ point.Awaiting := by
  cases point with
  | reporting remaining => exact fun hawaiting => hawaiting
  | returned => exact fun hawaiting => hawaiting
  | acknowledged => exact fun hawaiting => hawaiting
  | unsent | queued | checking | working | decrementing | finalizing => exact h.elim

/-- A worker between the last count and its acknowledgement is that of the last window. -/
theorem FanInInvariant.last_of (h : FanInInvariant job s) (hsent : s.leaves i ≠ .unsent)
    (hpending : ¬ (s.leaves i).Pending) (hcounted : ¬ (s.leaves i).Counted) :
    Closing job s i ∨ Finalized job s i := by
  have hi := h.lt_total hsent
  rcases h.phase with hp | hp | ⟨last, hp⟩ | ⟨last, hp⟩
  · exact absurd (hp.leaves_unsent h i) hsent
  · rcases hp.points i hi with hpoint | hpoint | hpoint
    · exact absurd hpoint hsent
    · exact absurd hpoint hpending
    · exact absurd hpoint hcounted
  · by_cases hlast : i = last
    · exact .inl (hlast ▸ hp)
    · exact absurd (hp.others i hi hlast) hcounted
  · by_cases hlast : i = last
    · exact .inr (hlast ▸ hp)
    · exact absurd (hp.others i hi hlast) hcounted

theorem FanInInvariant.finalized_of_finalizing (h : FanInInvariant job s)
    {point : FinalizePoint Payload} (hpoint : s.leaves i = .finalizing point) :
    Finalized job s i := by
  refine (h.last_of (by simp [hpoint]) (by rw [hpoint]; exact id) (by rw [hpoint]; exact id)).resolve_left
    fun hp => ?_
  have hown := hp.own
  rw [hpoint] at hown
  rcases hown with hown | ⟨r, -, hown⟩
  · exact hown
  · cases hown

theorem FanInInvariant.not_awaiting_of_ne (h : FanInInvariant job s)
    {point : FinalizePoint Payload} (hpoint : s.leaves i = .finalizing point) {j : ℕ}
    (hne : j ≠ i) : ¬ (s.leaves j).Awaiting := by
  have hfinalized := h.finalized_of_finalizing hpoint
  by_cases hj : j < job.total
  · exact not_awaiting_of_counted (hfinalized.others j hj hne)
  · have hunsent : s.leaves j = .unsent := by
      by_contra hsent
      exact hj (h.lt_total hsent)
    rw [hunsent]
    exact fun hawaiting => hawaiting

theorem FanInInvariant.closing_of_reporting (h : FanInInvariant job s) {remaining : ℤ}
    (hpoint : s.leaves i = .reporting remaining) (hlast : remaining ≤ 0) : Closing job s i := by
  refine (h.last_of (by simp [hpoint]) (by rw [hpoint]; exact id)
    (by rw [hpoint]; exact not_lt.mpr hlast)).resolve_right fun hp => ?_
  have hown := hp.own
  rw [hpoint] at hown
  exact hown

/-! ## One step -/

/-- A step that leaves the partial results, the calls and the results alone, and no worker in the
finalizer moves. -/
theorem Aggregating.frame (h : Aggregating job expected s)
    (hpartials : s'.keys.partials = s.keys.partials) (hcalls : s'.finalizations = s.finalizations)
    (hfinished : s'.finished = s.finished)
    (hleaves : ∀ j, s'.leaves j = s.leaves j ∨ (¬ (s'.leaves j).Awaiting ∧ ¬ (s.leaves j).Awaiting)) :
    Aggregating job expected s' := by
  have hback : ∀ j, (s'.leaves j).Awaiting → s'.leaves j = s.leaves j := fun j hj =>
    (hleaves j).resolve_right fun hboth => hboth.1 hj
  have hforth : ∀ j, (s.leaves j).Awaiting → s'.leaves j = s.leaves j := fun j hj =>
    (hleaves j).resolve_right fun hboth => hboth.2 hj
  have hstaged : s'.keys.staged = s.keys.staged := by rw [JobKeys.staged, hpartials]; rfl
  refine ⟨h.keys.of_partials hpartials, hstaged ▸ h.lt_total, fun i hi => ?_,
    fun i windows hi => ?_, fun hstart => ?_, fun hcalled hnone => ?_⟩
  · have hsame := hback i (by rw [hi]; trivial)
    rw [hstaged]
    exact h.loading i (hsame ▸ hi)
  · have hsame := hback i (by rw [hi]; trivial)
    exact h.finishing i windows (hsame ▸ hi)
  · rw [hfinished]
    refine h.unwritten (hstart.imp (fun hnil => hcalls ▸ hnil) ?_)
    rintro ⟨i, hi⟩
    exact ⟨i, hback i hi ▸ hi⟩
  · rw [hfinished]
    refine h.written (hcalls ▸ hcalled) fun i hi => hnone i ?_
    rw [hforth i hi]
    exact hi

theorem Aggregating.moveLeaf (h : Aggregating job expected s) {base : FanIn Payload Result}
    {point : LeafPoint Payload} (hpartials : base.keys.partials = s.keys.partials)
    (hcalls : base.finalizations = s.finalizations) (hfinished : base.finished = s.finished)
    (hleaves : base.leaves = s.leaves) (hold : ¬ (s.leaves i).Awaiting)
    (hnew : ¬ point.Awaiting) : Aggregating job expected (base.moveLeaf i point) := by
  refine h.frame hpartials hcalls hfinished fun j => ?_
  by_cases hj : j = i
  · subst hj
    right
    rw [moveLeaf_self]
    exact ⟨hnew, hold⟩
  · left
    rw [moveLeaf_of_ne hj, hleaves]

theorem Aggregating.stash (h : Aggregating job expected s) (hi : i < job.total) :
    Aggregating job expected { s with keys := s.keys.stashPartial i (expected i) } where
  keys := h.keys.stash i
  lt_total j hj := by
    rcases (JobKeys.mem_staged_stashPartial s.keys).mp hj with rfl | hj
    · exact hi
    · exact h.lt_total j hj
  loading k hk j hj := (JobKeys.mem_staged_stashPartial s.keys).mpr (.inr (h.loading k hk j hj))
  finishing := h.finishing
  unwritten := h.unwritten
  written := h.written

theorem Aggregating.callFinalizer (h : Aggregating job expected s) (hclosing : Closing job s i) :
    Aggregating job expected (s.callFinalizer.moveLeaf i (.finalizing .loading)) where
  keys := h.keys
  lt_total := h.lt_total
  loading _ _ j hj := hclosing.staged j hj
  finishing j windows hj := by
    by_cases hji : j = i
    · subst hji
      rw [moveLeaf_self] at hj
      cases hj
    · rw [moveLeaf_of_ne hji] at hj
      exact h.finishing j windows hj
  unwritten _ := h.unwritten (.inl hclosing.calls)
  written _ hnone := by
    refine absurd ?_ (hnone i)
    rw [moveLeaf_self]
    trivial

theorem Aggregating.load (h : Aggregating job expected s)
    (hindex : ∀ j < job.total, job.windowIndex (expected j) = j)
    (hpoint : s.leaves i = .finalizing .loading) :
    Aggregating job expected (s.moveLeaf i (.finalizing (.finishing (s.keys.loadPartials.mergeSort
      (fun a b => decide (job.windowIndex a ≤ job.windowIndex b)))))) := by
  have hall : ∀ j, j ∈ s.keys.staged ↔ j < job.total := fun j =>
    ⟨h.lt_total j, h.loading i hpoint j⟩
  have hordered : OrderedSeries.Ordered job.windowIndex (inOrder job expected) := by
    refine List.pairwise_map.mpr (List.pairwise_lt_range.imp_of_mem fun hx hy hlt => ?_)
    rw [hindex _ (List.mem_range.mp hx), hindex _ (List.mem_range.mp hy)]
    exact hlt
  have hsorted := OrderedSeries.mergeSort_eq_of_perm hordered (h.keys.loadPartials_perm hall)
  refine ⟨h.keys, h.lt_total, fun k hk => ?_, fun k windows hk => ?_, fun _ => ?_,
    fun _ hnone => ?_⟩
  · by_cases hki : k = i
    · exact h.loading i hpoint
    · rw [moveLeaf_of_ne hki] at hk
      exact h.loading k hk
  · by_cases hki : k = i
    · subst hki
      rw [moveLeaf_self, hsorted] at hk
      injection hk with hk
      injection hk with hk
      exact hk.symm
    · rw [moveLeaf_of_ne hki] at hk
      exact h.finishing k windows hk
  · refine h.unwritten (.inr ⟨i, ?_⟩)
    rw [hpoint]
    trivial
  · refine absurd ?_ (hnone i)
    rw [moveLeaf_self]
    trivial

theorem Aggregating.finish (h : Aggregating job expected s) (hinv : FanInInvariant job s)
    {windows : List Payload} {status : JobStatus}
    (hpoint : s.leaves i = .finalizing (.finishing windows)) :
    Aggregating job expected
      ({ s with finished := s.finished ++ [(status, job.finalizeResult windows)] }.moveLeaf i
        (.finalizing .clearingPartials)) := by
  have hnone : ∀ j, ¬ ((FanIn.moveLeaf { s with
      finished := s.finished ++ [(status, job.finalizeResult windows)] } i
        (.finalizing .clearingPartials)).leaves j).Awaiting := by
    intro j
    by_cases hj : j = i
    · subst hj
      rw [moveLeaf_self]
      exact fun hawaiting => hawaiting
    · rw [moveLeaf_of_ne hj]
      exact hinv.not_awaiting_of_ne hpoint hj
  have hempty : s.finished = [] := by
    refine h.unwritten (.inr ⟨i, ?_⟩)
    rw [hpoint]
    trivial
  refine ⟨h.keys, h.lt_total, fun k hk => ?_, fun k ws hk => ?_, fun hstart => ?_, fun _ _ => ?_⟩
  · exact absurd (by rw [hk]; trivial) (hnone k)
  · exact absurd (by rw [hk]; trivial) (hnone k)
  · rcases hstart with hnil | ⟨j, hj⟩
    · obtain ⟨staged, hcalls, -⟩ := (hinv.finalized_of_finalizing hpoint).calls
      rw [FanIn.moveLeaf] at hnil
      simp only [hcalls] at hnil
      cases hnil
    · exact absurd hj (hnone j)
  · simp [FanIn.moveLeaf, hempty, h.finishing i windows hpoint]

theorem Aggregating.clear (h : Aggregating job expected s) (hinv : FanInInvariant job s)
    (hpoint : s.leaves i = .finalizing .clearingPartials) :
    Aggregating job expected { s with keys := s.keys.clearPartials } where
  keys := .empty rfl
  lt_total := by simp [JobKeys.staged, JobKeys.clearPartials]
  loading k hk := by
    by_cases hki : k = i
    · subst hki
      rw [hpoint] at hk
      cases hk
    · exact absurd (by rw [hk]; trivial) (hinv.not_awaiting_of_ne hpoint hki)
  finishing := h.finishing
  unwritten := h.unwritten
  written := h.written

theorem Aggregating.runWindow (h : Aggregating job expected s) (hinv : FanInInvariant job s)
    (hindex : ∀ j < job.total, job.windowIndex (expected j) = j) (outcome : Option Payload)
    (hstages : StagesExpected job expected s (.advance i outcome)) :
    Aggregating job expected (runWindow job s i outcome) := by
  unfold Tasks.runWindow
  split
  next hpoint =>
    refine h.moveLeaf rfl rfl rfl rfl (by rw [hpoint]; exact id) ?_
    split <;> exact id
  next hpoint =>
    have hi : i < job.total := hinv.lt_total (by rw [hpoint]; simp)
    rw [hstages hpoint]
    exact (h.stash hi).moveLeaf rfl rfl rfl rfl (by rw [hpoint]; exact id) id
  next hpoint => exact h.moveLeaf rfl rfl rfl rfl (by rw [hpoint]; exact id) id
  next remaining hpoint =>
    split
    next hlast => exact h.callFinalizer (hinv.closing_of_reporting hpoint hlast)
    next => exact h.moveLeaf rfl rfl rfl rfl (by rw [hpoint]; exact id) id
  next point hpoint =>
    cases point with
    | loading => exact h.load hindex hpoint
    | finishing windows => exact h.finish hinv hpoint
    | clearingPartials =>
      exact (h.clear hinv hpoint).moveLeaf rfl rfl rfl rfl (by rw [hpoint]; exact id) id
    | clearingKeys => exact h.moveLeaf rfl rfl rfl rfl (by rw [hpoint]; exact id) id
  all_goals exact h

theorem Aggregating.dispatchWindows (h : Aggregating job expected s)
    (hinv : FanInInvariant job s) (hcounts : CountsOnce s (.coordinate : Event Payload)) :
    Aggregating job expected (dispatchWindows job s) := by
  unfold Tasks.dispatchWindows
  split
  next hpoint =>
    rw [if_neg (by simp [hcounts hpoint])]
    exact h.frame rfl rfl rfl fun _ => .inl rfl
  next => exact h.frame rfl rfl rfl fun _ => .inl rfl
  next next hpoint =>
    split
    next hlt =>
      have hunsent : s.leaves next = .unsent :=
        (hinv.unsent next).mpr (by simp [hpoint, CoordinatorPoint.sent])
      have hmoved : Aggregating job expected (s.moveLeaf next .queued) :=
        h.moveLeaf rfl rfl rfl rfl (by rw [hunsent]; exact id) id
      exact hmoved.frame rfl rfl rfl fun _ => .inl rfl
    next => exact h.frame rfl rfl rfl fun _ => .inl rfl
  next point hpoint => exact absurd hpoint (hinv.not_finalizing point)
  next => exact h

theorem Aggregating.elapse {seconds : ℕ} (h : Aggregating job expected s)
    (hcounts : CountsOnce s (.elapse seconds)) :
    Aggregating job expected { s with keys := s.keys.elapse seconds } := by
  by_cases hover : JobKeys.expires s.keys.ttl.partials seconds
  · -- the result is written, so nobody loads the partial results any more
    have hempty : (s.keys.elapse seconds).partials = [] := if_pos hover
    refine ⟨.empty hempty, by simp [JobKeys.staged, hempty], fun k hk => ?_, h.finishing,
      h.unwritten, h.written⟩
    exact absurd (h.unwritten (.inr ⟨k, by rw [hk]; trivial⟩)) (hcounts.2 hover).2
  · exact h.frame (if_neg hover) rfl rfl fun _ => .inl rfl

theorem Aggregating.step {e : Event Payload} (h : Aggregating job expected s)
    (hinv : FanInInvariant job s) (hindex : ∀ j < job.total, job.windowIndex (expected j) = j)
    (hcounts : CountsOnce s e) (hstages : StagesExpected job expected s e) :
    Aggregating job expected (step job s e) := by
  cases e with
  | coordinate => exact h.dispatchWindows hinv hcounts
  | deliver j =>
    simp only [Tasks.step]
    split
    next hpoint => exact h.moveLeaf rfl rfl rfl rfl (by rw [hpoint]; exact id) id
    next => exact h
  | advance j outcome => exact h.runWindow hinv hindex outcome hstages
  | acknowledge j =>
    simp only [Tasks.step]
    split
    next hpoint => exact h.moveLeaf rfl rfl rfl rfl (by rw [hpoint]; exact id) id
    next => exact h
  | workerDies j =>
    simp only [Tasks.step]
    split
    next =>
      refine h.moveLeaf rfl rfl rfl rfl (fun hawaiting => ?_) id
      have hredeliverable : (s.leaves j).Redeliverable := hcounts
      revert hawaiting hredeliverable
      cases s.leaves j with
      | finalizing point => exact fun _ hfalse => hfalse
      | unsent | queued | checking | working | decrementing | reporting | returned
      | acknowledged => exact fun hfalse _ => hfalse
    next => exact h
  | requestCancel => exact h.frame rfl rfl rfl fun _ => .inl rfl
  | elapse => exact h.elapse hcounts

/-- An admissible run in which every execution stages what is expected. -/
def StagesOnce (job : Job Payload Result) (expected : ℕ → Payload) (s : FanIn Payload Result)
    (e : Event Payload) : Prop :=
  CountsOnce s e ∧ StagesExpected job expected s e

theorem Aggregating.run {events : List (Event Payload)}
    (hindex : ∀ j < job.total, job.windowIndex (expected j) = j)
    (hrun : Admissible (Tasks.step job) (StagesOnce job expected) {} events) :
    FanInInvariant job (RunInvariants.run (Tasks.step job) {} events) ∧
      Aggregating job expected (RunInvariants.run (Tasks.step job) {} events) :=
  invariant_of_admissible
    (fun s => FanInInvariant job s ∧ Aggregating job expected s) hrun
    ⟨.initial, .initial⟩
    fun _ _ hcondition hboth => ⟨hboth.1.step hcondition.1,
      hboth.2.step hboth.1 hindex hcondition.1 hcondition.2⟩

/-! ## What is written -/

theorem Aggregating.finished_eq (h : Aggregating job expected s) :
    s.finished = [] ∨
      s.finished.map Prod.snd = [job.finalizeResult (inOrder job expected)] := by
  by_cases hcalls : s.finalizations = []
  · exact .inl (h.unwritten (.inl hcalls))
  · by_cases hawaiting : ∃ i, (s.leaves i).Awaiting
    · exact .inl (h.unwritten (.inr hawaiting))
    · exact .inr (h.written hcalls (not_exists.mp hawaiting))

end Runs

end QBackend.Tasks
