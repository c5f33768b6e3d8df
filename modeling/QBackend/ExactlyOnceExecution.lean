import QBackend.OrderResolution
import Mathlib

/-!
# Exactly-once execution on the paper broker

Over every run of service calls, crashes, startups and reconciliation passes on the paper
broker: one order for each bar, one broker call for each order, one fill for each filled order
and for no other, and books that are the fold of the fills. The external fill id
`paper:<order id>` is what makes every paper fill fresh.
-/

namespace QBackend.Execution

open KeyedTables RunInvariants

/-! ## Paper fills are fresh -/

def paperKey (orderId : ℕ) : BrokerMode × String := (.paper, "paper:" ++ toString orderId)

theorem paperKey_injective : Function.Injective paperKey := by
  intro m n h
  simp only [paperKey, Prod.mk.injEq, true_and, String.append_right_inj] at h
  exact Nat.repr_injective h

/-- A fill of the paper broker, named after its order. -/
def IsPaperFill (a : FillApplication) : Prop := a.externalKey = paperKey a.orderId

/-- The paper broker, whose quote source may raise. -/
structure IsPaperBroker (broker : ExecutionBroker) : Prop where
  submit : ∃ quotes now, ∀ request cost,
    broker.submitMarketOrder request cost = .ok (paperSubmit quotes now request cost) ∨
    ∃ e, broker.submitMarketOrder request cost = .error e
  lookup : ∀ request, broker.lookupOrder request = .ok paperLookup

theorem isPaperBroker_paperBroker (quotes : String → Option ExecutableQuote) (now : Time) :
    IsPaperBroker (paperBroker quotes now) :=
  ⟨⟨quotes, now, fun _ _ => .inl rfl⟩, fun _ => rfl⟩

/-- The events of a system that trades on the paper broker, without operator resolutions. -/
def Event.IsPaper : Event → Prop
  | .processBar _ env => IsPaperBroker env.broker
  | .reconcile _ broker _ => IsPaperBroker broker
  | .resolve _ _ _ => False
  | _ => True

theorem paper_answer {broker : ExecutionBroker} (h : IsPaperBroker broker)
    {request : MarketOrderRequest} {cost : PaperCostConfig} {sub : BrokerSubmissionResult}
    {fill : FillRecord} (hsub : broker.submitMarketOrder request cost = .ok sub)
    (hfill : sub.fill = some fill) :
    (fill.brokerMode, fill.externalFillId) = (.paper, request.externalFillId) := by
  obtain ⟨quotes, now, hanswer⟩ := h.submit
  rcases hanswer request cost with hok | ⟨e, herror⟩
  · rw [hsub, Except.ok.injEq] at hok
    subst hok
    obtain ⟨hmode, hid, -⟩ := paperSubmit_fill hfill
    rw [hmode, hid]
  · rw [hsub] at herror
    cases herror

theorem paper_reportedKey {broker : ExecutionBroker} (h : IsPaperBroker broker)
    (order : ExecutionOrder) (deployment : ExecutionDeployment) :
    reportedKey broker order deployment = none := by
  simp [reportedKey, h.lookup, paperLookup]

theorem Event.IsPaper.allowedFills {cfg : ServiceConfig} {w : World} {e : Event} (h : e.IsPaper) :
    AllowedFills IsPaperFill cfg w e := by
  cases e with
  | processBar call env =>
    intro a ha
    obtain ⟨request, sub, -, hext, hsub, hfill⟩ := ha.answer
    rw [IsPaperFill, FillApplication.externalKey, paper_answer h hsub hfill, hext, paperKey, ha.orderId]
  | reconcile d broker now =>
    intro order deployment a ha
    have hkey := reportedKey_of_fill ha
    rw [paper_reportedKey h] at hkey
    cases hkey
  | resolve => exact h.elim
  | _ => trivial

/-! ## The invariant -/

/-- The `apply_fill` call behind a fill row, with the account of its deployment. -/
def Database.applicationOf (db : Database) (pointValue : ℚ) (f : ExecutionFill) : FillApplication :=
  let view := (db.accountView f.deploymentId).getD (0, "")
  { paperAccountId := view.1, deploymentId := f.deploymentId, orderId := f.orderId, fillId := f.id
    fill := f.record, pointValue, symbol := view.2, createdAt := f.createdAt }

/-- The books are the fills, each posted once and in their order. -/
def Folded (start : Books) (pointValue : ℚ) (db : Database) : Prop :=
  db.books = (db.fills.map (db.applicationOf pointValue)).foldl Books.post start

structure PaperInvariant (start : Books) (pointValue : ℚ) (bound : ℕ) (db : Database) : Prop
    extends OrderInvariant bound db where
  barKeys : (db.orders.map ExecutionOrder.barKey).Nodup
  decided : ∀ o ∈ db.orders, o.barKey ∈ db.decisionKeys
  named : ∀ f ∈ db.fills, (f.record.brokerMode, f.record.externalFillId) = paperKey f.orderId
  folded : Folded start pointValue db

section Preservation

variable {start : Books} {pointValue : ℚ} {bound : ℕ} {db db' : Database}

theorem Database.applicationOf_congr (h : db'.accountView = db.accountView) (pointValue : ℚ) :
    db'.applicationOf pointValue = db.applicationOf pointValue := by
  funext f
  simp only [applicationOf, h]

theorem Folded.unbooked (h : Folded start pointValue db) (hu : Unbooked db db') :
    Folded start pointValue db' := by
  rw [Folded, Database.applicationOf_congr hu.accountView, hu.fills, hu.books]
  exact h

/-- Posting does not look at the path by which the order was settled. -/
theorem Books.post_applicationOf {a : FillApplication} (b : Books)
    (h : db.accountView a.deploymentId = some (a.paperAccountId, a.symbol))
    (hpv : a.pointValue = pointValue) :
    b.post (db.applicationOf pointValue a.row) = b.post a := by
  have hview : db.applicationOf pointValue a.row = { a with reconciling := false } := by
    simp [Database.applicationOf, FillApplication.row, h, hpv]
  rw [hview]
  rfl

theorem Folded.fill {a : FillApplication} (h : Folded start pointValue db)
    (hw : FillWrite pointValue db a db') : Folded start pointValue db' := by
  rw [Folded, Database.applicationOf_congr hw.accountView, hw.fills, hw.books, List.map_append,
    List.foldl_append, ← show db.books = _ from h]
  exact (Books.post_applicationOf _ hw.account hw.pointValue).symm

theorem PaperInvariant.write (h : PaperInvariant start pointValue bound db)
    (hw : Write IsPaperFill pointValue bound db db') :
    PaperInvariant start pointValue bound db' := by
  refine ⟨h.toOrderInvariant.write hw, ?_, ?_, ?_, ?_⟩
  · cases hw with
    | frame hf => rw [hf.orders]; exact h.barKeys
    | annotate id f _ hf _ => rw [hf.map_eq ExecutionOrder.barKey_of_identity]; exact h.barKeys
    | intent o _ _ hi =>
      rw [hi.orders, List.map_append, List.map_singleton]
      refine List.Nodup.append h.barKeys (by simp) (List.disjoint_singleton.mpr fun hmem => ?_)
      obtain ⟨x, hx, hxo⟩ := List.mem_map.mp hmem
      exact hi.fresh (hxo ▸ h.decided x hx)
    | settle id hs =>
      obtain ⟨o, f, -, -, hf, -⟩ := hs.change
      rw [hf.map_eq ExecutionOrder.barKey_of_identity]; exact h.barKeys
    | fill a _ hf =>
      obtain ⟨o, f, -, -, hrew, -⟩ := hf.change
      rw [hrew.map_eq ExecutionOrder.barKey_of_identity]; exact h.barKeys
  · have hrewritten : ∀ {id f}, Rewritten db id f db' → Grown db db' →
        ∀ o ∈ db'.orders, o.barKey ∈ db'.decisionKeys := by
      intro id f hf hg
      refine hf.forall_orders (fun o ho => hg.decisionKeys _ (h.decided o ho)) (fun o ho _ => ?_)
      rw [ExecutionOrder.barKey_of_identity (hf.identity o)]
      exact hg.decisionKeys _ (h.decided o ho)
    cases hw with
    | frame hf => exact fun o ho => hf.decisionKeys _ (h.decided o (hf.orders ▸ ho))
    | annotate id f hu hf _ => exact hrewritten hf hu.toGrown
    | intent o _ _ hi =>
      rw [hi.orders]
      intro x hx
      rcases List.mem_append.mp hx with hx | hx
      · exact hi.decisionKeys _ (h.decided x hx)
      · rw [List.mem_singleton.mp hx]; exact hi.recorded
    | settle id hs =>
      obtain ⟨o, f, -, -, hf, -⟩ := hs.change
      exact hrewritten hf hs.toGrown
    | fill a _ hf =>
      obtain ⟨o, f, -, -, hrew, -⟩ := hf.change
      exact hrewritten hrew hf.toGrown
  · cases hw with
    | frame hf => rw [hf.fills]; exact h.named
    | annotate id f hu _ _ => rw [hu.fills]; exact h.named
    | intent o _ _ hi => rw [hi.fills]; exact h.named
    | settle id hs => rw [hs.fills]; exact h.named
    | fill a ha hf =>
      rw [hf.fills]
      intro f hfm
      rcases List.mem_append.mp hfm with hfm | hfm
      · exact h.named f hfm
      · rw [List.mem_singleton.mp hfm]; exact ha
  · cases hw with
    | frame hf => exact h.folded.unbooked hf.toUnbooked
    | annotate id f hu _ _ => exact h.folded.unbooked hu
    | intent o _ _ hi => exact h.folded.unbooked hi.toUnbooked
    | settle id hs => exact h.folded.unbooked hs.toUnbooked
    | fill a _ hf => exact h.folded.fill hf

theorem PaperInvariant.writes (h : PaperInvariant start pointValue bound db)
    (hw : Writes IsPaperFill pointValue bound db db') :
    PaperInvariant start pointValue bound db' := by
  induction hw with
  | refl => exact h
  | tail _ hstep ih => exact ih.write hstep

theorem PaperInvariant.mono {bound' : ℕ} (h : PaperInvariant start pointValue bound db)
    (hb : bound ≤ bound') : PaperInvariant start pointValue bound' db :=
  ⟨h.toOrderInvariant.mono hb, h.barKeys, h.decided, h.named, h.folded⟩

theorem PaperInvariant.paperKey_not_mem (h : PaperInvariant start pointValue bound db) {id : ℕ}
    (hid : bound ≤ id) : paperKey id ∉ db.recordedKeys := by
  simp only [Database.recordedKeys, List.mem_map]
  rintro ⟨f, hf, hkey⟩
  rw [h.named f hf] at hkey
  obtain ⟨o, ho, hof⟩ := h.fillOwner f hf
  have := h.below o ho
  have := paperKey_injective hkey
  omega

end Preservation

/-! ## Runs -/

/-- Every bar was ordered at most once, every order was submitted at most once, and exactly the
filled orders are in the books, each through one fill. -/
structure ExactlyOnce (start : Books) (pointValue : ℚ) (db : Database)
    (submissions : List Submission) : Prop where
  orderedOnce : (db.orders.map ExecutionOrder.barKey).Nodup
  submittedOnce : (submissions.map (fun s => s.request.orderId)).Nodup
  filled_iff : ∀ o ∈ db.orders, o.status = .filled ↔ db.fillCount o.id = 1
  untouched : ∀ o ∈ db.orders, o.status ≠ .filled → ∀ f ∈ db.fills, f.orderId ≠ o.id
  owned : ∀ f ∈ db.fills, ∃ o ∈ db.orders, o.id = f.orderId ∧ o.status = .filled
  folded : Folded start pointValue db

structure ExactlyOnceInvariant (start : Books) (pointValue : ℚ) (w : World) : Prop where
  committed : PaperInvariant start pointValue w.nextId w.session.committed
  working : PaperInvariant start pointValue w.nextId w.session.working
  submitted : ∀ s ∈ w.submissions, s.request.orderId < w.nextId
  submittedOnce : (w.submissions.map (fun s => s.request.orderId)).Nodup

section Runs

variable {start : Books} {pointValue : ℚ} {cfg : ServiceConfig} {w w' : World}

theorem PaperInvariant.exactlyOnce {bound : ℕ} {db : Database} {submissions : List Submission}
    (h : PaperInvariant start pointValue bound db)
    (hs : (submissions.map (fun s => s.request.orderId)).Nodup) :
    ExactlyOnce start pointValue db submissions := by
  have hcount : ∀ o ∈ db.orders, ∀ f ∈ db.fills, f.orderId = o.id → o.status = .filled := by
    intro o ho f hf hfo
    have hcount := h.fillCount o ho
    by_contra hne
    rw [if_neg hne, Database.fillCount, List.countP_eq_zero] at hcount
    exact hcount f hf (by simpa using hfo)
  refine ⟨h.barKeys, hs, fun o ho => ?_, fun o ho hne f hf hfo => hne (hcount o ho f hf hfo),
    fun f hf => ?_, h.folded⟩
  · rw [h.fillCount o ho]
    split <;> simp_all
  · obtain ⟨o, ho, hof⟩ := h.fillOwner f hf
    exact ⟨o, ho, hof, hcount o ho f hf hof.symm⟩

theorem World.Fresh.exactlyOnceInvariant (h : w.Fresh) (pointValue : ℚ) :
    ExactlyOnceInvariant w.session.committed.books pointValue w := by
  have hempty : PaperInvariant w.session.committed.books pointValue w.nextId w.session.committed := by
    refine ⟨OrderInvariant.empty _ h.orders h.fills, ?_, ?_, ?_, ?_⟩ <;>
      simp [h.orders, h.fills, Folded]
  exact ⟨hempty, by rw [h.clean]; exact hempty, by simp [h.submissions], by simp [h.submissions]⟩

theorem ExactlyOnceInvariant.freshFills (h : ExactlyOnceInvariant start pointValue w) {e : Event}
    (he : e.IsPaper) : FreshFills cfg w e := by
  cases e with
  | processBar call env =>
    intro request sub fill _ hext hsub hfill
    rw [paper_answer he hsub hfill, hext]
    exact h.working.paperKey_not_mem (by omega)
  | reconcile d broker now =>
    have hnone : ∀ orders, reportedKeys broker w.session.working orders = [] := by
      intro orders
      simp only [reportedKeys, List.filterMap_eq_nil_iff]
      intro o _
      cases w.session.working.getExecutionDeployment o.deploymentId with
      | none => rfl
      | some d => exact paper_reportedKey he o d
    refine ⟨?_, ?_⟩ <;> simp [hnone]
  | resolve => exact he.elim
  | _ => trivial

theorem ExactlyOnceInvariant.tables (h : ExactlyOnceInvariant start pointValue w)
    (ha : Advance IsPaperFill pointValue w'.nextId w w') :
    PaperInvariant start pointValue w'.nextId w'.session.committed ∧
      PaperInvariant start pointValue w'.nextId w'.session.working := by
  cases ha with
  | stay hs hn _ => rw [hs]; exact ⟨h.committed.mono hn, h.working.mono hn⟩
  | drop hs hn _ => rw [hs]; exact ⟨h.committed.mono hn, h.committed.mono hn⟩
  | extend db ids hs hn hw _ _ => rw [hs]; exact ⟨h.committed.mono hn, (h.working.mono hn).writes hw⟩
  | commit db ids hs hn hw _ _ =>
    rw [hs]
    exact ⟨(h.working.mono hn).writes hw, (h.working.mono hn).writes hw⟩
  | recover db hs hn hw _ =>
    rw [hs]
    exact ⟨(h.committed.mono hn).writes hw, (h.committed.mono hn).writes hw⟩

theorem BarStep.submissions {call : BarCall} {env : BarEnvironment}
    {r : Except Failure BarProcessResult} (h : BarStep cfg w call env w' r) :
    w'.submissions = w.submissions ∧ w.nextId ≤ w'.nextId ∨
    ∃ s, w'.submissions = w.submissions ++ [s] ∧ s.request.orderId = w.nextId + 1 ∧
      w'.nextId = w.nextId + 3 := by
  cases h with
  | skipped => exact .inl ⟨rfl, le_rfl⟩
  | failed n f hn => exact .inl ⟨rfl, hn⟩
  | concluded => exact .inl ⟨rfl, Nat.le_add_right _ _⟩
  | intended => exact .inl ⟨rfl, Nat.le_add_right _ _⟩
  | submitted db o request f hi hr _ => exact .inr ⟨_, rfl, hr.orderId.trans hi.id, rfl⟩
  | settled db o request db' r hi hr _ => exact .inr ⟨_, rfl, hr.orderId.trans hi.id, rfl⟩
  | filled db o request db' r a hi hr _ _ _ => exact .inr ⟨_, rfl, hr.orderId.trans hi.id, rfl⟩

theorem World.amend_submissions (w : World) (result : Except ExecutionError Database) :
    (w.amend result).submissions = w.submissions := by
  cases result <;> rfl

theorem step_submissions_of_ne {e : Event} (he : ∀ call env, e ≠ .processBar call env) :
    (step cfg w e).submissions = w.submissions := by
  cases e with
  | processBar call env => exact absurd rfl (he call env)
  | startup quotes now =>
    simp only [step]
    split <;> rfl
  | reconcile d broker now =>
    simp only [step]
    split <;> rfl
  | resolve id body now =>
    simp only [step]
    split
    · split <;> rfl
    · rfl
  | operate command =>
    simp only [step]
    split
    · split <;> rfl
    · rfl
  | acquireLease => exact World.amend_submissions _ _
  | heartbeatLease => exact World.amend_submissions _ _
  | releaseLease => exact World.amend_submissions _ _
  | clearPending => exact World.amend_submissions _ _
  | commit => rfl
  | restart => rfl

theorem step_submissions {e : Event} (h : OrderInvariant w.nextId w.session.working)
    (hfresh : FreshFills cfg w e) :
    (step cfg w e).submissions = w.submissions ∨
    ∃ s, (step cfg w e).submissions = w.submissions ++ [s] ∧ s.request.orderId = w.nextId + 1 ∧
      (step cfg w e).nextId = w.nextId + 3 := by
  by_cases he : ∃ call env, e = .processBar call env
  · obtain ⟨call, env, rfl⟩ := he
    rcases (processCompletedBar_step h.below hfresh).submissions with ⟨hs, -⟩ | hs
    · exact .inl hs
    · exact .inr hs
  · push Not at he
    exact .inl (step_submissions_of_ne he)

theorem Advance.nextId_le {allowed : FillApplication → Prop} {bound : ℕ}
    (h : Advance allowed pointValue bound w w') :
    w.nextId ≤ w'.nextId := by
  cases h with
  | stay _ hn _ => exact hn
  | drop _ hn _ => exact hn
  | extend _ _ _ hn _ _ _ => exact hn
  | commit _ _ _ hn _ _ _ => exact hn
  | recover _ _ hn _ _ => exact hn

theorem ExactlyOnceInvariant.step (h : ExactlyOnceInvariant start cfg.pointValue w) {e : Event}
    (he : e.IsPaper) : ExactlyOnceInvariant start cfg.pointValue (step cfg w e) := by
  have hfresh : FreshFills cfg w e := h.freshFills he
  have hadvance := step_advance h.working.toOrderInvariant hfresh he.allowedFills
  obtain ⟨hcommitted, hworking⟩ := h.tables hadvance
  refine ⟨hcommitted, hworking, ?_, ?_⟩
  · have hn := hadvance.nextId_le
    rcases step_submissions h.working.toOrderInvariant hfresh with hs | ⟨s, hs, hid, hnext⟩
    · rw [hs]
      exact fun s hs => (h.submitted s hs).trans_le hn
    · rw [hs, hnext]
      intro x hx
      rcases List.mem_append.mp hx with hx | hx
      · have := h.submitted x hx
        omega
      · rw [List.mem_singleton.mp hx]
        omega
  · rcases step_submissions h.working.toOrderInvariant hfresh with hs | ⟨s, hs, hid, -⟩
    · rw [hs]
      exact h.submittedOnce
    · rw [hs, List.map_append, List.map_singleton]
      refine List.Nodup.append h.submittedOnce (by simp) (List.disjoint_singleton.mpr fun hmem => ?_)
      obtain ⟨x, hx, hxs⟩ := List.mem_map.mp hmem
      have := h.submitted x hx
      omega

end Runs

/-- Exactly-once execution, in every state that a run on the paper broker reaches. -/
theorem exactly_once_execution (cfg : ServiceConfig) (w : World) (hw : w.Fresh)
    (events : List Event) (hpaper : ∀ e ∈ events, e.IsPaper) :
    ExactlyOnce w.session.committed.books cfg.pointValue
      (run (step cfg) w events).session.committed (run (step cfg) w events).submissions ∧
    ExactlyOnce w.session.committed.books cfg.pointValue
      (run (step cfg) w events).session.working (run (step cfg) w events).submissions := by
  have hfinal : ExactlyOnceInvariant w.session.committed.books cfg.pointValue
      (run (step cfg) w events) :=
    invariant_of_admissible _ (Admissible.of_forall hpaper w)
      (hw.exactlyOnceInvariant cfg.pointValue) (fun _ _ he hs => hs.step he)
  exact ⟨hfinal.committed.exactlyOnce hfinal.submittedOnce,
    hfinal.working.exactlyOnce hfinal.submittedOnce⟩

/-- A bar delivered twice, a process killed before the fill commit and recovered, and an
exception before the fill commit that parks the order until the next pass. -/
def crashingRun : List Event :=
  let crashAt (c : Checkpoint) (i : Interruption) : Checkpoint → Option Interruption :=
    fun x => if x = c then some i else none
  let bar (t : Time) (crash : Checkpoint → Option Interruption) : Event :=
    .processBar (buyCall t) (deskEnvironment t crash)
  [.acquireLease 7 "token" 600000000 60000000, .commit,
    bar 60000000 (fun _ => none), bar 60000000 (fun _ => none),
    bar 120000000 (crashAt .beforeFillCommit .kill), .startup (deskQuotes 121000000) 121000000,
    .reconcile none (paperBroker (deskQuotes 121000000) 121000000) 121000000, .commit,
    bar 180000000 (crashAt .beforeFillCommit .raise),
    .reconcile (some 7) (paperBroker (deskQuotes 181000000) 181000000) 181000000, .restart,
    bar 240000000 (crashAt .afterBrokerResponse .raise), bar 300000000 (crashAt .beforeIntentCommit .kill)]

theorem exactly_once_execution_crashing_run :
    ((run (step {}) deskWorld crashingRun).session.committed.orders.map (·.status) =
      [.filled, .rejected, .unknown]) ∧
    ExactlyOnce deskWorld.session.committed.books 1
      (run (step {}) deskWorld crashingRun).session.committed
      (run (step {}) deskWorld crashingRun).submissions := by
  refine ⟨by decide +kernel, (exactly_once_execution {} deskWorld deskWorld_fresh crashingRun ?_).1⟩
  intro e he
  simp only [crashingRun, List.mem_cons, List.not_mem_nil, or_false] at he
  rcases he with rfl | rfl | rfl | rfl | rfl | rfl | rfl | rfl | rfl | rfl | rfl | rfl | rfl <;>
    first
    | trivial
    | exact isPaperBroker_paperBroker _ _

end QBackend.Execution
